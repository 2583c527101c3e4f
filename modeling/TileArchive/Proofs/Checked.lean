import TileArchive.Proofs.Bytes

/-!
# `TileArchive.Proofs.Checked`: checked arithmetic and loops

Machine words wrap and loops may run for ever. Like `Word.add?` and `Word.sub?`, a product of words
has no result here where it does not fit a word, and `Word.loop?` has none where a round of the loop
has none or the loop has not ended after a given number of rounds.

* `exists_add?`, `exists_sub?` and `exists_mul?` give the results that fit.
* `loop?_ends` and `loop?_ends_early` are for loops with an invariant that says how many rounds
  are left, exactly or at most.

A computation that is written with these and has a result has not wrapped anywhere, so its result
is the one that natural numbers give. Saying that a loop has a result therefore says both that it
ends and that no word in it overflows.
-/

set_option autoImplicit false

namespace TileArchive

namespace Word

/-! ### Checked arithmetic -/

/-- The product of two words, if it fits a word. -/
def mul? (a b : UInt64) : Option UInt64 :=
  if a.toNat * b.toNat ≤ largest then some (a * b) else none

/-- A sum that fits a word is computed, and it is the sum. -/
theorem exists_add? {a b : UInt64} (fits : a.toNat + b.toNat ≤ largest) :
    ∃ c, add? a b = some c ∧ c.toNat = a.toNat + b.toNat :=
  ⟨a + b, if_pos fits, toNat_add fits⟩

/-- A difference with the smaller number taken from the larger is computed, and it is the
difference. -/
theorem exists_sub? {a b : UInt64} (le : b.toNat ≤ a.toNat) :
    ∃ c, sub? a b = some c ∧ c.toNat = a.toNat - b.toNat :=
  ⟨a - b, if_pos le, UInt64.toNat_sub_of_le a b le⟩

/-- A product that fits a word is computed, and it is the product. -/
theorem exists_mul? {a b : UInt64} (fits : a.toNat * b.toNat ≤ largest) :
    ∃ c, mul? a b = some c ∧ c.toNat = a.toNat * b.toNat := by
  have product_eq : (a * b).toNat = a.toNat * b.toNat := by
    rw [UInt64.toNat_mul]
    exact Nat.mod_eq_of_lt (Nat.lt_succ_of_le fits)
  exact ⟨a * b, if_pos fits, product_eq⟩

/-! ### Loops -/

/-- Runs a loop for at most the given number of rounds. It has no result where a round has none,
or where it has not ended after the last of them. -/
def loop? {σ : Type} (goesOn : σ → Bool) (round : σ → Option σ) : Nat → σ → Option σ
  | 0, s => if goesOn s then none else some s
  | rounds + 1, s => if goesOn s then round s >>= loop? goesOn round rounds else some s

/-- A loop ends if an invariant says how many rounds are left. The rounds that are allowed
are only a bound, and what is shown is that they are never used up. -/
theorem loop?_ends {σ : Type} {goesOn : σ → Bool} {round : σ → Option σ} (inv : Nat → σ → Prop)
    (done : ∀ s, inv 0 s → goesOn s = false)
    (next : ∀ left s, inv (left + 1) s → goesOn s = true ∧ ∃ s', round s = some s' ∧ inv left s')
    {rounds left : Nat} (enough : left ≤ rounds) {s : σ} (holds : inv left s) :
    ∃ s', loop? goesOn round rounds s = some s' ∧ inv 0 s' := by
  induction left generalizing rounds s with
  | zero =>
      -- Whether or not rounds are left, the loop stops here.
      cases rounds with
      | zero => exact ⟨s, by simp [loop?, done s holds], holds⟩
      | succ rounds => exact ⟨s, by simp [loop?, done s holds], holds⟩
  | succ left ih =>
      cases rounds with
      | zero => omega
      | succ rounds =>
          obtain ⟨goes_on, s', round_eq, holds'⟩ := next left s holds
          obtain ⟨last, loop_eq, holds_last⟩ := ih (Nat.le_of_succ_le_succ enough) holds'
          exact ⟨last, by simp [loop?, goes_on, round_eq, loop_eq], holds_last⟩

/-- A loop that may end early ends if an invariant says how many rounds are left at most.
What is known in the end is the invariant at the round in which it ended. -/
theorem loop?_ends_early {σ : Type} {goesOn : σ → Bool} {round : σ → Option σ}
    (inv : Nat → σ → Prop) (done : ∀ s, inv 0 s → goesOn s = false)
    (next : ∀ left s, inv (left + 1) s → goesOn s = true →
      ∃ s', round s = some s' ∧ inv left s') {rounds : Nat} {s : σ} (holds : inv rounds s) :
    ∃ last left, loop? goesOn round rounds s = some last ∧ goesOn last = false ∧
      inv left last := by
  induction rounds generalizing s with
  | zero => exact ⟨s, 0, by simp [loop?, done s holds], done s holds, holds⟩
  | succ rounds ih =>
      cases goes_on : goesOn s with
      | false => exact ⟨s, rounds + 1, by simp [loop?, goes_on], goes_on, holds⟩
      | true =>
          obtain ⟨s', round_eq, holds'⟩ := next rounds s holds goes_on
          obtain ⟨last, left, loop_eq, ended, holds_last⟩ := ih holds'
          exact ⟨last, left, by simp [loop?, goes_on, round_eq, loop_eq], ended, holds_last⟩

end Word

end TileArchive
