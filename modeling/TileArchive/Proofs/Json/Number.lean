import TileArchive.Json.Number
import TileArchive.Proofs.Bytes
import TileArchive.Proofs.Digits

/-!
# `TileArchive.Proofs.Json.Number`: a written integer is read back

Integers are written with their decimal digits. Reading takes the longest number at the front
of a text, so a written integer is read back where what follows it does not carry it on
(`Numeral.Apart`), and its value is found among the integers and not among the doubles
(`Numeral.read_text`).

The value of a numeral is gathered digit by digit into a word, as long as it fits one.
`gather_of_fits` says that nothing is left over for a number that fits, because a number that has
been gathered so far is never above the whole (`le_foldl_digits`). A numeral with digits left over,
a fraction or an exponent is a double, and none of the written integers is one.

Negative integers reach down to the smallest signed word, whose absolute value no signed word has.
They are kept by their absolute value, so this one needs no case of its own.
-/

set_option autoImplicit false

namespace TileArchive.Json

/-- An integer that its text tells from a double: minus zero and what lies below the least
signed word are doubles. -/
def Number.IsInteger : Number → Prop
  | .natural _ => True
  | .negative n => 0 < n.toNat ∧ n.toNat ≤ Word.topBit
  | .real _ => False

namespace Numeral

/-- A text does not carry on a number that is written before it. Otherwise the reader would
take its first characters for part of the number. -/
def Apart (rest : List Char) : Prop :=
  ∀ c ∈ rest.head?, digit? c = none ∧ c ≠ '.' ∧ c ≠ 'e' ∧ c ≠ 'E'

/-- A character that carries no number on keeps everything behind it from doing so. -/
theorem apart_cons {c : Char} (ends : digit? c = none ∧ c ≠ '.' ∧ c ≠ 'e' ∧ c ≠ 'E')
    (rest : List Char) : Apart (c :: rest) := by
  rintro _ ⟨⟩
  exact ends

/-- The digits of a number as they are read. -/
def digitsOf (n : Nat) : List Nat := (Nat.toDigits 10 n).map fun c => c.toNat - 48

/-- A written integer. -/
def ofInteger (negative : Bool) (n : Nat) : Numeral := ⟨negative, digitsOf n, none, none⟩

/-! ### Reading -/

/-- A written digit is read as its value. -/
theorem digit?_of_mem {n : Nat} {c : Char} (written : c ∈ Nat.toDigits 10 n) :
    digit? c = some (c.toNat - 48) := by
  have digit := Digits.toNat_of_mem written
  exact if_pos digit

/-- Digits are read up to what is none. -/
theorem readDigits_append {cs rest : List Char} (digits : ∀ c ∈ cs, digit? c = some (c.toNat - 48))
    (apart : ∀ c ∈ rest.head?, digit? c = none) :
    readDigits (cs ++ rest) = (cs.map fun c => c.toNat - 48, rest) := by
  induction cs with
  | nil =>
      cases rest with
      | nil => rfl
      | cons c rest => simp [readDigits, apart c rfl]
  | cons c cs ih =>
      rw [List.cons_append, readDigits, digits c List.mem_cons_self,
        ih fun c mem => digits c (List.mem_cons_of_mem _ mem)]
      rfl

/-- Written digits start with a zero only if it is the only one, as a reader demands. -/
theorem wholeAllowed_digitsOf (n : Nat) : wholeAllowed (digitsOf n) = true := by
  obtain ⟨c, cs, written⟩ := List.exists_cons_of_ne_nil (Nat.toDigits_ne_nil (n := n) (b := 10))
  rw [digitsOf, written]
  rcases Digits.toDigits_head written with rfl | nonzero
  · rfl
  · have digit := Digits.toNat_of_mem (written ▸ List.mem_cons_self : c ∈ Nat.toDigits 10 n)
    have positive : c.toNat - 48 ≠ 0 := fun zero =>
      nonzero (Char.toNat_inj.1 (show c.toNat = 48 by omega))
    cases cs with
    | nil => rfl
    | cons _ _ => simpa [wholeAllowed] using positive

/-- What does not carry a number on has no fraction. -/
theorem readFraction_of_apart {rest : List Char} (apart : Apart rest) :
    readFraction rest = some (none, rest) := by
  unfold readFraction
  split
  · exact absurd rfl (apart '.' rfl).2.1
  · rfl

/-- What does not carry a number on has no exponent. -/
theorem readExponent_of_apart {rest : List Char} (apart : Apart rest) :
    readExponent rest = some (none, rest) := by
  unfold readExponent
  split
  · exact absurd rfl (apart 'e' rfl).2.2.1
  · exact absurd rfl (apart 'E' rfl).2.2.2
  · rfl

/-- After the sign, an integer is read up to what does not carry it on. -/
theorem read_of_sign {negative : Bool} {cs rest : List Char} {n : Nat}
    (sign : readSign cs = (negative, Nat.toDigits 10 n ++ rest)) (apart : Apart rest) :
    read cs = some (ofInteger negative n, rest) := by
  have digits : readDigits (Nat.toDigits 10 n ++ rest) = (digitsOf n, rest) :=
    readDigits_append (fun _ => digit?_of_mem) fun c mem => (apart c mem).1
  simp [read, sign, digits, readFraction_of_apart apart, readExponent_of_apart apart,
    wholeAllowed_digitsOf, ofInteger]

/-- In front of digits there is no sign. -/
theorem readSign_digits (n : Nat) (rest : List Char) :
    readSign (Nat.toDigits 10 n ++ rest) = (false, Nat.toDigits 10 n ++ rest) := by
  obtain ⟨c, cs, written⟩ := List.exists_cons_of_ne_nil (Nat.toDigits_ne_nil (n := n) (b := 10))
  have digit := Digits.toNat_of_mem (written ▸ List.mem_cons_self : c ∈ Nat.toDigits 10 n)
  rw [written, List.cons_append]
  unfold readSign
  split
  · next minus =>
    obtain ⟨rfl, -⟩ := List.cons.inj minus
    exact absurd digit.1 (by decide)
  · rfl

/-! ### The value -/

/-- Digits that are added never make a number smaller. -/
theorem le_foldl_digits (ds : List Nat) (word : Nat) :
    word ≤ ds.foldl (fun value d => value * 10 + d) word := by
  induction ds generalizing word with
  | nil => exact Nat.le_refl _
  | cons d ds ih =>
      have step := ih (word * 10 + d)
      rw [List.foldl_cons]
      omega

/-- Digits are all gathered where the number they make fits a word. -/
theorem gather_of_fits {ds : List Nat} {word : Nat}
    (fits : ds.foldl (fun value d => value * 10 + d) word ≤ Word.largest) :
    gather word ds = (ds.foldl (fun value d => value * 10 + d) word, []) := by
  induction ds generalizing word with
  | nil => rfl
  | cons d ds ih =>
      rw [List.foldl_cons] at fits ⊢
      have next_fits := Nat.le_trans (le_foldl_digits ds (word * 10 + d)) fits
      rw [gather, if_neg (Nat.not_lt.2 next_fits), ih fits]

/-- The digits of a word are gathered into this word, with none left over. -/
theorem gather_digitsOf (w : UInt64) : gather 0 (digitsOf w.toNat) = (w.toNat, []) := by
  have value_eq : (digitsOf w.toNat).foldl (fun value d => value * 10 + d) 0 = w.toNat := by
    rw [digitsOf, List.foldl_map]
    exact Digits.foldl_toDigits w.toNat
  have fits := Word.toNat_le_largest w
  rw [← value_eq] at fits
  rw [gather_of_fits fits, value_eq]

/-- The value of the digits of a word is this word. -/
theorem number?_natural (w : UInt64) :
    (ofInteger false w.toNat).number? = some (.natural w) := by
  simp [number?, ofInteger, gather_digitsOf]

/-- The value of a minus and the digits of a word is the negative of this word, down to the
smallest signed word. -/
theorem number?_negative {w : UInt64} (positive : 0 < w.toNat) (bounded : w.toNat ≤ Word.topBit) :
    (ofInteger true w.toNat).number? = some (.negative w) := by
  simp [number?, ofInteger, gather_digitsOf, positive, bounded]

/-- A written integer is read up to what does not carry it on, and has its value. -/
theorem read_text {number : Number} (integer : number.IsInteger) :
    ∃ numeral, numeral.number? = some number ∧
      ∀ rest, Apart rest → read (number.text ++ rest) = some (numeral, rest) := by
  cases number with
  | natural w =>
      exact ⟨_, number?_natural w, fun rest apart => read_of_sign (readSign_digits _ rest) apart⟩
  | negative w =>
      exact ⟨_, number?_negative integer.1 integer.2, fun rest apart => read_of_sign rfl apart⟩
  | real bits => exact integer.elim

end Numeral

end TileArchive.Json
