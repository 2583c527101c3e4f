import TileArchive.Proofs.Checked
import TileArchive.Proofs.Directory.Format
import TileArchive.Proofs.Directory.Search

/-!
# `TileArchive.Proofs.Directory.Halving`: searching with machine indices

`Directory.find?` carries the proof that it looks at rows of the directory only. A machine has no
such proof. `checkedFind?` halves a range of whole numbers, with `-1` for the end of a range in
front of all rows, and everything that could go wrong is checked: the indices stay within what the
machine counts to, every row that is looked at exists, the difference of two tile numbers is not
negative, and the loop ends.

* `halve?_spec` says what one round does. The invariant `Halving.Leads` relates the range to the
  one that `Directory.locate` has reached.
* `checkedFind?_eq`: nothing goes wrong, whatever the order of the rows. The difference is not
  negative because the row in front of the gap was met on the way (`row_before_gap`).
* `search_outcome` says what is found.
-/

set_option autoImplicit false

namespace TileArchive.Directory

/-! ### The search -/

/-- An index of a machine that counts up to `most` in either direction. -/
def index? (most : Nat) (i : Int) : Option Int :=
  if -(most : Int) ≤ i ∧ i ≤ most then some i else none

/-- The row at an index, if there is one. -/
def rowAt? (d : Directory) (i : Int) : Option Entry :=
  if 0 ≤ i then d.entries[i.toNat]? else none

/-- The first and the last index of the rows that may have the number, and a row that has
it. The indices are signed, as the last one is minus one where the first row is too high. -/
structure Halving where
  low : Int
  high : Int
  found : Option Entry

/-- Whether the search is not over. -/
def Halving.goesOn (s : Halving) : Bool := s.found.isNone && decide (s.low ≤ s.high)

/-- One round of the search: looks at the row in the middle. -/
def halve? (most : Nat) (d : Directory) (id : UInt64) (s : Halving) : Option Halving := do
  let middle := (← index? most (s.high + s.low)) / 2
  let e ← d.rowAt? middle
  if e.tileId < id then return { s with low := ← index? most (middle + 1) }
  else if id < e.tileId then return { s with high := ← index? most (middle - 1) }
  else return { s with found := some e }

/-- The row responsible for a tile number, with every step checked. The rounds that the loop may
take are the binary digits of the number of rows. -/
def checkedFind? (most : Nat) (d : Directory) (id : UInt64) : Option (Option Entry) := do
  let start : Halving := ⟨0, ← index? most (d.size - 1), none⟩
  let last ← Word.loop? Halving.goesOn (halve? most d id) (d.size.log2 + 1) start
  match last.found with
  | some e => return some e
  | none =>
    if last.high < 0 then return none
    let e ← d.rowAt? last.high
    if e.isPointer then return some e
    let past ← Word.sub? id e.tileId
    return if past < e.runLength.toUInt64 then some e else none

/-! ### One round -/

variable {most : Nat} {d : Directory} {id : UInt64}

/-- An index that stays within what the machine counts to is computed. -/
theorem index?_of_within {i : Int} (above : -(most : Int) ≤ i) (below : i ≤ most) :
    index? most i = some i := if_pos ⟨above, below⟩

/-- A row at an index that is not negative and not behind the last row exists. -/
theorem rowAt?_natCast {i : Nat} (bound : i < d.entries.length) :
    d.rowAt? i = some d.entries[i] := by
  rw [rowAt?, if_pos (Int.natCast_nonneg i), Int.toNat_natCast, List.getElem?_eq_getElem bound]

/-- With fewer than `2 ^ left` rows in its range, a search leads to where `locate` ends.
Each round halves the range, so `left` is a bound on the rounds to come. -/
inductive Halving.Leads (d : Directory) (id : UInt64) (left : Nat) : Halving → Prop where
  | searching {low high : Nat} (fits : high ≤ d.entries.length) (ordered : low ≤ high)
      (short : high - low < Nat.pow 2 left)
      (same : locate d.entries id low high fits
        = locate d.entries id 0 d.entries.length (Nat.le_refl _)) :
      Leads d id left ⟨low, high - 1, none⟩
  | found {low high : Int} {e : Entry}
      (same : locate d.entries id 0 d.entries.length (Nat.le_refl _) = .found e) :
      Leads d id left ⟨low, high, some e⟩

/-- A search whose range is empty is over. -/
theorem Halving.Leads.ended {s : Halving} (leads : s.Leads d id 0) : s.goesOn = false := by
  cases leads with
  | searching fits ordered short same =>
      have one : Nat.pow 2 0 = 1 := rfl
      simp only [goesOn, Option.isNone_none, Bool.true_and, decide_eq_false_iff_not]
      omega
  | found same => rfl

/-- One round of the search. The sum of the two ends is below twice the number of rows,
which is what `room` leaves space for. The range that is left is at most half as long. -/
theorem halve?_spec (room : 2 * d.size < most) {left : Nat} {s : Halving}
    (leads : s.Leads d id (left + 1)) (goes_on : s.goesOn = true) :
    ∃ s', halve? most d id s = some s' ∧ s'.Leads d id left := by
  cases leads with
  | found same => cases goes_on
  | @searching low high fits ordered short same =>
      have inside : low < high := by
        simp only [Halving.goesOn, Option.isNone_none, Bool.true_and, decide_eq_true_eq] at goes_on
        omega
      have size_eq : d.size = d.entries.length := rfl
      have twice : Nat.pow 2 (left + 1) = Nat.pow 2 left * 2 := rfl
      obtain ⟨middle, middle_eq⟩ : ∃ middle, middle = (low + high - 1) / 2 := ⟨_, rfl⟩
      have bound : middle < d.entries.length := by omega
      have sum_eq : index? most ((high - 1 : Int) + low) = some ((high - 1 : Int) + low) :=
        index?_of_within (by omega) (by omega)
      have half_eq : ((high - 1 : Int) + low) / 2 = (middle : Int) := by omega
      have up_eq : index? most ((middle : Int) + 1) = some ((middle + 1 : Nat) : Int) :=
        index?_of_within (by omega) (by omega)
      have down_eq : index? most ((middle : Int) - 1) = some ((middle : Int) - 1) :=
        index?_of_within (by omega) (by omega)
      rw [locate, dif_pos inside] at same
      simp only [← middle_eq] at same
      simp only [halve?, sum_eq, half_eq, rowAt?_natCast bound, Option.bind_eq_bind,
        Option.bind_some]
      split at same
      · next less =>
        refine ⟨⟨(middle + 1 : Nat), high - 1, none⟩, ?_, .searching fits (by omega) ?_ same⟩
        · rw [if_pos less, up_eq]
          rfl
        · omega
      · next not_less =>
        rw [if_neg not_less]
        split at same
        · next greater =>
          refine ⟨⟨low, middle - 1, none⟩, ?_, .searching (by omega) (by omega) ?_ same⟩
          · rw [if_pos greater, down_eq]
            rfl
          · omega
        · next not_greater =>
          rw [if_neg not_greater]
          exact ⟨_, rfl, .found same.symm⟩

/-! ### The whole search -/

/-- A search with checked steps ends, and finds what a search does. After its rounds the row
before the gap is looked at, for which the index is checked once more. -/
theorem checkedFind?_eq (room : 2 * d.size < most) :
    checkedFind? most d id = some (d.find? id) := by
  have size_eq : d.size = d.entries.length := rfl
  have last_eq : index? most ((d.size : Int) - 1) = some ((d.entries.length : Int) - 1) :=
    index?_of_within (by omega) (by omega)
  have start : Halving.Leads d id (d.size.log2 + 1) ⟨(0 : Nat), d.entries.length - 1, none⟩ :=
    .searching (Nat.le_refl _) (Nat.zero_le _) Nat.lt_log2_self rfl
  obtain ⟨last, left, loop_eq, ended, leads⟩ := Word.loop?_ends_early
    (fun left (s : Halving) => s.Leads d id left) (fun _ leads => leads.ended)
    (fun _ _ leads goes_on => halve?_spec room leads goes_on) start
  have loop_eq' : Word.loop? Halving.goesOn (halve? most d id) (d.size.log2 + 1)
      ⟨0, (d.entries.length : Int) - 1, none⟩ = some last := loop_eq
  simp only [checkedFind?, last_eq, loop_eq', Option.bind_eq_bind, Option.bind_some]
  cases leads with
  | found same =>
      rw [find?, same]
      rfl
  | @searching low high fits ordered short same =>
      -- The range is empty, so `locate` has come to the gap.
      have empty : ¬low < high := by
        simp only [Halving.goesOn, Option.isNone_none, Bool.true_and,
          decide_eq_false_iff_not] at ended
        omega
      rw [locate, dif_neg empty] at same
      obtain rfl : low = high := by omega
      obtain ⟨-, -, before⟩ := row_before_gap same.symm (Nat.zero_le _)
      rw [find?, ← same]
      cases low with
      | zero => rfl
      | succ index =>
          have row_eq := List.getElem?_eq_getElem (show index < d.entries.length from fits)
          have high_eq : ((index + 1 : Nat) : Int) - 1 = index := by omega
          have not_negative : ¬(index : Int) < 0 := by omega
          obtain ⟨e, found, less⟩ := before (Nat.succ_pos index)
          obtain rfl : d.entries[index] = e := Option.some.inj (row_eq.symm.trans found)
          have past_eq : Word.sub? id d.entries[index].tileId
              = some (id - d.entries[index].tileId) := if_pos (Nat.le_of_lt less)
          have past_val : (id - d.entries[index].tileId).toNat
              = id.toNat - d.entries[index].tileId.toNat :=
            UInt64.toNat_sub_of_le _ _ (UInt64.le_of_lt less)
          have covered_iff : id - d.entries[index].tileId < d.entries[index].runLength.toUInt64 ↔
              d.entries[index].covers id = true := by
            rw [UInt64.lt_iff_toNat_lt, UInt32.toNat_toUInt64, past_val, Entry.covers_iff]
            have := UInt64.lt_iff_toNat_lt.mp less
            omega
          simp only [high_eq, if_neg not_negative, rowAt?_natCast fits, row_eq, past_eq,
            covered_iff, Option.bind_some, Option.filter_some, Bool.or_eq_true]
          cases d.entries[index].isPointer <;> cases d.entries[index].covers id <;> rfl

/-- What a search finds among any rows. It ends, looks at no row that does not exist, and makes no
negative difference. A row that it finds does not come after the number, and is a pointer or covers
it. Among rows whose numbers do not fall, as in every directory that was read, it finds a row with
the number if there is one, and otherwise the last row before the number if that is responsible.
Among rows whose numbers increase it finds what going through them one by one finds, and where no
run reaches the next row, it finds every run that covers the number. -/
theorem search_outcome (d : Directory) (id : UInt64) :
    (∀ most, 2 * d.size < most → checkedFind? most d id = some (d.find? id)) ∧
    (∀ e, d.find? id = some e →
      e ∈ d.entries ∧ e.tileId ≤ id ∧ (e.isPointer = true ∨ e.covers id = true)) ∧
    (∀ data, decode data = .ok d → d.entries.Pairwise fun e e' => e.tileId ≤ e'.tileId) ∧
    (d.entries.Pairwise (fun e e' => e.tileId ≤ e'.tileId) →
      ((∃ e ∈ d.entries, e.tileId = id) → ∃ e ∈ d.entries, e.tileId = id ∧ d.find? id = some e) ∧
      ((∀ e ∈ d.entries, e.tileId ≠ id) → d.find? id
        = (d.entries.filter fun e => e.tileId < id).getLast?.filter (·.isResponsible id))) ∧
    (d.entries.Pairwise (fun e e' => e.tileId < e'.tileId) →
      d.find? id = scanFor id none d.entries ∧
      ((∀ i e e', d.entries[i]? = some e → d.entries[i + 1]? = some e' →
          e.tileId.toNat + e.runLength.toNat ≤ e'.tileId.toNat) →
        ∀ e ∈ d.entries, e.covers id = true → d.find? id = some e)) := by
  refine ⟨fun most room => checkedFind?_eq room, ?_, ?_, ?_, ?_⟩
  · intro e found
    obtain ⟨member, responsible⟩ := find?_sound found
    exact ⟨member, le_of_find? found, responsible⟩
  · intro data decoded
    obtain ⟨rest, read⟩ := decode_eq_ok_iff.mp decoded
    obtain ⟨c, -, describes⟩ := decodeRest_eq_ok_iff.mp read
    exact describes.increasing
  · intro in_order
    exact ⟨find?_of_numbered in_order, find?_of_unnumbered in_order⟩
  · intro increasing
    exact ⟨find?_eq_scanFor increasing,
      fun apart e member covered => find?_of_covers increasing apart member covered⟩

/-- A directory that was read, whose last run reaches beyond the largest word, and one in which a
number is repeated. -/
theorem search_outcome_last_run :
    let e : Entry := ⟨18446744073709551614, 10, 1, 5⟩
    let d : Directory := ⟨[⟨5, 0, 1, 3⟩, ⟨8, 1, 9, 0⟩, e]⟩
    let d' : Directory := ⟨[⟨5, 0, 1, 1⟩, ⟨5, 1, 1, 2⟩, ⟨9, 0, 4, 0⟩]⟩
    (2 * d.size < 9223372036854775807 ∧
      checkedFind? 9223372036854775807 d 18446744073709551615
        = some (d.find? 18446744073709551615)) ∧
    (decode ([3, 5, 3, 246, 255, 255, 255, 255, 255, 255, 255, 255, 1] ++
        [3, 0, 5, 1, 9, 1, 1, 0, 0]) = .ok d ∧
      e ∈ d.entries ∧ e.covers 18446744073709551615 = true ∧
      d.find? 18446744073709551615 = some e) ∧
    (∃ e ∈ d'.entries, e.tileId = 5 ∧ d'.find? 5 = some e) ∧
    d'.find? 7 = none := by
  intro e d d'
  obtain ⟨checked, -, -, -, increasing⟩ := search_outcome d 18446744073709551615
  obtain ⟨-, -, -, numbered, -⟩ := search_outcome d' 5
  obtain ⟨-, -, -, unnumbered, -⟩ := search_outcome d' 7
  have in_order : d'.entries.Pairwise fun e e' => e.tileId ≤ e'.tileId := by decide
  have apart : ∀ i e e', d.entries[i]? = some e → d.entries[i + 1]? = some e' →
      e.tileId.toNat + e.runLength.toNat ≤ e'.tileId.toNat := by
    rintro (_ | _ | i) e e' here next
    · cases here
      cases next
      decide
    · cases here
      cases next
      decide
    · cases next
  have covered : e.covers 18446744073709551615 = true := by decide
  refine ⟨⟨by decide, checked _ (by decide)⟩, ⟨by rfl, by simp [d], covered, ?_⟩, ?_, ?_⟩
  · exact (increasing (by decide)).2 apart e (by simp [d]) covered
  · exact (numbered in_order).1 (by decide)
  · exact ((unnumbered in_order).2 (by decide)).trans (by decide)

end TileArchive.Directory
