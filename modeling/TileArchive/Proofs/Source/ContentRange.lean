import TileArchive.Proofs.Checked
import TileArchive.Source.Http

/-!
# `TileArchive.Proofs.Source.ContentRange`: which header names a part of a file

The header of a reply comes from a server that need not be trusted. `PartHeader` is the form
`bytes first-last/size` as a grammar: where the text is cut, and which texts are numbers. The size
may be anything.

* `parseRange?_eq_some_iff`: the header is taken apart exactly where it has that form and both
  positions fit a word.
* `part_named_or_overflows` says for every header which part it names. The bytes between the two
  positions are counted with checked arithmetic. The count is not negative, but it need not fit: a
  header that begins at position zero may name one byte more than a word can count
  (`largest_part_overflows`).

## The grammar

A numeral is one digit or more, and may start with a plus sign. The header is cut at the first slash
and what stands in front of it at the first hyphen, so a slash in front of the hyphen or a second
hyphen behind it leave a text that is no numeral. A header that has the form has it in one way
only, which is why `PartHeader` may say that there is some way to cut it.

## Three answers

Asked whether a header names a part, the reader says yes, says no, or fails to count. `none`
stands for the last and is kept apart from no, because no answer comes back from it:
`namesPart?_eq_none_iff` says exactly when this happens. Positions that do not fit a word are not
counted at all, so they are answered with no.
-/

set_option autoImplicit false

namespace TileArchive.Http

/-! ### Numbers -/

/-- The byte is a decimal digit. -/
def IsDigit (b : UInt8) : Prop := 48 ≤ b.toNat ∧ b.toNat ≤ 57

/-- The number that some digits stand for. -/
def digitsValue (digits : Bytes) : Nat := digits.foldl (fun n b => n * 10 + (b.toNat - 48)) 0

/-- The text is a number in digits, possibly after a plus sign. It may begin with zeros, and
it may be larger than a word. -/
inductive Numeral : Bytes → Nat → Prop where
  | plain {digits : Bytes} (some_digit : digits ≠ []) (all_digits : ∀ b ∈ digits, IsDigit b) :
      Numeral digits (digitsValue digits)
  | signed {digits : Bytes} (some_digit : digits ≠ []) (all_digits : ∀ b ∈ digits, IsDigit b) :
      Numeral (43 :: digits) (digitsValue digits)

/-- The digits of a number: what stands behind its sign, if it has one. Only a plus sign may
stand there. -/
def unsigned (text : Bytes) : Bytes :=
  match text with
  | 43 :: rest => rest
  | text => text

/-- The text is a number exactly if what stands behind its sign is made of digits. There has
to be at least one of them. -/
theorem numeral_iff (text : Bytes) (n : Nat) :
    Numeral text n ↔
      unsigned text ≠ [] ∧ (∀ b ∈ unsigned text, IsDigit b) ∧ digitsValue (unsigned text) = n := by
  constructor
  · intro numeral
    cases numeral with
    | plain some_digit all_digits =>
        -- The plus sign is no digit, so nothing is cut off.
        have same : unsigned text = text := by
          unfold unsigned
          split
          · next rest =>
            have sign : IsDigit 43 := all_digits 43 List.mem_cons_self
            simp [IsDigit] at sign
          · rfl
        rw [same]
        exact ⟨some_digit, all_digits, rfl⟩
    | signed some_digit all_digits => exact ⟨some_digit, all_digits, rfl⟩
  · rintro ⟨some_digit, all_digits, rfl⟩
    unfold unsigned at some_digit all_digits ⊢
    split <;> simp only at some_digit all_digits
    · exact .signed some_digit all_digits
    · exact .plain some_digit all_digits

/-- A text is read as a word exactly if it is a number that fits. Leading zeros do not count
against that, however many there are. -/
theorem parseWord?_eq_some_iff (text : Bytes) (w : UInt64) :
    parseWord? text = some w ↔ Numeral text w.toNat := by
  have digit_iff (b : UInt8) : (48 ≤ b && b ≤ 57) = true ↔ IsDigit b := by
    simp [IsDigit, UInt8.le_iff_toNat_le]
  have all_iff : (unsigned text).all (fun b => 48 ≤ b && b ≤ 57) = true
      ↔ ∀ b ∈ unsigned text, IsDigit b := by
    simp only [List.all_eq_true, digit_iff]
  have parse_eq : parseWord? text
      = if unsigned text = [] ∨ !(unsigned text).all (fun b => 48 ≤ b && b ≤ 57) then none
        else if Word.largest < digitsValue (unsigned text) then none
        else some (UInt64.ofNat (digitsValue (unsigned text))) := rfl
  rw [parse_eq, numeral_iff]
  -- First whether the text is digits, then whether the number fits.
  split
  · next refused =>
    refine iff_of_false nofun ?_
    rintro ⟨some_digit, all_digits, -⟩
    simp [some_digit, all_iff.mpr all_digits] at refused
  · next digits =>
    simp only [Bool.not_eq_true', not_or, Bool.not_eq_false, all_iff] at digits
    obtain ⟨some_digit, all_digits⟩ := digits
    split
    · next long =>
      refine iff_of_false nofun ?_
      rintro ⟨-, -, value_eq⟩
      have fits := Word.toNat_le_largest w
      omega
    · next fits =>
      have value_eq := Word.toNat_ofNat (Nat.not_lt.mp fits)
      rw [Option.some.injEq, ← UInt64.toNat_inj, value_eq]
      exact ⟨fun same => ⟨some_digit, all_digits, same⟩, fun numeral => numeral.2.2⟩

/-! ### Cutting the header -/

/-- A text is cut at the first occurrence of a byte. The byte itself belongs to neither
part. -/
theorem splitAt?_eq_some_iff {mark : UInt8} {text front back : Bytes} :
    splitAt? mark text = some (front, back) ↔ mark ∉ front ∧ text = front ++ mark :: back := by
  induction text generalizing front with
  | nil => simp [splitAt?]
  | cons b rest ih =>
      rw [splitAt?]
      -- The cut is here, or the byte belongs to the front and the cut is one of the rest.
      by_cases here : b = mark
      · subst here
        cases front with
        | nil => simp [eq_comm]
        | cons c front => simp +contextual [eq_comm]
      · cases front with
        | nil => simp [here]
        | cons c front =>
            simp only [if_neg here, Option.map_eq_some_iff, Prod.exists, Prod.mk.injEq,
              List.cons.injEq, List.mem_cons, not_or, List.cons_append]
            constructor
            · rintro ⟨front', back', cut, ⟨rfl, rfl⟩, rfl⟩
              obtain ⟨absent, rest_eq⟩ := ih.mp cut
              exact ⟨⟨Ne.symm here, absent⟩, rfl, rest_eq⟩
            · rintro ⟨⟨-, absent⟩, rfl, rest_eq⟩
              exact ⟨front, back, ih.mpr ⟨absent, rest_eq⟩, ⟨rfl, rfl⟩, rfl⟩

/-- The unit of the header and the space behind it. -/
def unit : Bytes := [98, 121, 116, 101, 115, 32]

/-- The unit is taken off exactly where it stands in front. -/
theorem afterUnit?_eq_some_iff {header rest : Bytes} :
    afterUnit? header = some rest ↔ header = unit ++ rest := by
  unfold afterUnit?
  split
  · simp [unit, eq_comm]
  · next other =>
    refine iff_of_false nofun ?_
    rintro rfl
    exact other rest rfl

/-- The header is `bytes first-last/size`, whatever the size. It is cut at the first slash, and
what stands before that at its first dash. -/
def PartHeader (header : Bytes) (first last : Nat) : Prop :=
  ∃ front back size, header = unit ++ (front ++ 45 :: back) ++ 47 :: size ∧
    47 ∉ front ++ 45 :: back ∧ 45 ∉ front ∧ Numeral front first ∧ Numeral back last

/-- Both positions are found exactly in headers of the form that both fit. -/
theorem parseRange?_eq_some_iff (header : Bytes) (first last : UInt64) :
    parseRange? header = some (first, last) ↔ PartHeader header first.toNat last.toNat := by
  simp only [parseRange?, Option.bind_eq_bind, Option.bind_eq_some_iff, Prod.exists,
    afterUnit?_eq_some_iff, splitAt?_eq_some_iff, parseWord?_eq_some_iff, Option.pure_def,
    Option.some.injEq, Prod.mk.injEq]
  -- The reader takes the unit off and cuts at the slash and then at the dash. The form says
  -- the same in one piece.
  constructor
  · rintro ⟨rest, rfl, range, size, ⟨slash, rfl⟩, front, back, ⟨dash, rfl⟩, _, numeral_first, _,
      numeral_last, rfl, rfl⟩
    exact ⟨front, back, size, by simp, slash, dash, numeral_first, numeral_last⟩
  · rintro ⟨front, back, size, rfl, slash, dash, numeral_first, numeral_last⟩
    exact ⟨_, List.append_assoc _ _ _, _, size, ⟨slash, rfl⟩, front, back, ⟨dash, rfl⟩, _,
      numeral_first, _, numeral_last, rfl, rfl⟩

/-- Positions that fit words stand in a header exactly if they are found there. -/
theorem partHeader_iff {header : Bytes} {first last : Nat} (first_fits : first ≤ Word.largest)
    (last_fits : last ≤ Word.largest) :
    PartHeader header first last ↔
      ∃ a b, parseRange? header = some (a, b) ∧ a.toNat = first ∧ b.toNat = last := by
  have first_eq := Word.toNat_ofNat first_fits
  have last_eq := Word.toNat_ofNat last_fits
  constructor
  · intro part
    rw [← first_eq, ← last_eq] at part
    exact ⟨_, _, (parseRange?_eq_some_iff _ _ _).mpr part, first_eq, last_eq⟩
  · rintro ⟨a, b, parsed, rfl, rfl⟩
    exact (parseRange?_eq_some_iff _ _ _).mp parsed

/-! ### Counting the bytes -/

/-- What is said of a header once its positions are known. The positions are compared before
they are counted, and counting is the step that may fail. -/
theorem namesPart?_of_parsed {header : Bytes} {first last : UInt64}
    (parsed : parseRange? header = some (first, last)) (start length : UInt64) :
    namesPart? header start length
      = if last.toNat < first.toNat ∨ first.toNat ≠ start.toNat then some false
        else if Word.largest < last.toNat - first.toNat + 1 then none
        else some (decide (last.toNat - first.toNat + 1 = length.toNat)) := by
  rw [namesPart?, parsed]
  simp only [UInt64.lt_iff_toNat_lt, ne_eq, ← UInt64.toNat_inj]
  split
  · rfl
  · next right =>
    -- The guard before the count makes the difference safe, but not the one that is added to
    -- it.
    have le : first.toNat ≤ last.toNat := Nat.not_lt.mp fun less => right (.inl less)
    obtain ⟨gap, gap_eq, toNat_gap⟩ := Word.exists_sub? le
    have one : (1 : UInt64).toNat = 1 := rfl
    rw [gap_eq, ← toNat_gap]
    show (Word.add? gap 1).bind (fun count => some (count == length)) = _
    by_cases long : Word.largest < gap.toNat + 1
    · rw [if_pos long, Word.add?, if_neg (by omega)]
      rfl
    · obtain ⟨count, count_eq, toNat_count⟩ := Word.exists_add? (a := gap) (b := 1) (by omega)
      rw [if_neg long, count_eq, ← one, ← toNat_count]
      show some (decide (count = length)) = _
      simp only [← UInt64.toNat_inj]

/-- The count does not fit exactly where all positions of words are named. From zero to the
largest word there is one position more than a word can tell. -/
theorem namesPart?_eq_none_iff (header : Bytes) (start length : UInt64) :
    namesPart? header start length = none ↔ start = 0 ∧ PartHeader header 0 Word.largest := by
  have start_zero : start = 0 ↔ start.toNat = 0 := by simp [← UInt64.toNat_inj]
  rw [partHeader_iff (Nat.zero_le _) (Nat.le_refl _), start_zero]
  cases parsed : parseRange? header with
  | none => simp [namesPart?, parsed]
  | some positions =>
      obtain ⟨first, last⟩ := positions
      have last_fits := Word.toNat_le_largest last
      rw [namesPart?_of_parsed parsed]
      constructor
      · intro unanswered
        split at unanswered
        · cases unanswered
        · split at unanswered
          · exact ⟨by omega, first, last, rfl, by omega, by omega⟩
          · cases unanswered
      · -- From the first position of words to the last there is one more than a word
        -- can count.
        rintro ⟨start_eq, _, _, ⟨⟩, first_eq, last_eq⟩
        rw [if_neg (by omega), if_pos (by omega)]

/-- The header names `length` bytes from `start` on: it has the right form, its positions fit
words, and the last one lies as many bytes further on. -/
def NamesPart (header : Bytes) (start length : Nat) : Prop :=
  ∃ first last, PartHeader header first last ∧ last ≤ Word.largest ∧
    first = start ∧ first ≤ last ∧ last - first + 1 = length

/-- The answer is yes exactly if the header names the part. In particular the part has to
begin where the read does and to be as long as it. -/
theorem namesPart?_eq_some_true_iff (header : Bytes) (start length : UInt64) :
    namesPart? header start length = some true ↔ NamesPart header start.toNat length.toNat := by
  have length_fits := Word.toNat_le_largest length
  constructor
  · intro named
    cases parsed : parseRange? header with
    | none => simp [namesPart?, parsed] at named
    | some positions =>
        obtain ⟨first, last⟩ := positions
        have part := (parseRange?_eq_some_iff _ _ _).mp parsed
        rw [namesPart?_of_parsed parsed] at named
        split at named
        · cases named
        · split at named
          · cases named
          · simp only [Option.some.injEq, decide_eq_true_eq] at named
            exact ⟨first.toNat, last.toNat, part, Word.toNat_le_largest last, by omega, by omega,
              named⟩
  · rintro ⟨first, last, part, last_fits, first_eq, le, count_eq⟩
    obtain ⟨a, b, parsed, rfl, rfl⟩ :=
      (partHeader_iff (Nat.le_trans le last_fits) last_fits).mp part
    rw [namesPart?_of_parsed parsed, if_neg (by omega), if_neg (by omega),
      decide_eq_true count_eq]

/-- Which part of a file a header names, with the bytes counted by checked arithmetic. The header
names `length` bytes from `start` on exactly if it has the right form, begins there and has its
last position as many bytes further on. Only where a header names all positions that a word can
have, and the first of them is asked for, does the count not fit a word, and there is no answer. -/
theorem part_named_or_overflows (header : Bytes) (start length : UInt64) :
    (namesPart? header start length = none ↔ start = 0 ∧ PartHeader header 0 Word.largest) ∧
      (namesPart? header start length = some true
        ↔ NamesPart header start.toNat length.toNat) :=
  ⟨namesPart?_eq_none_iff header start length, namesPart?_eq_some_true_iff header start length⟩

/-- A server that claims to send all positions from zero on makes the count overflow. -/
theorem largest_part_overflows :
    namesPart? "bytes 0-18446744073709551615/*".toUTF8.data.toList 0 4 = none := by
  decide +kernel

end TileArchive.Http
