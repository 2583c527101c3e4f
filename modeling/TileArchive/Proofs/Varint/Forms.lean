import Mathlib.Algebra.BigOperators.Ring.Finset
import Mathlib.Data.Nat.Digits.Defs
import Mathlib.Data.Nat.Find
import TileArchive.Directory.Codec
import TileArchive.Proofs.Bytes
import TileArchive.Proofs.Varint.Shortest

/-!
# `TileArchive.Proofs.Varint.Forms`: the forms that a number is read from

A number may stand in a longer form than the shortest, so there is more to say of a reader than
that it reads what was written. Here the forms are described without a reader.

* `EndsAt` says where the number at the front of some bytes ends: at the first byte without the
  top bit, which has to be among the first ten. A tenth byte may only carry what nine groups leave
  over of a word. Otherwise the bytes are `Endless` or `Overlong` (`endsAt_or`).
* `worth` adds up the groups of seven bits. `eq_of_worth_eq`: the top bits and the worth determine
  the bytes. So a number has one form of each length, and a form as long as the written one is
  the written one (`EndsAt.encode_eq`).
* `decodeFrom_highs`: bytes with the top bit are passed over, and what they are worth is kept. So
  the first byte without it decides what is read (`decode_eq_ok_iff`, `decode_eq_error_iff`).
* `decodeNumberAt_outcome` says all this of a number at any position of some data.
-/

set_option autoImplicit false

namespace TileArchive.Varint

/-- Whether a byte has the top bit, so that another one follows it. -/
def goesOn (b : UInt8) : Bool := 128 ≤ b.toNat

/-- What the groups of seven bits in some bytes are worth, the lowest first. The sum is a
natural number and may be more than a word holds. -/
def worth (bytes : Bytes) : Nat := Nat.ofDigits 128 (bytes.map fun b => b.toNat % 128)

/-- The number at the front of some bytes ends at position `j`, counted from 0. A tenth byte
may only bring in the last bit of a word. -/
structure EndsAt (bytes : Bytes) (j : Nat) : Prop where
  before : ∀ b ∈ bytes.take j, 128 ≤ b.toNat
  last : ∃ b, bytes[j]? = some b ∧ b.toNat < 128 ∧ (j = 9 → b.toNat ≤ 1)
  early : j ≤ 9

/-- The bytes run out before a number ends: there are fewer than ten, all with the top bit. -/
structure Endless (bytes : Bytes) : Prop where
  short : bytes.length < 10
  all : ∀ b ∈ bytes, 128 ≤ b.toNat

/-- Nine bytes with the top bit are followed by a tenth that a number cannot end with: it
has the top bit as well, or brings in more than the last bit of a word. -/
structure Overlong (bytes : Bytes) : Prop where
  long : 10 ≤ bytes.length
  nine : ∀ b ∈ bytes.take 9, 128 ≤ b.toNat
  tenth : ∀ b, bytes[9]? = some b → 1 < b.toNat

/-! ### Worth -/

/-- No bytes are worth nothing. -/
@[simp]
theorem worth_nil : worth [] = 0 := rfl

/-- The first byte is worth its seven lower bits, and the bytes behind it count 128 times as
much. -/
@[simp]
theorem worth_cons (b : UInt8) (bytes : Bytes) :
    worth (b :: bytes) = b.toNat % 128 + 128 * worth bytes := rfl

/-- The bytes behind others are worth as much more as there are groups in front of them. -/
theorem worth_append (bytes rest : Bytes) :
    worth (bytes ++ rest) = worth bytes + Nat.pow 128 bytes.length * worth rest := by
  rw [worth, List.map_append, Nat.ofDigits_append, List.length_map]
  rfl

/-- Some groups are worth less than one more group would count. -/
theorem worth_lt (bytes : Bytes) : worth bytes < Nat.pow 128 bytes.length := by
  have small : ∀ group ∈ bytes.map fun b => b.toNat % 128, group < 128 := by
    intro group member
    obtain ⟨b, -, rfl⟩ := List.mem_map.mp member
    exact Nat.mod_lt _ (by decide)
  have lt := Nat.ofDigits_lt_base_pow_length (by decide) small
  rwa [List.length_map] at lt

/-- The worth of bytes, as the sum over their positions. Bytes beyond the end count as
nothing. -/
theorem worth_take (bytes : Bytes) (n : Nat) :
    worth (bytes.take n)
      = ∑ i ∈ Finset.range n, (bytes.getD i 0).toNat % 128 * Nat.pow 128 i := by
  induction n generalizing bytes with
  | zero => rfl
  | succ n ih =>
      rw [Finset.sum_range_succ']
      cases bytes with
      | nil => simp
      | cons b bytes =>
          -- The groups behind the first one count 128 times as much as they would by themselves.
          have shifted : ∀ i, ((b :: bytes).getD (i + 1) 0).toNat % 128 * Nat.pow 128 (i + 1)
              = 128 * ((bytes.getD i 0).toNat % 128 * Nat.pow 128 i) := by
            intro i
            have power : Nat.pow 128 (i + 1) = 128 * Nat.pow 128 i := Nat.mul_comm _ _
            rw [power, List.getD_cons_succ, Nat.mul_left_comm]
          have first : ((b :: bytes).getD 0 0).toNat % 128 * Nat.pow 128 0 = b.toNat % 128 :=
            Nat.mul_one _
          rw [List.take_succ_cons, worth_cons, ih, Finset.sum_congr rfl fun i _ => shifted i,
            ← Finset.mul_sum, first, Nat.add_comm]

/-- Bytes with the same top bits that are worth the same are the same. Each byte is its top
bit and one digit of the worth. -/
theorem eq_of_worth_eq {bytes bytes' : Bytes}
    (tops_eq : bytes.map goesOn = bytes'.map goesOn) (worth_eq : worth bytes = worth bytes') :
    bytes = bytes' := by
  induction bytes generalizing bytes' with
  | nil => exact (List.map_eq_nil_iff.mp tops_eq.symm).symm
  | cons b bytes ih =>
      cases bytes' with
      | nil => cases tops_eq
      | cons b' bytes' =>
          rw [worth_cons, worth_cons] at worth_eq
          obtain ⟨top_eq, tops_eq⟩ := List.cons.inj tops_eq
          -- The lowest group is the rest after division by 128, on both sides.
          obtain rfl : bytes = bytes' := ih tops_eq (by omega)
          have top_iff : 128 ≤ b.toNat ↔ 128 ≤ b'.toNat := decide_eq_decide.mp top_eq
          have := b.toNat_lt
          have := b'.toNat_lt
          have byte_eq : b = b' := UInt8.toNat_inj.mp (by omega)
          rw [byte_eq]

/-! ### Where numbers end -/

variable {bytes : Bytes} {j : Nat}

/-- The last byte of a number is one of the bytes. -/
theorem EndsAt.lt_length (ends : EndsAt bytes j) : j < bytes.length := by
  obtain ⟨b, at_j, -⟩ := ends.last
  exact (List.getElem?_eq_some_iff.mp at_j).1

/-- The bytes before the last one, the last one, and what follows the number. -/
theorem EndsAt.split (ends : EndsAt bytes j) :
    ∃ b, bytes = bytes.take j ++ b :: bytes.drop (j + 1) ∧
      bytes.take (j + 1) = bytes.take j ++ [b] ∧ b.toNat < 128 ∧ (j = 9 → b.toNat ≤ 1) := by
  obtain ⟨b, at_j, low, tenth⟩ := ends.last
  obtain ⟨inside, rfl⟩ := List.getElem?_eq_some_iff.mp at_j
  refine ⟨bytes[j], ?_, (List.take_append_getElem inside).symm, low, tenth⟩
  rw [← List.drop_eq_getElem_cons inside, List.take_append_drop]

/-- As many bytes come before the last one as its place says. -/
theorem EndsAt.length_take (ends : EndsAt bytes j) : (bytes.take j).length = j :=
  List.length_take_of_le (Nat.le_of_lt ends.lt_length)

/-- All bytes of a number but the last have the top bit. -/
theorem EndsAt.tops (ends : EndsAt bytes j) :
    (bytes.take (j + 1)).map goesOn = List.replicate j true ++ [false] := by
  obtain ⟨b, -, take_eq, low, -⟩ := ends.split
  have highs : (bytes.take j).map goesOn = List.replicate j true := by
    rw [List.eq_replicate_iff, List.length_map]
    refine ⟨ends.length_take, ?_⟩
    intro top member
    obtain ⟨b', among, rfl⟩ := List.mem_map.mp member
    exact decide_eq_true (ends.before b' among)
  have final : goesOn b = false := decide_eq_false (Nat.not_le.mpr low)
  rw [take_eq, List.map_append, highs, List.map_singleton, final]

/-- The last group of a number counts as much as all places before it can hold. -/
theorem EndsAt.worth_eq (ends : EndsAt bytes j) :
    ∃ b, bytes = bytes.take j ++ b :: bytes.drop (j + 1) ∧
      worth (bytes.take (j + 1)) = worth (bytes.take j) + b.toNat * Nat.pow 128 j ∧
      b.toNat < 128 ∧ (j = 9 → b.toNat ≤ 1) := by
  obtain ⟨b, split, take_eq, low, tenth⟩ := ends.split
  refine ⟨b, split, ?_, low, tenth⟩
  rw [take_eq, worth_append, ends.length_take, worth_cons, worth_nil, Nat.mod_eq_of_lt low,
    Nat.mul_zero, Nat.add_zero, Nat.mul_comm]

/-- What ends in time fits a word. Nine groups have 63 bits, and a tenth byte brings in one
more. -/
theorem EndsAt.worth_le (ends : EndsAt bytes j) : worth (bytes.take (j + 1)) ≤ Word.largest := by
  obtain ⟨b, -, worth_eq, low, tenth⟩ := ends.worth_eq
  have before_lt := worth_lt (bytes.take j)
  rw [ends.length_take] at before_lt
  by_cases ninth : j = 9
  · -- Nine groups, and one bit above them.
    subst ninth
    have weight : Nat.pow 128 9 = 9223372036854775808 := rfl
    have bit := tenth rfl
    rw [worth_eq, Word.largest]
    rw [weight] at before_lt ⊢
    omega
  · -- At most nine groups.
    have early := ends.early
    have group_le : b.toNat * Nat.pow 128 j ≤ 127 * Nat.pow 128 j :=
      Nat.mul_le_mul_right _ (by omega)
    have power_le : Nat.pow 128 (j + 1) ≤ Nat.pow 128 9 :=
      Nat.pow_le_pow_right (by decide) (by omega)
    have power : Nat.pow 128 (j + 1) = Nat.pow 128 j * 128 := rfl
    have weight : Nat.pow 128 9 ≤ Word.largest := by decide
    omega

/-- Among bytes that do not all have the top bit, there is a first one without it. -/
theorem exists_first_low (low : ∃ b ∈ bytes, b.toNat < 128) :
    ∃ j b, bytes[j]? = some b ∧ b.toNat < 128 ∧ ∀ b ∈ bytes.take j, 128 ≤ b.toNat := by
  induction bytes with
  | nil => simp at low
  | cons b bytes ih =>
      by_cases first : b.toNat < 128
      · exact ⟨0, b, rfl, first, nofun⟩
      · have later : ∃ b ∈ bytes, b.toNat < 128 := by simpa [first] using low
        obtain ⟨j, b', at_j, low', before⟩ := ih later
        refine ⟨j + 1, b', at_j, low', ?_⟩
        rw [List.take_succ_cons, List.forall_mem_cons]
        exact ⟨Nat.not_lt.mp first, before⟩

/-- A number ends in some bytes, or they run out before it does, or it goes on for too long.
This is decided by the first byte without the top bit, if there is one among the first ten. -/
theorem endsAt_or (bytes : Bytes) :
    (∃ j, EndsAt bytes j) ∨ Endless bytes ∨ Overlong bytes := by
  by_cases nine : ∀ b ∈ bytes.take 9, 128 ≤ b.toNat
  · match at_nine : bytes[9]? with
    | none =>
      have short : bytes.length ≤ 9 := List.getElem?_eq_none_iff.mp at_nine
      rw [List.take_of_length_le short] at nine
      exact .inr (.inl ⟨Nat.lt_succ_of_le short, nine⟩)
    | some b =>
      by_cases bit : b.toNat ≤ 1
      · exact .inl ⟨9, nine, ⟨b, at_nine, by omega, fun _ => bit⟩, Nat.le_refl 9⟩
      · refine .inr (.inr ⟨(List.getElem?_eq_some_iff.mp at_nine).1, nine, ?_⟩)
        intro b' at_nine'
        cases at_nine.symm.trans at_nine'
        exact Nat.not_le.mp bit
  · -- The number ends at the first byte without the top bit, which is among the first nine.
    have low : ∃ b ∈ bytes.take 9, b.toNat < 128 := by simpa using nine
    obtain ⟨j, b, at_j, low, before⟩ := exists_first_low low
    rw [List.getElem?_take, Option.ite_none_right_eq_some] at at_j
    obtain ⟨early, at_j⟩ := at_j
    rw [List.take_take, Nat.min_eq_left (Nat.le_of_lt early)] at before
    exact .inl ⟨j, before, ⟨b, at_j, low, by omega⟩, Nat.le_of_lt early⟩

/-! ### Reading -/

/-- A byte with the top bit is passed over, unless it is the tenth. -/
theorem decodeFrom_high {b : UInt8} (high : 128 ≤ b.toNat) {index value : Nat}
    (early : index < 9) (rest : Bytes) :
    decodeFrom index value (b :: rest)
      = decodeFrom (index + 1) (value + b.toNat % 128 * Nat.pow 128 index) rest := by
  have last_eq : maxLength = 9 + 1 := rfl
  rw [decodeFrom, if_neg (by omega), if_neg (by omega), if_neg (by omega)]

/-- Bytes with the top bit are passed over, and what they are worth is kept. The induction
is on these bytes, and the reader never looks at what follows them. -/
theorem decodeFrom_highs {highs : Bytes} (all : ∀ b ∈ highs, 128 ≤ b.toNat) {index value : Nat}
    (early : index + highs.length ≤ 9) (rest : Bytes) :
    decodeFrom index value (highs ++ rest)
      = decodeFrom (index + highs.length) (value + Nat.pow 128 index * worth highs) rest := by
  induction highs generalizing index value with
  | nil => rfl
  | cons b highs ih =>
      rw [List.forall_mem_cons] at all
      rw [List.length_cons] at early ⊢
      have power : Nat.pow 128 (index + 1) = Nat.pow 128 index * 128 := rfl
      -- What one more byte adds is the first term of the sum, and the others move up by one
      -- place.
      have sum_eq : value + b.toNat % 128 * Nat.pow 128 index
            + Nat.pow 128 (index + 1) * worth highs
          = value + Nat.pow 128 index * worth (b :: highs) := by
        rw [power, worth_cons, Nat.mul_add, Nat.mul_comm (b.toNat % 128), Nat.mul_assoc,
          Nat.add_assoc]
      rw [List.cons_append, decodeFrom_high all.1 (by omega), ih all.2 (by omega), sum_eq,
        Nat.add_assoc, Nat.add_comm 1]

/-- From the front, up to nine bytes with the top bit are passed over. -/
theorem decode_highs {highs : Bytes} (all : ∀ b ∈ highs, 128 ≤ b.toNat)
    (early : highs.length ≤ 9) (rest : Bytes) :
    decode (highs ++ rest) = decodeFrom highs.length (worth highs) rest := by
  have unit : Nat.pow 128 0 = 1 := rfl
  rw [decode, decodeFrom_highs all (by omega), Nat.zero_add, Nat.zero_add, unit, Nat.one_mul]

/-- A number that ends is read as what its bytes are worth, and the bytes behind its last
are left. -/
theorem decode_of_endsAt (ends : EndsAt bytes j) :
    decode bytes = .ok (UInt64.ofNat (worth (bytes.take (j + 1))), bytes.drop (j + 1)) := by
  obtain ⟨b, split, worth_eq, low, tenth⟩ := ends.worth_eq
  -- Only a tenth byte is held to a bound, and one that ends the number in time keeps it.
  have not_over : ¬(j + 1 = maxLength ∧ 1 < b.toNat % 128) := by
    rintro ⟨last, large⟩
    have := tenth (Nat.succ.inj last)
    omega
  have early : (bytes.take j).length ≤ 9 := by
    rw [ends.length_take]
    exact ends.early
  have read := decode_highs ends.before early (b :: bytes.drop (j + 1))
  rw [← split, ends.length_take] at read
  rw [read, decodeFrom, if_neg not_over, if_pos low, Nat.mod_eq_of_lt low, worth_eq]

/-- Bytes that end before the number does are reported as truncated. -/
theorem decode_of_endless (endless : Endless bytes) : decode bytes = .error .truncated := by
  have read := decode_highs endless.all (Nat.le_of_lt_succ endless.short) []
  rwa [List.append_nil] at read

/-- Bytes that do not end within ten, or carry more than a word, are reported as an
overflow. -/
theorem decode_of_overlong (overlong : Overlong bytes) : decode bytes = .error .overflow := by
  have inside : 9 < bytes.length := overlong.long
  have large : 1 < bytes[9].toNat := overlong.tenth _ (List.getElem?_eq_getElem inside)
  have nine : (bytes.take 9).length = 9 := List.length_take_of_le (Nat.le_of_lt inside)
  have last_eq : maxLength = 9 + 1 := rfl
  have read := decode_highs overlong.nine (Nat.le_of_eq nine) (bytes.drop 9)
  rw [List.take_append_drop, nine, List.drop_eq_getElem_cons inside] at read
  rw [read, decodeFrom]
  -- Either the tenth byte has a group that is too large, or another byte would have to follow.
  by_cases group : 1 < bytes[9].toNat % 128
  · rw [if_pos ⟨last_eq.symm, group⟩]
  · rw [if_neg fun both => group both.2, if_neg (by omega), if_pos (Nat.le_of_eq last_eq)]

/-- A number is read just where it ends in time, with what its groups are worth. -/
theorem decode_eq_ok_iff {v : UInt64} {rest : Bytes} :
    decode bytes = .ok (v, rest) ↔
      ∃ j, EndsAt bytes j ∧ v.toNat = worth (bytes.take (j + 1)) ∧ rest = bytes.drop (j + 1) := by
  constructor
  · intro read
    rcases endsAt_or bytes with ⟨j, ends⟩ | endless | overlong
    · cases read.symm.trans (decode_of_endsAt ends)
      exact ⟨j, ends, Word.toNat_ofNat ends.worth_le, rfl⟩
    · cases read.symm.trans (decode_of_endless endless)
    · cases read.symm.trans (decode_of_overlong overlong)
  · rintro ⟨j, ends, worth_eq, rfl⟩
    rw [decode_of_endsAt ends, ← worth_eq, UInt64.ofNat_toNat]

/-- The two flaws are told for exactly the two ways in which no number ends. So an error
says what is wrong with the bytes. -/
theorem decode_eq_error_iff {flaw : Flaw} :
    decode bytes = .error flaw ↔
      (flaw = .overflow ∧ Overlong bytes) ∨ (flaw = .truncated ∧ Endless bytes) := by
  constructor
  · intro read
    -- Bytes hold a number, or run out, or go on for too long. Each excludes the other two,
    -- since the reader has one result.
    rcases endsAt_or bytes with ⟨j, ends⟩ | endless | overlong
    · cases read.symm.trans (decode_of_endsAt ends)
    · cases read.symm.trans (decode_of_endless endless)
      exact .inr ⟨rfl, endless⟩
    · cases read.symm.trans (decode_of_overlong overlong)
      exact .inl ⟨rfl, overlong⟩
  · rintro (⟨rfl, overlong⟩ | ⟨rfl, endless⟩)
    · exact decode_of_overlong overlong
    · exact decode_of_endless endless

/-! ### The written form among the others -/

/-- The written form of a number ends at its last byte. -/
theorem endsAt_encode (v : UInt64) :
    ∃ j, EndsAt (encode v) j ∧ (encode v).length = j + 1 ∧ worth (encode v) = v.toNat := by
  have read := decode_encode v []
  rw [List.append_nil] at read
  obtain ⟨j, ends, worth_eq, drop_eq⟩ := decode_eq_ok_iff.mp read
  have length_le : (encode v).length ≤ j + 1 := List.drop_eq_nil_iff.mp drop_eq.symm
  have inside := ends.lt_length
  rw [List.take_of_length_le length_le] at worth_eq
  exact ⟨j, ends, by omega, worth_eq.symm⟩

section

variable {v : UInt64} (ends : EndsAt bytes j) (worth_eq : v.toNat = worth (bytes.take (j + 1)))

include ends worth_eq

/-- No form is shorter than the written one. -/
theorem EndsAt.length_encode_le : (encode v).length ≤ j + 1 := by
  have le := Varint.length_encode_le (decode_eq_ok_iff.mpr ⟨j, ends, worth_eq, rfl⟩)
  have inside := ends.lt_length
  rw [List.length_drop] at le
  omega

/-- A form as long as the written one is the written one. -/
theorem EndsAt.encode_eq (length_eq : (encode v).length = j + 1) :
    encode v = bytes.take (j + 1) := by
  obtain ⟨j', ends', length_eq', worth_eq'⟩ := endsAt_encode v
  obtain rfl : j' = j := Nat.succ.inj (length_eq'.symm.trans length_eq)
  have tops := ends'.tops
  rw [List.take_of_length_le (Nat.le_of_eq length_eq)] at tops
  exact eq_of_worth_eq (tops.trans ends.tops.symm) (worth_eq'.trans worth_eq)

end

end TileArchive.Varint

namespace TileArchive.Directory

variable {data : Bytes} {offset : Nat}

/-- A number is read at a position just where it ends in time behind that position. What
stands before the position does not matter. -/
theorem decodeNumberAt_eq_ok_iff {v : UInt64} {next : Nat} :
    decodeNumberAt data offset = .ok (v, next) ↔
      ∃ j, Varint.EndsAt (data.drop offset) j ∧
        v.toNat = Varint.worth ((data.drop offset).take (j + 1)) ∧ next = offset + (j + 1) := by
  -- What is left behind the number says where it ends.
  have next_eq : ∀ j, Varint.EndsAt (data.drop offset) j →
      data.length - ((data.drop offset).drop (j + 1)).length = offset + (j + 1) := by
    intro j ends
    have inside := ends.lt_length
    simp only [List.length_drop] at inside ⊢
    omega
  unfold decodeNumberAt
  constructor
  · intro read
    split at read
    · next decoded =>
      cases read
      obtain ⟨j, ends, worth_eq, rfl⟩ := Varint.decode_eq_ok_iff.mp decoded
      exact ⟨j, ends, worth_eq, next_eq j ends⟩
    · cases read
  · rintro ⟨j, ends, worth_eq, rfl⟩
    rw [Varint.decode_eq_ok_iff.mpr ⟨j, ends, worth_eq, rfl⟩]
    exact congrArg (fun next => Except.ok (v, next)) (next_eq j ends)

/-- At any position of some data the two flaws are told with this position, however far the
reader went before it found them. -/
theorem decodeNumberAt_eq_error_iff {error : DirectoryError} :
    decodeNumberAt data offset = .error error ↔
      (error = .varint .overflow offset ∧ Varint.Overlong (data.drop offset)) ∨
        (error = .varint .truncated offset ∧ Varint.Endless (data.drop offset)) := by
  unfold decodeNumberAt
  constructor
  · intro read
    split at read
    · cases read
    · next decoded =>
      cases read
      rcases Varint.decode_eq_error_iff.mp decoded with ⟨rfl, overlong⟩ | ⟨rfl, endless⟩
      · exact .inl ⟨rfl, overlong⟩
      · exact .inr ⟨rfl, endless⟩
  · rintro (⟨rfl, overlong⟩ | ⟨rfl, endless⟩)
    · rw [Varint.decode_of_overlong overlong]
    · rw [Varint.decode_of_endless endless]

/-- The numbers of a directory are read at the positions where they stand. Both readers find
the same, one with what is left of the data and one with a position. -/
theorem decodeNumber_eq_decodeNumberAt (inside : offset ≤ data.length) :
    decodeNumber data.length (data.drop offset)
      = (decodeNumberAt data offset).map fun found => (found.1, data.drop found.2) := by
  unfold decodeNumber
  split
  · next found decoded =>
    obtain ⟨j, ends, worth_eq, rest_eq⟩ := Varint.decode_eq_ok_iff.mp decoded
    rw [decodeNumberAt_eq_ok_iff.mpr ⟨j, ends, worth_eq, rfl⟩]
    exact congrArg Except.ok (Prod.ext rfl (rest_eq.trans List.drop_drop))
  · next flaw decoded =>
    -- The reader of columns knows the position from what is left of the data.
    have offset_eq : data.length - (data.drop offset).length = offset := by
      rw [List.length_drop]
      omega
    rw [decodeNumberAt, decoded, offset_eq]
    rfl

/-- A written number is read back at its position, whatever stands around it.

At any position of any data a number is read just where it ends in time, as the sum of its groups.
Its written form is no longer than the form that was read, and the same if it is as long. Otherwise
it overflows where at least ten bytes are left, nine of them with the top bit, and is cut off where
the data ends first. Both errors name the position where the number starts. -/
theorem decodeNumberAt_outcome :
    (∀ (v : UInt64) (before rest : Bytes),
      decodeNumberAt (before ++ Varint.encode v ++ rest) before.length
        = .ok (v, (before ++ Varint.encode v).length)) ∧
    ∀ (data : Bytes) (offset : Nat),
      (∀ v next, decodeNumberAt data offset = .ok (v, next) ↔
        ∃ j, Varint.EndsAt (data.drop offset) j ∧ next = offset + (j + 1) ∧
          v.toNat = ∑ i ∈ Finset.range (j + 1),
            ((data.drop offset).getD i 0).toNat % 128 * Nat.pow 128 i) ∧
      (∀ j, Varint.EndsAt (data.drop offset) j →
        ∃ v, decodeNumberAt data offset = .ok (v, offset + (j + 1)) ∧
          (Varint.encode v).length ≤ j + 1 ∧
          ((Varint.encode v).length = j + 1 → Varint.encode v = (data.drop offset).take (j + 1))) ∧
      ∀ error, decodeNumberAt data offset = .error error ↔
        (error = .varint .overflow offset ∧ Varint.Overlong (data.drop offset)) ∨
          (error = .varint .truncated offset ∧ Varint.Endless (data.drop offset)) := by
  refine ⟨?_, ?_⟩
  · intro v before rest
    -- The position behind the number is found from what is left of the data.
    have next_eq : (before ++ Varint.encode v ++ rest).length - rest.length
        = (before ++ Varint.encode v).length := by
      rw [List.length_append, Nat.add_sub_cancel]
    rw [decodeNumberAt, List.append_assoc, List.drop_left, Varint.decode_encode,
      ← List.append_assoc]
    exact congrArg (fun next => Except.ok (v, next)) next_eq
  · intro data offset
    refine ⟨?_, ?_, fun error => decodeNumberAt_eq_error_iff⟩
    · intro v next
      simp only [decodeNumberAt_eq_ok_iff, Varint.worth_take, And.comm]
    · intro j ends
      have worth_eq := Word.toNat_ofNat ends.worth_le
      exact ⟨_, decodeNumberAt_eq_ok_iff.mpr ⟨j, ends, worth_eq, rfl⟩,
        ends.length_encode_le worth_eq, ends.encode_eq worth_eq⟩

/-- Between other bytes the number 5 stands in a form of three bytes, two more than are written. -/
theorem decodeNumberAt_outcome_long_form :
    Varint.EndsAt (List.drop 1 [7, 133, 128, 0, 9]) 2 ∧
      ∃ v, decodeNumberAt [7, 133, 128, 0, 9] 1 = .ok (v, 4) ∧ (Varint.encode v).length ≤ 3 := by
  have ends : Varint.EndsAt (List.drop 1 [7, 133, 128, 0, 9]) 2 :=
    ⟨by decide +kernel, ⟨0, rfl, by decide, by decide⟩, by decide⟩
  obtain ⟨v, read, short, -⟩ := (decodeNumberAt_outcome.2 [7, 133, 128, 0, 9] 1).2.1 2 ends
  exact ⟨ends, v, read, short⟩

end TileArchive.Directory
