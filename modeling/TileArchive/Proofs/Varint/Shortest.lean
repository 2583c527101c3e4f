import TileArchive.Proofs.Varint.Reads

/-!
# `TileArchive.Proofs.Varint.Shortest`: no form of a number is shorter than the written one

A number is read from groups of seven bits, one in each byte, so `k` bytes are worth less than
`128 ^ k` (`lt_of_decodeFrom`). The written form of a number below `128 ^ k` has at most `k` bytes
(`length_encodeNat_le`). So numbers that are written anew take no more bytes than they were read
from: `length_encode_le` for one number, and `Reads.length_written_le` for several.

`written` is the shortest form of several numbers, each in its own. The bytes in front of what is
left decide the numbers (`Reads.unique`), given how many there are; without that a byte string
could be read as its first number only.
-/

set_option autoImplicit false

namespace TileArchive.Varint

/-- The written forms of some numbers, one after another. -/
def written (values : List UInt64) : Bytes := values.flatMap encode

/-- The first number is written in front of the others. -/
theorem written_cons (value : UInt64) (values : List UInt64) :
    written (value :: values) = encode value ++ written values := List.flatMap_cons

/-- Numbers are written one after another. -/
theorem written_append (values values' : List UInt64) :
    written (values ++ values') = written values ++ written values' := List.flatMap_append

/-- The written form of a number has no more bytes than groups of seven bits can hold it.
Every reading of the number took at least that many, so this makes the written form the
shortest. -/
theorem length_encodeNat_le {n k : Nat} (k_pos : 0 < k) (fits : n < Nat.pow 128 k) :
    (encodeNat n).length ≤ k := by
  induction n using Nat.strongRecOn generalizing k with
  | ind n ih =>
    rw [encodeNat]
    split
    · exact k_pos
    · next more =>
      cases k with
      | zero => cases k_pos
      | succ k =>
          have power : Nat.pow 128 (k + 1) = Nat.pow 128 k * 128 := rfl
          have unit : Nat.pow 128 0 = 1 := rfl
          -- A second group is needed, so there is room for one.
          have k_pos' : 0 < k := by
            refine Nat.pos_of_ne_zero ?_
            rintro rfl
            omega
          exact Nat.succ_le_succ (ih (n / 128) (by omega) k_pos' (by omega))

/-- Bytes read on after `index` others are worth no more than their groups can hold. It says
from below how many bytes a reading must have. -/
theorem lt_of_decodeFrom {index value : Nat} {bytes rest : Bytes} {v : UInt64}
    (read : decodeFrom index value bytes = .ok (v, rest)) (before : value < Nat.pow 128 index) :
    ∃ k, bytes.length = rest.length + (k + 1) ∧ v.toNat < Nat.pow 128 (index + (k + 1)) := by
  induction bytes generalizing index value with
  | nil => cases read
  | cons b bytes ih =>
      have power : Nat.pow 128 (index + 1) = Nat.pow 128 index * 128 := rfl
      -- The new group is placed above all groups before it.
      have group_le : b.toNat % 128 * Nat.pow 128 index ≤ 127 * Nat.pow 128 index :=
        Nat.mul_le_mul_right _ (by omega)
      rw [decodeFrom] at read
      split at read
      · cases read
      split at read
      · cases read
        have cut : (UInt64.ofNat (value + b.toNat % 128 * Nat.pow 128 index)).toNat
            ≤ value + b.toNat % 128 * Nat.pow 128 index := by
          rw [UInt64.toNat_ofNat']
          exact Nat.mod_le _ _
        refine ⟨0, rfl, ?_⟩
        rw [Nat.zero_add]
        omega
      split at read
      · cases read
      obtain ⟨k, length_eq, lt⟩ := ih read (by omega)
      refine ⟨k + 1, by rw [List.length_cons]; omega, ?_⟩
      rwa [show index + (k + 1 + 1) = index + 1 + (k + 1) by omega]

/-- A number that was read is written with no more bytes than it was read from. -/
theorem length_encode_le {bytes rest : Bytes} {v : UInt64}
    (read : decode bytes = .ok (v, rest)) : (encode v).length + rest.length ≤ bytes.length := by
  obtain ⟨k, length_eq, lt⟩ := lt_of_decodeFrom read Nat.one_pos
  rw [Nat.zero_add] at lt
  have := length_encodeNat_le (Nat.succ_pos k) lt
  rw [encode]
  omega

/-- The same for several numbers. -/
theorem Reads.length_written_le {values : List UInt64} {bytes rest : Bytes}
    (reads : Reads values bytes rest) :
    (written values).length + rest.length ≤ bytes.length := by
  induction reads with
  | nil bytes => exact Nat.le_of_eq (Nat.zero_add _)
  | cons read _ ih =>
      have := length_encode_le read
      rw [written_cons, List.length_append]
      omega

/-- A byte string has only one list of numbers of a given length at its front. The reader
has one result at each position. -/
theorem Reads.unique {values values' : List UInt64} {bytes rest rest' : Bytes}
    (reads : Reads values bytes rest) (reads' : Reads values' bytes rest')
    (length_eq : values.length = values'.length) : values = values' ∧ rest = rest' := by
  induction reads generalizing values' with
  | nil bytes =>
      cases reads' with
      | nil => exact ⟨rfl, rfl⟩
      | cons => cases length_eq
  | cons read _ ih =>
      cases reads' with
      | nil => cases length_eq
      | cons read' reads' =>
          cases read.symm.trans read'
          obtain ⟨rfl, rfl⟩ := ih reads' (Nat.succ.inj length_eq)
          exact ⟨rfl, rfl⟩

end TileArchive.Varint
