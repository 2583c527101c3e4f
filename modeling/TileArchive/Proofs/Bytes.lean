import TileArchive.ByteRange

/-!
# `TileArchive.Proofs.Bytes`: words and stretches of bytes

The sum of two words that stops at the largest word, and the stretches that a slice cuts out.

Words are compared with natural numbers everywhere, and `Word.toNat_ofNat`, `Word.toNat_add` and
their relatives carry facts over wherever a result fits a word. `Word.total` is the sum of many
words as a natural number, which always exists; whether it fits a word is then a separate question.

A slice of a slice is a slice (`Bytes.slice_slice`), and a slice that lies inside has the length
that was asked for (`Bytes.length_slice`). One that does not is cut off at the end.
-/

set_option autoImplicit false

namespace TileArchive

namespace Word

/-- The stopping sum, as a natural number. -/
@[simp]
theorem toNat_addSat (a b : UInt64) :
    (addSat a b).toNat = min (a.toNat + b.toNat) largest := by
  have below : min (a.toNat + b.toNat) largest < 2 ^ 64 :=
    Nat.lt_of_le_of_lt (Nat.min_le_right _ _) (by decide)
  rw [addSat, UInt64.toNat_ofNat']
  exact Nat.mod_eq_of_lt below

/-- No word lies above the largest. -/
theorem toNat_le_largest (a : UInt64) : a.toNat ≤ largest :=
  Nat.le_of_lt_succ a.toNat_lt

/-- No half word is above the largest one. -/
theorem toNat_le_largest32 (a : UInt32) : a.toNat ≤ largest32 :=
  Nat.le_of_lt_succ a.toNat_lt

/-- A number that fits a word is the number of its word. -/
theorem toNat_ofNat {n : Nat} (fits : n ≤ largest) : (UInt64.ofNat n).toNat = n :=
  UInt64.toNat_ofNat_of_lt' (Nat.lt_succ_of_le fits)

/-- A number that fits a half word is not changed by becoming one. -/
theorem toNat_ofNat32 {n : Nat} (fits : n ≤ largest32) : (UInt32.ofNat n).toNat = n :=
  UInt32.toNat_ofNat_of_lt' (Nat.lt_succ_of_le fits)

/-- A word that fits half a word is kept when it is cut to one. -/
theorem toNat_toUInt32 {w : UInt64} (fits : w.toNat ≤ largest32) : w.toUInt32.toNat = w.toNat := by
  rw [UInt64.toNat_toUInt32]
  exact Nat.mod_eq_of_lt (Nat.lt_succ_of_le fits)

/-- The smaller of two words is the smaller of two numbers. -/
@[simp]
theorem toNat_min (a b : UInt64) : (min a b).toNat = min a.toNat b.toNat := by
  rw [show min a b = if a ≤ b then a else b from rfl, Nat.min_def]
  simp only [UInt64.le_iff_toNat_le]
  split <;> rfl

/-- The larger of two words is the larger of two numbers. -/
@[simp]
theorem toNat_max (a b : UInt64) : (max a b).toNat = max a.toNat b.toNat := by
  rw [show max a b = if a ≤ b then b else a from rfl, Nat.max_def]
  simp only [UInt64.le_iff_toNat_le]
  split <;> rfl

/-- The sum of words, which no word bounds. -/
def total : List UInt64 → Nat
  | [] => 0
  | w :: ws => w.toNat + total ws

/-- No words at all come to zero. -/
@[simp]
theorem total_nil : total [] = 0 := rfl

/-- A sum of words starts with the first one. -/
@[simp]
theorem total_cons (w : UInt64) (ws : List UInt64) :
    total (w :: ws) = w.toNat + total ws := rfl

/-- More words from the front never come to less. -/
theorem total_take_mono (ws : List UInt64) {i j : Nat} (le : i ≤ j) :
    total (ws.take i) ≤ total (ws.take j) := by
  induction ws generalizing i j with
  | nil => simp
  | cons w ws ih =>
      cases i with
      | zero => simp
      | succ i =>
          cases j with
          | zero => omega
          | succ j => simpa using ih (Nat.le_of_succ_le_succ le)

/-- A sum that fits a word is the sum of words. -/
theorem toNat_add {a b : UInt64} (fits : a.toNat + b.toNat ≤ largest) :
    (a + b).toNat = a.toNat + b.toNat := by
  rw [UInt64.toNat_add]
  exact Nat.mod_eq_of_lt (Nat.lt_succ_of_le fits)

end Word

namespace Bytes

/-- A slice of a slice is a slice. -/
theorem slice_slice {bytes : Bytes} {start length offset width : Nat}
    (inside : offset + width ≤ length) :
    slice (slice bytes start length) offset width = slice bytes (start + offset) width := by
  rw [slice, slice, slice, List.drop_take, List.take_take, List.drop_drop,
    Nat.min_eq_left (by omega)]

/-- A stretch that lies inside is as long as it is said to be. -/
theorem length_slice {bytes : Bytes} {start length : Nat} (inside : start + length ≤ bytes.length) :
    (slice bytes start length).length = length := by
  rw [slice, List.length_take, List.length_drop, Nat.min_eq_left (by omega)]

end Bytes

end TileArchive
