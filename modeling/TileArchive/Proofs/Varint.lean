import TileArchive.Varint

/-!
# `TileArchive.Proofs.Varint`: a number that was written is read back

`decode_encode` reads a written word back and leaves what follows it. The induction of
`decodeFrom_encodeNat` is on the groups still to be written; what bounds their number is that
all of them together fit a word.

The reader looks out for two flaws, a tenth byte that is too large and an eleventh byte. Neither
occurs in the written form of a word: nine groups of seven bits leave one bit of a word, so the
tenth group is at most one and is the last.
-/

set_option autoImplicit false

namespace TileArchive.Varint

/-- A number below 256 is not changed by becoming a byte. -/
theorem toNat_ofNat_byte {n : Nat} (small : n < 256) : (UInt8.ofNat n).toNat = n :=
  UInt8.toNat_ofNat_of_lt' small

/-- A written number that fits a word from some group on is read from that group on. The
induction is on the number, group by group, with what was read before in `value`. -/
theorem decodeFrom_encodeNat {index value n : Nat} (index_lt : index < maxLength)
    (fits : n * Nat.pow 128 index ≤ Word.largest) (rest : Bytes) :
    decodeFrom index value (encodeNat n ++ rest)
      = .ok (UInt64.ofNat (value + n * Nat.pow 128 index), rest) := by
  induction n using Nat.strongRecOn generalizing index value with
  | ind n ih =>
    rw [encodeNat]
    split
    · -- The last group. In the tenth byte it is at most 1, since the number fits a word.
      next last =>
      have group_eq : n % 128 = n := Nat.mod_eq_of_lt last
      have not_over : ¬(index + 1 = maxLength ∧ 1 < n) := by
        intro ⟨tenth, large⟩
        have ninth : index = 9 := Nat.succ.inj tenth
        subst ninth
        have weight : Nat.pow 128 9 = 9223372036854775808 := rfl
        rw [weight, Word.largest] at fits
        omega
      simp only [List.cons_append, List.nil_append, decodeFrom,
        toNat_ofNat_byte (show n < 256 by omega), group_eq, if_neg not_over, if_pos last]
    · next more =>
      have group_eq : (n % 128 + 128) % 128 = n % 128 := by omega
      have byte_eq : (UInt8.ofNat (n % 128 + 128)).toNat = n % 128 + 128 :=
        toNat_ofNat_byte (by omega)
      -- The rest of the number still fits, one group further on.
      have power : Nat.pow 128 (index + 1) = 128 * Nat.pow 128 index := Nat.mul_comm _ _
      have split_eq : n * Nat.pow 128 index
          = n % 128 * Nat.pow 128 index + n / 128 * Nat.pow 128 (index + 1) := by
        rw [power, ← Nat.mul_assoc, ← Nat.add_mul]
        congr 1
        omega
      have fits' : n / 128 * Nat.pow 128 (index + 1) ≤ Word.largest := by omega
      -- So this was not the tenth byte.
      have index_lt' : index + 1 < maxLength := by
        refine Nat.lt_of_le_of_ne index_lt ?_
        intro tenth
        have ninth : index = 9 := Nat.succ.inj tenth
        subst ninth
        have weight : Nat.pow 128 9 = 9223372036854775808 := rfl
        rw [weight, Word.largest] at fits
        omega
      have not_over : ¬(index + 1 = maxLength ∧ 1 < n % 128) := by
        intro ⟨tenth, _⟩
        omega
      have sum_eq : value + n % 128 * Nat.pow 128 index + n / 128 * Nat.pow 128 (index + 1)
          = value + n * Nat.pow 128 index := by omega
      have step : decodeFrom (index + 1) (value + n % 128 * Nat.pow 128 index)
          (encodeNat (n / 128) ++ rest) = _ := ih (n / 128) (by omega) index_lt' fits'
      rw [sum_eq] at step
      rw [List.cons_append, decodeFrom, byte_eq, group_eq]
      simp only [if_neg not_over]
      rw [if_neg (by omega), if_neg (by omega)]
      exact step

/-- A written word is read back, and what follows it is left. -/
theorem decode_encode (value : UInt64) (rest : Bytes) :
    decode (encode value ++ rest) = .ok (value, rest) := by
  have unit : Nat.pow 128 0 = 1 := rfl
  have fits : value.toNat * Nat.pow 128 0 ≤ Word.largest := by
    rw [unit, Nat.mul_one]
    exact Nat.le_of_lt_succ value.toNat_lt
  have read : decodeFrom 0 0 (encodeNat value.toNat ++ rest) = _ :=
    decodeFrom_encodeNat (by decide) fits rest
  rw [decode, encode, read, Nat.zero_add, unit, Nat.mul_one, UInt64.ofNat_toNat]

/-- A written word takes at least one byte. -/
theorem length_encode_pos (value : UInt64) : 0 < (encode value).length := by
  rw [encode, encodeNat]
  split <;> simp

end TileArchive.Varint
