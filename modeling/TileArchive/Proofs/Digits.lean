import TileArchive.Bytes

/-!
# `TileArchive.Proofs.Digits`: numbers and texts as characters and bytes

Headers and metadata name numbers by their decimal digits, which `Nat.toDigits 10` writes.
Written digits are digits, there is at least one of them, the first one is zero only for the
number zero (`toDigits_head`), and reading them from the left gives the number back
(`foldl_toDigits`).

`utf8_ofList` says which bytes encode a text without characters beyond the first 128, and
`fromUTF8_utf8` that the bytes of any text encode it.
-/

set_option autoImplicit false

namespace TileArchive.Digits

/-! ### Digits -/

/-- The character code of a written digit. -/
theorem toNat_of_mem {n : Nat} {c : Char} (written : c ∈ Nat.toDigits 10 n) :
    48 ≤ c.toNat ∧ c.toNat ≤ 57 :=
  Char.isDigit_iff_toNat.1 (Nat.isDigit_of_mem_toDigits (by decide) (by decide) written)

/-- Read from the left, the digits of a number give the number. -/
theorem foldl_toDigits (n : Nat) :
    (Nat.toDigits 10 n).foldl (fun value c => value * 10 + (c.toNat - 48)) 0 = n := by
  have value_eq := Nat.ofDigitChars_ten_toDigits (n := n)
  rw [Nat.ofDigitChars_eq_foldl] at value_eq
  simpa only [Nat.mul_comm 10, show '0'.toNat = 48 from rfl] using value_eq

/-- A number of more than one digit does not begin with a zero. -/
theorem toDigits_head {n : Nat} {c : Char} {rest : List Char}
    (written : Nat.toDigits 10 n = c :: rest) : rest = [] ∨ c ≠ '0' := by
  induction n using Nat.strongRecOn generalizing c rest with
  | ind n ih =>
      by_cases small : n < 10
      · rw [Nat.toDigits_of_lt_base small] at written
        exact .inl (List.cons.inj written).2.symm
      · -- The first digit is that of a tenth of the number, which is not zero.
        rw [Nat.toDigits_of_base_le (by decide) (Nat.le_of_not_lt small)] at written
        obtain ⟨front, more, front_eq⟩ := List.exists_cons_of_ne_nil
          (Nat.toDigits_ne_nil (n := n / 10) (b := 10))
        rw [front_eq, List.cons_append] at written
        obtain ⟨rfl, -⟩ := List.cons.inj written
        rcases ih (n / 10) (by omega) front_eq with rfl | nonzero
        · right
          rintro rfl
          have tenth := foldl_toDigits (n / 10)
          rw [front_eq] at tenth
          have zero : n / 10 = 0 := tenth.symm.trans rfl
          omega
        · exact .inr nonzero

end TileArchive.Digits

namespace TileArchive.Text

/-! ### Texts in bytes -/

/-- The bytes of two texts in a row are the bytes of the first and then those of the second. -/
theorem utf8_append (s t : String) :
    (s ++ t).toUTF8.data.toList = s.toUTF8.data.toList ++ t.toUTF8.data.toList := by
  simp [String.toUTF8_eq_toByteArray, String.toByteArray_append, ByteArray.data_append]

/-- A text without characters beyond the first 128 has one byte for each. -/
theorem utf8_ofList {cs : List Char} (plain : ∀ c ∈ cs, c.toNat < 128) :
    (String.ofList cs).toUTF8.data.toList = cs.map fun c => UInt8.ofNat c.toNat := by
  have one {c : Char} (mem : c ∈ cs) : String.utf8EncodeChar c = [UInt8.ofNat c.toNat] :=
    String.utf8EncodeChar_eq_singleton <| Char.utf8Size_eq_one_iff.2 <|
      UInt32.le_iff_toNat_le.2 (Nat.le_of_lt_succ (plain c mem))
  rw [String.toUTF8_eq_toByteArray, String.toByteArray_ofList, List.utf8Encode,
    List.data_toByteArray, List.flatMap_def, List.map_congr_left fun c mem => one mem,
    ← List.flatMap_def, ← List.map_eq_flatMap]

/-- The bytes of a text encode it. -/
theorem fromUTF8_utf8 (s : String) :
    String.fromUTF8? (ByteArray.mk s.toUTF8.data.toList.toArray) = some s := by
  have whole : ByteArray.mk s.toUTF8.data.toList.toArray = s.toByteArray := by
    rw [Array.toArray_toList, String.toUTF8_eq_toByteArray]
  rw [whole, String.fromUTF8?, dif_pos s.isValidUTF8]
  rfl

end TileArchive.Text
