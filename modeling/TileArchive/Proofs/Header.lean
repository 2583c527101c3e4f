import TileArchive.Header
import TileArchive.Proofs.Bytes

/-!
# `TileArchive.Proofs.Header`: a header that was written is read back

`Header.encode` writes 127 bytes at fixed places, and `Header.decode` reads fields from fixed
places, whatever follows the header.

* Fields are numbers of fixed width, lowest byte first, and single bytes for what has a table. Each
  kind of field has a lemma that says that it is read as what was written: `toWord_ofWord` for the
  numbers, `Compression.ofByte_toByte` and `TileType.ofByte_toByte` for the tables.
* A written header is one stretch after the other. `Bytes.slice_append_right` and
  `Header.byteAt_append_right` skip the stretches in front of a field, whose lengths are known;
  so `Header.decodeFields_encode` looks at every field at its own place.
* `Header.decode_of_short`, `Header.decode_of_not_marked` and `Header.decode_of_marked` are the
  three checks that come before the fields, in the order in which they are made.

The version is the only field that is not read as it stands: a header with another version than
the supported one is refused, also where it was written here. Hence `Header.decode_encode_append`
has two outcomes, and `Header.decode_encode` needs a hypothesis.
-/

set_option autoImplicit false

namespace TileArchive

namespace Bytes

/-- A number that fits its width is read back. -/
theorem toWord_ofWord {width n : Nat} (fits : n < Nat.pow 256 width) :
    toWord (ofWord width n) = n := by
  induction width generalizing n with
  | zero => exact (Nat.lt_one_iff.mp fits).symm
  | succ width ih =>
      have byte_eq : (UInt8.ofNat n).toNat = n % 256 := UInt8.toNat_ofNat'
      have fits' : n / 256 < Nat.pow 256 width := Nat.div_lt_of_lt_mul (by rwa [Nat.mul_comm])
      show (UInt8.ofNat n).toNat + 256 * toWord (ofWord width (n / 256)) = n
      rw [byte_eq, ih fits']
      omega

/-- A number of fixed width is written with exactly this many bytes. -/
theorem length_ofWord (width n : Nat) : (ofWord width n).length = width := by
  induction width generalizing n with
  | zero => rfl
  | succ width ih => rw [ofWord, List.length_cons, ih]

/-- A stretch that starts behind the first part lies in the second. -/
theorem slice_append_right {front : Bytes} {start : Nat} (before : front.length ≤ start)
    (back : Bytes) (width : Nat) :
    slice (front ++ back) start width = slice back (start - front.length) width := by
  rw [slice, slice, List.drop_append, List.drop_eq_nil_of_le before, List.nil_append]

/-- The first part itself is a stretch. -/
theorem slice_append_left {front : Bytes} {width : Nat} (same : front.length = width)
    (back : Bytes) : slice (front ++ back) 0 width = front := by
  rw [slice, List.drop_zero, ← same, List.take_left]

/-- A stretch that does not start with the first byte lies in the others. -/
theorem slice_cons {start : Nat} (before : 0 < start) (b : UInt8) (back : Bytes) (width : Nat) :
    slice (b :: back) start width = slice back (start - 1) width := by
  have one_le : [b].length ≤ start := before
  exact slice_append_right one_le back width

end Bytes

/-- The byte of a compression names this compression. -/
theorem Compression.ofByte_toByte (c : Compression) : ofByte c.toByte = c := by
  cases c <;> rfl

/-- The byte of a tile type names this type. -/
theorem TileType.ofByte_toByte (t : TileType) : ofByte t.toByte = t := by
  cases t <;> rfl

namespace Header

/-- A word is read back from its eight bytes. -/
theorem ofNat_toWord_word64 (w : UInt64) : UInt64.ofNat (Bytes.toWord (word64 w)) = w := by
  rw [word64, Bytes.toWord_ofWord w.toNat_lt, UInt64.ofNat_toNat]

/-- A signed number is read back from the four bytes of its unsigned counterpart. -/
theorem ofNat_toWord_ofWord (n : Int32) :
    Int32.ofNat (Bytes.toWord (Bytes.ofWord 4 n.toUInt32.toNat)) = n := by
  rw [Bytes.toWord_ofWord n.toUInt32.toNat_lt]
  exact congrArg UInt32.toInt32 (UInt32.ofNat_toNat (x := n.toUInt32))

/-- A word is written with eight bytes. -/
theorem length_word64 (w : UInt64) : (word64 w).length = 8 :=
  Bytes.length_ofWord 8 w.toNat

/-- The mark in front of the version is seven bytes long. -/
theorem length_mark : mark.length = 7 := by simp [mark]

/-- A header takes 127 bytes. -/
theorem length_encode (h : Header) : h.encode.length = length := by
  simp [encode, sectionBytes, positionBytes, length_word64, Bytes.length_ofWord, length_mark,
    length]

/-- A byte behind the first part lies in the second. -/
theorem byteAt_append_right {front : Bytes} {place : Nat} (before : front.length ≤ place)
    (back : Bytes) : byteAt (front ++ back) place = byteAt back (place - front.length) := by
  simp [byteAt, List.getD_eq_getElem?_getD, List.getElem?_append_right before]

/-- The byte at place zero is the first one. -/
theorem byteAt_zero (b : UInt8) (back : Bytes) : byteAt (b :: back) 0 = b := rfl

/-- A byte that is not the first one is one of the others. -/
theorem byteAt_cons {place : Nat} (before : 0 < place) (b : UInt8) (back : Bytes) :
    byteAt (b :: back) place = byteAt back (place - 1) := by
  have one_le : [b].length ≤ place := before
  exact byteAt_append_right one_le back

/-- Every field is read from the place where it was written. -/
theorem decodeFields_encode (h : Header) (rest : Bytes) : decodeFields (h.encode ++ rest) = h := by
  have clustered_eq (c : Bool) : ((if c then (1 : UInt8) else 0) != 0) = c := by
    cases c <;> rfl
  -- The fields before the one to be read are skipped one by one.
  simp (disch := simp [length_word64, Bytes.length_ofWord, length_mark]) [decodeFields, sectionAt,
    positionAt, wordAt, signedAt, encode, sectionBytes, positionBytes, Bytes.slice_append_right,
    Bytes.slice_append_left, Bytes.slice_cons, byteAt_append_right, byteAt_cons, byteAt_zero,
    length_word64, Bytes.length_ofWord, length_mark, ofNat_toWord_word64, ofNat_toWord_ofWord,
    clustered_eq, Compression.ofByte_toByte, TileType.ofByte_toByte]

/-! ### Which bytes are read -/

section

variable {data : Bytes}

/-- Comparing the first seven bytes with the mark finds out whether the mark stands in
front. -/
theorem take_eq_mark_iff : data.take 7 = mark ↔ mark <+: data := by
  rw [List.prefix_iff_eq_take, length_mark]
  exact eq_comm

/-- Bytes that are too few for a header are refused before anything else is looked at. -/
theorem decode_of_short (short : data.length < length) :
    decode data = .error (.truncated data.length) := by
  rw [decode, if_pos short]

/-- Bytes that do not start with the mark are refused, with those that stand in its place. -/
theorem decode_of_not_marked (long : length ≤ data.length) (unmarked : ¬ mark <+: data) :
    decode data = .error (.invalidMark (data.take 7)) := by
  rw [decode, if_neg (Nat.not_lt.mpr long), if_pos (mt take_eq_mark_iff.mp unmarked)]

/-- Behind the mark only the version decides; all other fields are read whatever they are. -/
theorem decode_of_marked (long : length ≤ data.length) (marked : mark <+: data) :
    decode data = if byteAt data 7 = supportedVersion then .ok (decodeFields data)
      else .error (.unsupportedVersion (byteAt data 7)) := by
  rw [decode, if_neg (Nat.not_lt.mpr long),
    if_neg (not_not_intro (take_eq_mark_iff.mpr marked)), ite_not]

/-- Exactly the bytes that are long enough and begin with the mark and the supported version are
read as a header. -/
theorem decode_eq_ok_iff (h : Header) :
    decode data = .ok h ↔ length ≤ data.length ∧ mark <+: data ∧
      byteAt data 7 = supportedVersion ∧ decodeFields data = h := by
  by_cases long : length ≤ data.length
  · by_cases marked : mark <+: data
    · rw [decode_of_marked long marked]
      by_cases supported : byteAt data 7 = supportedVersion
      · simp [supported, long, marked]
      · simp [supported]
    · simp [decode_of_not_marked long marked, marked]
  · simp [decode_of_short (Nat.lt_of_not_le long), long]

end

/-! ### Reading what was written -/

/-- A written header starts with the mark. -/
theorem mark_prefix_encode (h : Header) : mark <+: h.encode := by
  simp only [encode, List.append_assoc]
  exact List.prefix_append _ _

/-- What a written header is read as, whatever follows it. -/
theorem decode_encode_append (h : Header) (rest : Bytes) :
    decode (h.encode ++ rest)
      = if h.version = supportedVersion then .ok h
        else .error (.unsupportedVersion h.version) := by
  have long : length ≤ (h.encode ++ rest).length := by
    rw [List.length_append, length_encode]
    omega
  have marked : mark <+: h.encode ++ rest :=
    (mark_prefix_encode h).trans (List.prefix_append _ rest)
  have version_eq : byteAt (h.encode ++ rest) 7 = h.version := by
    simp only [encode, List.append_assoc]
    exact byteAt_append_right (Nat.le_refl 7) _
  rw [decode_of_marked long marked, version_eq, decodeFields_encode]

/-- A written header of the supported version is read back, whatever follows it. -/
theorem decode_encode {h : Header} (supported : h.version = supportedVersion) (rest : Bytes) :
    decode (h.encode ++ rest) = .ok h := by
  rw [decode_encode_append, if_pos supported]

end Header

end TileArchive
