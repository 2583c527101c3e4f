import TileArchive.Proofs.Header

/-!
# `TileArchive.Proofs.Header.Canonical`: which bytes are a header, and which of them are kept

Writing a header and reading it are inverse to each other up to what reading forgives.

* `Header.encode_decodeFields`: a header that was read and is written again has the bytes that
  it was read from, in every place but four. `canonicalByte` says what becomes of these: any
  flag that is set is written as one, and a compression or type that is not known as zero.
* `Header.codec_round_trips` puts both directions together: what a written header is read as,
  which bytes are read as a header, and what such bytes are written as.

Reading forgives in single bytes only, from `0x60` to `0x63`. All other fields are numbers or
positions that fill their bytes, so any bytes are the ones of some value (`ofWord_toWord` and its
instances for words, sections, signed numbers and positions). So the bytes of a header fall into
three stretches, and only the one in the middle is changed: `mapIdx_canonicalByte_take` takes the
canonical bytes apart like this, and `slice_before_eq` and `slice_behind_eq` say that the outer two
are written as they were read.

What was written once is written the same way again, since every canonical byte is its own
canonical byte; this is the last part of `codec_round_trips`.
-/

set_option autoImplicit false

namespace TileArchive

namespace Bytes

/-- A number with so many bytes is below this power of 256. -/
theorem toWord_lt (bytes : Bytes) : toWord bytes < Nat.pow 256 bytes.length := by
  induction bytes with
  | nil => exact Nat.one_pos
  | cons b bytes ih =>
      have b_lt := b.toNat_lt
      have pow_eq : Nat.pow 256 (bytes.length + 1) = Nat.pow 256 bytes.length * 256 := rfl
      rw [List.length_cons, pow_eq, toWord]
      omega

/-- The bytes of the number that some bytes stand for are these bytes. -/
theorem ofWord_toWord (bytes : Bytes) : ofWord bytes.length (toWord bytes) = bytes := by
  induction bytes with
  | nil => rfl
  | cons b bytes ih =>
      have b_lt := b.toNat_lt
      have low : UInt8.ofNat (b.toNat + 256 * toWord bytes) = b := by
        rw [← UInt8.toNat_inj, UInt8.toNat_ofNat']
        omega
      have high : (b.toNat + 256 * toWord bytes) / 256 = toWord bytes := by omega
      rw [List.length_cons, toWord, ofWord, low, high, ih]

/-- Two slices side by side are one. -/
theorem slice_append_slice (bytes : Bytes) {start next first second : Nat}
    (follows : next = start + first) :
    slice bytes start first ++ slice bytes next second = slice bytes start (first + second) := by
  rw [follows, slice, slice, slice, List.take_add, List.drop_drop]

end Bytes

namespace Header

/-! ### Fields that were read are written as they stood -/

section

variable {data : Bytes}

/-- A word is written with the eight bytes that it was read from. -/
theorem word64_wordAt {i : Nat} (inside : i + 8 ≤ data.length) :
    word64 (wordAt data i) = Bytes.slice data i 8 := by
  have length_eq : (Bytes.slice data i 8).length = 8 := Bytes.length_slice inside
  have fits := Bytes.toWord_lt (Bytes.slice data i 8)
  have same := Bytes.ofWord_toWord (Bytes.slice data i 8)
  rw [length_eq] at fits same
  rw [word64, wordAt, UInt64.toNat_ofNat_of_lt' fits, same]

/-- Offset and length of a section are written with the bytes that they were read from. -/
theorem sectionBytes_sectionAt {i : Nat} (inside : i + 16 ≤ data.length) :
    sectionBytes (sectionAt data i) = Bytes.slice data i 16 := by
  have second : i + 8 + 8 ≤ data.length := inside
  rw [sectionBytes, sectionAt, word64_wordAt (by omega), word64_wordAt second,
    Bytes.slice_append_slice data rfl]

/-- A signed number is written with the four bytes that it was read from. -/
theorem ofWord_signedAt {i : Nat} (inside : i + 4 ≤ data.length) :
    Bytes.ofWord 4 (signedAt data i).toUInt32.toNat = Bytes.slice data i 4 := by
  have length_eq : (Bytes.slice data i 4).length = 4 := Bytes.length_slice inside
  have fits := Bytes.toWord_lt (Bytes.slice data i 4)
  have same := Bytes.ofWord_toWord (Bytes.slice data i 4)
  rw [length_eq] at fits same
  rw [signedAt, UInt32.toUInt32_toInt32, UInt32.toNat_ofNat_of_lt' fits, same]

/-- A position is written with the eight bytes that it was read from. -/
theorem positionBytes_positionAt {i : Nat} (inside : i + 8 ≤ data.length) :
    positionBytes (positionAt data i) = Bytes.slice data i 8 := by
  have second : i + 4 + 4 ≤ data.length := inside
  rw [positionBytes, positionAt, ofWord_signedAt (by omega), ofWord_signedAt second,
    Bytes.slice_append_slice data rfl]

/-- A stretch of one byte is this byte. -/
theorem slice_eq_byteAt {i : Nat} (inside : i < data.length) :
    Bytes.slice data i 1 = [byteAt data i] := by
  rw [Bytes.slice, byteAt, List.drop_eq_getElem_cons inside, ← List.getElem_eq_getD 0]
  rfl

end

/-! ### Bytes that are not kept -/

/-- The byte that stands in a place after a header with `b` there was read and written again:
the flag at 0x60 is zero or one, and the compressions and the type behind it are known ones. -/
def canonicalByte (place : Nat) (b : UInt8) : UInt8 :=
  if place = 0x60 ∧ 1 < b then 1
  else if (place = 0x61 ∨ place = 0x62) ∧ 2 < b then 0
  else if place = 0x63 ∧ 5 < b then 0
  else b

/-- A flag that is set in any way is written as one. -/
theorem flag_eq_canonicalByte (b : UInt8) :
    (if b != 0 then 1 else 0) = canonicalByte 0x60 b := by
  simp only [canonicalByte]
  grind

/-- A compression is written as the byte it was read from, and as zero if this byte names
none; both places for a compression treat it alike. -/
theorem compression_eq_canonicalByte (b : UInt8) :
    (Compression.ofByte b).toByte = canonicalByte 0x61 b ∧
      (Compression.ofByte b).toByte = canonicalByte 0x62 b := by
  simp only [canonicalByte, Compression.ofByte]
  grind [Compression.toByte]

/-- A tile type is written as the byte it was read from, and as zero if this byte names
none. -/
theorem tileType_eq_canonicalByte (b : UInt8) :
    (TileType.ofByte b).toByte = canonicalByte 0x63 b := by
  simp only [canonicalByte, TileType.ofByte]
  grind [TileType.toByte]

/-- All bytes outside of the four places are canonical. -/
theorem canonicalByte_of_outside {place : Nat} (outside : place < 0x60 ∨ 0x63 < place)
    (b : UInt8) : canonicalByte place b = b := by
  rw [canonicalByte, if_neg (by omega), if_neg (by omega), if_neg (by omega)]

/-- The bytes of a part of the data in which all are kept. -/
theorem mapIdx_canonicalByte_slice {data : Bytes} {start width : Nat}
    (outside : start + width ≤ 0x60 ∨ 0x63 < start) :
    (Bytes.slice data start width).mapIdx (fun i => canonicalByte (i + start))
      = Bytes.slice data start width := by
  refine List.ext_getElem? fun i => ?_
  rw [List.getElem?_mapIdx]
  by_cases inside : i < width
  · have kept : canonicalByte (i + start) = id :=
      funext fun b => canonicalByte_of_outside (by omega) b
    rw [kept, Option.map_id, id]
  · have nothing : (Bytes.slice data start width)[i]? = none := by
      rw [Bytes.slice, List.getElem?_take, if_neg inside]
    rw [nothing]
    rfl

section

variable {data : Bytes} (long : length ≤ data.length)

include long

/-- In canonical form only four bytes of a header change. They stand side by side, so a
header is cut into what is before them, the four, and what is behind. -/
theorem mapIdx_canonicalByte_take :
    (data.take length).mapIdx canonicalByte
      = Bytes.slice data 0 0x60
        ++ [canonicalByte 0x60 (byteAt data 0x60), canonicalByte 0x61 (byteAt data 0x61),
          canonicalByte 0x62 (byteAt data 0x62), canonicalByte 0x63 (byteAt data 0x63)]
        ++ Bytes.slice data 0x64 27 := by
  have long : 127 ≤ data.length := long
  have whole_eq : data.take length
      = Bytes.slice data 0 0x60 ++ Bytes.slice data 0x60 4 ++ Bytes.slice data 0x64 27 := by
    simp (disch := omega) only [Bytes.slice_append_slice]
    rfl
  have middle_eq : Bytes.slice data 0x60 4 = [byteAt data 0x60] ++ [byteAt data 0x61]
      ++ [byteAt data 0x62] ++ [byteAt data 0x63] := by
    simp (disch := omega) only [← slice_eq_byteAt, Bytes.slice_append_slice]
  have before_length : (Bytes.slice data 0 0x60).length = 0x60 := Bytes.length_slice (by omega)
  have front_length : (Bytes.slice data 0 0x60 ++ Bytes.slice data 0x60 4).length = 0x64 := by
    rw [List.length_append, before_length, Bytes.length_slice (by omega)]
  have before_kept : (Bytes.slice data 0 0x60).mapIdx canonicalByte = Bytes.slice data 0 0x60 :=
    @mapIdx_canonicalByte_slice data 0 0x60 (by omega)
  have behind_kept : (Bytes.slice data 0x64 27).mapIdx (fun i => canonicalByte (i + 0x64))
      = Bytes.slice data 0x64 27 := @mapIdx_canonicalByte_slice data 0x64 27 (by omega)
  rw [whole_eq, List.mapIdx_append, List.mapIdx_append, before_length, front_length,
    before_kept, behind_kept, middle_eq]
  rfl

/-- The fields before the four bytes make up what lies before them. -/
theorem slice_before_eq (marked : data.take 7 = mark) :
    Bytes.slice data 0 0x60 = mark ++ [byteAt data 0x07]
      ++ sectionBytes (sectionAt data 0x08) ++ sectionBytes (sectionAt data 0x18)
      ++ sectionBytes (sectionAt data 0x28) ++ sectionBytes (sectionAt data 0x38)
      ++ word64 (wordAt data 0x48) ++ word64 (wordAt data 0x50) ++ word64 (wordAt data 0x58) := by
  have long : 127 ≤ data.length := long
  have mark_eq : mark = Bytes.slice data 0 7 := marked.symm
  rw [mark_eq, ← slice_eq_byteAt (by omega)]
  simp (disch := omega) only [sectionBytes_sectionAt, word64_wordAt, Bytes.slice_append_slice]

/-- The fields behind the four bytes make up what lies behind them. -/
theorem slice_behind_eq :
    Bytes.slice data 0x64 27 = [byteAt data 0x64] ++ [byteAt data 0x65]
      ++ positionBytes (positionAt data 0x66) ++ positionBytes (positionAt data 0x6e)
      ++ [byteAt data 0x76] ++ positionBytes (positionAt data 0x77) := by
  have long : 127 ≤ data.length := long
  simp (disch := omega) only [← slice_eq_byteAt, positionBytes_positionAt,
    Bytes.slice_append_slice]

/-- A header that was read is written with the bytes that it was read from, in canonical form. -/
theorem encode_decodeFields (marked : data.take 7 = mark) :
    (decodeFields data).encode = (data.take length).mapIdx canonicalByte := by
  have flag_eq : (if (decodeFields data).clustered then 1 else 0)
      = canonicalByte 0x60 (byteAt data 0x60) := flag_eq_canonicalByte _
  obtain ⟨internal_eq, -⟩ := compression_eq_canonicalByte (byteAt data 0x61)
  obtain ⟨-, tile_eq⟩ := compression_eq_canonicalByte (byteAt data 0x62)
  rw [mapIdx_canonicalByte_take long, slice_before_eq long marked, slice_behind_eq long, encode,
    flag_eq, ← internal_eq, ← tile_eq, ← tileType_eq_canonicalByte]
  simp only [decodeFields, List.append_assoc, List.cons_append, List.nil_append]

end

/-! ### Both directions -/

/-- Every header is written as 127 bytes behind the mark, and is read back from them, whatever
follows, unless its version is not supported. Exactly the byte strings that have 127 bytes and
begin with the mark and the supported version are read as a header; of several faults the first
is reported. A header that was read is written as the bytes it was read from, in canonical form,
and these are read as the same header again. -/
theorem codec_round_trips :
    (∀ h : Header, h.encode.length = 127 ∧ mark <+: h.encode ∧
      ∀ rest, decode (h.encode ++ rest)
        = if h.version = 3 then .ok h else .error (.unsupportedVersion h.version)) ∧
    ∀ bytes : Bytes,
      ((∃ h, decode bytes = .ok h) ↔
        127 ≤ bytes.length ∧ mark <+: bytes ∧ byteAt bytes 7 = 3) ∧
      (bytes.length < 127 → decode bytes = .error (.truncated bytes.length)) ∧
      (127 ≤ bytes.length → ¬ mark <+: bytes →
        decode bytes = .error (.invalidMark (bytes.take 7))) ∧
      (127 ≤ bytes.length → mark <+: bytes → byteAt bytes 7 ≠ 3 →
        decode bytes = .error (.unsupportedVersion (byteAt bytes 7))) ∧
      ∀ h, decode bytes = .ok h →
        h.encode = (bytes.take 127).mapIdx canonicalByte ∧ decode h.encode = .ok h := by
  refine ⟨fun h => ⟨length_encode h, mark_prefix_encode h, decode_encode_append h⟩, ?_⟩
  intro bytes
  refine ⟨?_, decode_of_short, decode_of_not_marked, ?_, ?_⟩
  · simp only [decode_eq_ok_iff, exists_and_left, exists_eq', and_true]
    exact Iff.rfl
  · intro long marked unsupported
    rw [decode_of_marked long marked]
    exact if_neg unsupported
  · intro h decoded
    obtain ⟨long, marked, supported, rfl⟩ := (decode_eq_ok_iff h).mp decoded
    refine ⟨encode_decodeFields long (take_eq_mark_iff.mpr marked), ?_⟩
    have read_back := decode_encode_append (decodeFields bytes) []
    rw [List.append_nil] at read_back
    rw [read_back]
    exact if_pos supported

/-- A header with a set flag that is not one, with a compression and a type that are not known,
and with more bytes behind it. -/
def looseBytes : Bytes :=
  ((blank.encode.set 0x60 7).set 0x62 9).set 0x63 42 ++ [1, 2]

/-- It is read, and written again with one, zero and zero in these places. -/
theorem codec_round_trips_looseBytes :
    (127 ≤ looseBytes.length ∧ mark <+: looseBytes ∧ byteAt looseBytes 7 = 3) ∧
    ∃ h, decode looseBytes = .ok h ∧ h.encode = (looseBytes.take 127).mapIdx canonicalByte ∧
      h.encode = (blank.encode.set 0x60 1).set 0x62 0 ∧ decode h.encode = .ok h := by
  have formed : 127 ≤ looseBytes.length ∧ mark <+: looseBytes ∧ byteAt looseBytes 7 = 3 := by
    decide +kernel
  obtain ⟨decoded_iff, -, -, -, again⟩ := codec_round_trips.2 looseBytes
  obtain ⟨h, decoded⟩ := decoded_iff.mpr formed
  obtain ⟨encode_eq, read_back⟩ := again h decoded
  refine ⟨formed, h, decoded, encode_eq, ?_, read_back⟩
  rw [encode_eq]
  decide +kernel

end Header

end TileArchive
