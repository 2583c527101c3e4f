import TileArchive.Build.Layout
import TileArchive.Proofs.Build.Draft
import TileArchive.Proofs.Header
import TileArchive.Reader.Sections

/-!
# `TileArchive.Proofs.Build.Layout`: the sections of an archive are found again

An assembled archive starts with a header that says where its sections lie. As long as every
section fits one read, this header is read back, the ranges computed from it are those of the
sections, and a stretch of a section is read by its offset within the section.

* `Placed` says that some bytes lie at an offset. What is placed is read (`Placed.read`), and what
  is placed in a section that is placed is placed itself (`Placed.trans`).
* `Small` bounds the sections: each fits half a word, the length of a range. Together they then fit
  a word by far (`Small.total_lt`), so no offset wraps and no sum of an offset and a length is cut
  off at the largest word.
* `Small.divides` says that the header divides the archive: the sections lie one behind the other
  without gaps, from the end of the header to the end of the archive.

Rows tell offsets within a section and the header tells where the section starts. The sums are
taken in words by a reader, and `Small.placed_payload` and `Small.placed_leaf` say that they find
what was stored.
-/

set_option autoImplicit false

namespace TileArchive

/-! ### Reading a stretch -/

/-- What is placed is the stretch at its offset with its length. -/
theorem Placed.slice_eq {bytes payload : Bytes} {offset : UInt64}
    (placed : Placed bytes offset payload) :
    Bytes.slice bytes offset.toNat payload.length = payload := by
  obtain ⟨before, after, rfl, offset_eq⟩ := placed
  rw [List.append_assoc, Bytes.slice_append_right (Nat.le_of_eq offset_eq), offset_eq,
    Nat.sub_self, Bytes.slice_append_left rfl]

/-- A stretch that lies in the archive is read. -/
theorem Placed.read {bytes payload : Bytes} {range : ByteRange}
    (placed : Placed bytes range.offset payload) (length_eq : range.length.toNat = payload.length) :
    Content.read bytes range = .ok payload := by
  rw [Content.read, length_eq, if_pos placed.stop_le, placed.slice_eq]

/-- What is placed is read with its range. -/
theorem Placed.run_fetchBytes {bytes payload : Bytes} {range : ByteRange}
    (placed : Placed bytes range.offset payload) (length_eq : range.length.toNat = payload.length) :
    (fetchBytes range).run (Content.read bytes) = .ok payload := by
  show (Content.read bytes range).mapError ReadError.io = _
  rw [placed.read length_eq]
  rfl

/-- A stretch of a stretch is a stretch. -/
theorem Placed.trans {data part payload : Bytes} {start offset : UInt64}
    (outer : Placed data start part) (inner : Placed part offset payload)
    (room : data.length ≤ Word.largest) : Placed data (Word.addSat start offset) payload := by
  have outer_le := outer.stop_le
  have inner_le := inner.stop_le
  obtain ⟨before, after, rfl, start_eq⟩ := outer
  obtain ⟨before', after', rfl, offset_eq⟩ := inner
  refine ⟨before ++ before', after' ++ after, by simp only [List.append_assoc], ?_⟩
  -- The sum of the offsets lies in the data, so it does not stop at the largest word.
  rw [Word.toNat_addSat, List.length_append, Nat.min_eq_left (by omega)]
  omega

/-- A header divides an archive: its bytes come first, the sections follow in their order without
gap or overlap, and the last one ends where the archive does. -/
structure Header.Divides (h : Header) (bytes : Bytes) : Prop where
  header : bytes.take Header.length = h.encode
  rootDirectory : h.rootDirectory.offset.toNat = Header.length
  metadata : h.metadata.offset.toNat
    = h.rootDirectory.offset.toNat + h.rootDirectory.length.toNat
  leafDirectories : h.leafDirectories.offset.toNat
    = h.metadata.offset.toNat + h.metadata.length.toNat
  tileData : h.tileData.offset.toNat
    = h.leafDirectories.offset.toNat + h.leafDirectories.length.toNat
  stop : bytes.length = h.tileData.offset.toNat + h.tileData.length.toNat

namespace Sections

/-- No section reaches `2 ^ 32` bytes, so that each can be read at once. Four of them and
the header stay far below the end of a word. -/
structure Small (s : Sections) : Prop where
  rootDirectory : s.rootDirectory.length ≤ Word.largest32
  metadata : s.metadata.length ≤ Word.largest32
  leafDirectories : s.leafDirectories.length ≤ Word.largest32
  tileData : s.tileData.length ≤ Word.largest32

/-! ### The place of a section -/

/-- The range of a small section is where it was placed. Neither its end nor its length is
cut, since the section is short and begins in the lower half of the words. -/
theorem range?_place {offset : Nat} {bytes : Bytes} (offset_lt : offset < Word.topBit)
    (small : bytes.length ≤ Word.largest32) (name : String) :
    (place offset bytes).range? name
      = .ok ⟨UInt64.ofNat offset, UInt32.ofNat bytes.length⟩ := by
  have offset_eq : (UInt64.ofNat offset).toNat = offset :=
    Word.toNat_ofNat (Nat.le_of_lt (Nat.lt_trans offset_lt (by decide)))
  have length_eq : (UInt64.ofNat bytes.length).toNat = bytes.length :=
    Word.toNat_ofNat (Nat.le_trans small (by decide))
  have stop_eq : (place offset bytes).stop.toNat = offset + bytes.length := by
    show (Word.addSat (UInt64.ofNat offset) (UInt64.ofNat bytes.length)).toNat = _
    rw [Word.toNat_addSat, offset_eq, length_eq]
    rw [Word.topBit] at offset_lt
    rw [Word.largest32] at small
    exact Nat.min_eq_left (by rw [Word.largest]; omega)
  have width_eq : (place offset bytes).stop.toNat - (place offset bytes).offset.toNat
      = bytes.length := by
    rw [stop_eq]
    show offset + bytes.length - (UInt64.ofNat offset).toNat = _
    rw [offset_eq]
    omega
  rw [Section.range?, width_eq, if_pos small]
  rfl

/-- A section lies after all that comes before it. -/
theorem placed_of_split {data before bytes after : Bytes} {offset : Nat}
    (split : data = before ++ (bytes ++ after)) (length_eq : before.length = offset)
    (offset_lt : offset < Word.topBit) : Placed data (UInt64.ofNat offset) bytes := by
  refine ⟨before, after, by rw [split, List.append_assoc], ?_⟩
  rw [length_eq, Word.toNat_ofNat (Nat.le_of_lt (Nat.lt_trans offset_lt (by decide)))]

variable {s : Sections}

/-! ### Assembled archives -/

/-- The header of an assembled archive is read back. -/
theorem decode_assemble {h : Header} (supported : h.version = Header.supportedVersion) :
    Header.decode (s.assemble h) = .ok (s.describe h) := by
  have version_eq : (s.describe h).version = Header.supportedVersion := supported
  rw [assemble, List.append_assoc, List.append_assoc, List.append_assoc]
  exact Header.decode_encode version_eq _

/-- An assembled archive is as long as its header and its sections. -/
theorem length_assemble (s : Sections) (h : Header) :
    (s.assemble h).length = Header.length + s.rootDirectory.length + s.metadata.length
      + s.leafDirectories.length + s.tileData.length := by
  simp only [assemble, List.length_append, Header.length_encode]

/-- No offset within the sections wraps. -/
theorem Small.total_lt (small : s.Small) :
    Header.length + s.rootDirectory.length + s.metadata.length + s.leafDirectories.length
      + s.tileData.length < Word.topBit := by
  obtain ⟨root, metadata, leaves, data⟩ := small
  rw [Word.largest32] at root metadata leaves data
  rw [Header.length, Word.topBit]
  omega

/-- An archive of small sections has no byte at the largest offset. -/
theorem Small.length_assemble_lt (small : s.Small) (h : Header) :
    (s.assemble h).length < Word.largest := by
  rw [length_assemble]
  exact Nat.lt_trans small.total_lt (by decide)

/-- The header of an assembled archive divides it. -/
theorem Small.divides (small : s.Small) (h : Header) :
    (s.describe h).Divides (s.assemble h) := by
  have total_lt := small.total_lt
  -- No offset and no length is cut off where it becomes a word.
  have word {n : Nat} (lt : n < Word.topBit) : (UInt64.ofNat n).toNat = n :=
    Word.toNat_ofNat (Nat.le_of_lt (Nat.lt_trans lt (by decide)))
  refine ⟨?_, word (by decide), ?_, ?_, ?_, ?_⟩
  · rw [assemble, List.append_assoc, List.append_assoc, List.append_assoc]
    exact List.take_left' (Header.length_encode _)
  all_goals simp only [length_assemble, describe, place]
  · rw [word (by omega), word (by omega), word (by omega)]
  · rw [word (by omega), word (by omega), word (by omega)]
  · rw [word (by omega), word (by omega), word (by omega)]
  · rw [word (by omega), word (by omega)]

/-- The root directory is read from its range. -/
theorem Small.rootRange (small : s.Small) (h : Header) :
    ∃ range, (s.describe h).rootRange = .ok range ∧
      range.length.toNat = s.rootDirectory.length ∧
      Placed (s.assemble h) range.offset s.rootDirectory := by
  have split : s.assemble h = (s.describe h).encode
      ++ (s.rootDirectory ++ (s.metadata ++ (s.leafDirectories ++ s.tileData))) := by
    simp only [assemble, List.append_assoc]
  have offset_lt : Header.length < Word.topBit := by decide
  exact ⟨_, range?_place offset_lt small.rootDirectory _,
    Word.toNat_ofNat32 small.rootDirectory,
    placed_of_split split (Header.length_encode _) offset_lt⟩

/-- The metadata are read from their range. -/
theorem Small.metadataRange (small : s.Small) (h : Header) :
    ∃ range, (s.describe h).metadataRange = .ok range ∧
      range.length.toNat = s.metadata.length ∧
      Placed (s.assemble h) range.offset s.metadata := by
  have total_lt := small.total_lt
  have split : s.assemble h = ((s.describe h).encode ++ s.rootDirectory)
      ++ (s.metadata ++ (s.leafDirectories ++ s.tileData)) := by
    simp only [assemble, List.append_assoc]
  have length_eq : ((s.describe h).encode ++ s.rootDirectory).length
      = Header.length + s.rootDirectory.length := by
    rw [List.length_append, Header.length_encode]
  have offset_lt : Header.length + s.rootDirectory.length < Word.topBit := by omega
  exact ⟨_, range?_place offset_lt small.metadata _, Word.toNat_ofNat32 small.metadata,
    placed_of_split split length_eq offset_lt⟩

/-- The leaf directories lie where the header says. -/
theorem Small.placed_leafDirectories (small : s.Small) (h : Header) :
    Placed (s.assemble h) (s.describe h).leafDirectories.offset s.leafDirectories := by
  have total_lt := small.total_lt
  have split : s.assemble h = ((s.describe h).encode ++ s.rootDirectory ++ s.metadata)
      ++ (s.leafDirectories ++ s.tileData) := by
    simp only [assemble, List.append_assoc]
  have length_eq : ((s.describe h).encode ++ s.rootDirectory ++ s.metadata).length
      = Header.length + s.rootDirectory.length + s.metadata.length := by
    simp only [List.length_append, Header.length_encode]
  exact placed_of_split split length_eq (by omega)

/-- The tile data lie where the header says. -/
theorem Small.placed_tileData (small : s.Small) (h : Header) :
    Placed (s.assemble h) (s.describe h).tileData.offset s.tileData := by
  have total_lt := small.total_lt
  have split : s.assemble h
      = ((s.describe h).encode ++ s.rootDirectory ++ s.metadata ++ s.leafDirectories)
        ++ (s.tileData ++ []) := by
    simp only [assemble, List.append_nil]
  have length_eq :
      ((s.describe h).encode ++ s.rootDirectory ++ s.metadata ++ s.leafDirectories).length
        = Header.length + s.rootDirectory.length + s.metadata.length
          + s.leafDirectories.length := by
    simp only [List.length_append, Header.length_encode]
  exact placed_of_split split length_eq (by omega)

/-- The payload of a row is read by its offset within the tile data. -/
theorem Small.placed_payload (small : s.Small) (h : Header) {e : Entry} {payload : Bytes}
    (placed : Placed s.tileData e.offset payload) :
    Placed (s.assemble h) ((s.describe h).payloadRange e).offset payload :=
  (small.placed_tileData h).trans placed (Nat.le_of_lt (small.length_assemble_lt h))

/-- A leaf directory is read by its offset within the leaf directory section. -/
theorem Small.placed_leaf (small : s.Small) (h : Header) {e : Entry} {leaf : Bytes}
    (placed : Placed s.leafDirectories e.offset leaf) :
    Placed (s.assemble h) ((s.describe h).leafRange e).offset leaf :=
  (small.placed_leafDirectories h).trans placed (Nat.le_of_lt (small.length_assemble_lt h))

end Sections

end TileArchive
