import TileArchive.Header

/-!
# `TileArchive.Build.Layout`: putting the sections of an archive together

An archive starts with its header; the root directory, the metadata, the leaf directories
and the tile data follow in this order without gaps.

The header has a fixed length, so the places of all sections are known from their lengths before the
header is written. `Sections.describe` puts them into a header whose other fields are given, and
`Sections.assemble` writes it in front of the sections. An empty section has a place too, the
one where the next section starts.
-/

set_option autoImplicit false

namespace TileArchive

/-- The sections of an archive, as they are stored. They are put behind the header in this
order, so their lengths decide all offsets that the header tells. -/
structure Sections where
  rootDirectory : Bytes
  metadata : Bytes
  leafDirectories : Bytes
  tileData : Bytes
deriving DecidableEq, Repr

namespace Sections

/-- The section of some bytes that starts at an offset. -/
def place (offset : Nat) (bytes : Bytes) : Section :=
  ⟨UInt64.ofNat offset, UInt64.ofNat bytes.length⟩

/-- A header that says where the sections lie. Its other fields are kept. -/
def describe (s : Sections) (h : Header) : Header :=
  let afterHeader := Header.length
  let afterRoot := afterHeader + s.rootDirectory.length
  let afterMetadata := afterRoot + s.metadata.length
  let afterLeaves := afterMetadata + s.leafDirectories.length
  { h with
    rootDirectory := place afterHeader s.rootDirectory
    metadata := place afterRoot s.metadata
    leafDirectories := place afterMetadata s.leafDirectories
    tileData := place afterLeaves s.tileData }

/-- The archive with the given sections. -/
def assemble (s : Sections) (h : Header) : Bytes :=
  (s.describe h).encode ++ s.rootDirectory ++ s.metadata ++ s.leafDirectories ++ s.tileData

end Sections

end TileArchive
