import TileArchive.Bytes

/-!
# `TileArchive.Header`: the fixed description at the head of an archive

The first 127 bytes of an archive say where its sections lie, how many tiles it holds, how
its directories and payloads are compressed, and which part of the world it shows. All
numbers are written least significant byte first, without gaps, after seven letters that
mark the format:

    0x00  mark (7)                 0x60  clustered (1)
    0x07  version (1)              0x61  compression of directories and metadata (1)
    0x08  root directory (8 + 8)   0x62  compression of payloads (1)
    0x18  metadata (8 + 8)         0x63  type of payloads (1)
    0x28  leaf directories (8 + 8) 0x64  lowest and highest zoom (1 + 1)
    0x38  tile data (8 + 8)        0x66  bounds: west, south, east, north (4 each)
    0x48  addressed tiles (8)      0x76  zoom of the center (1)
    0x50  run entries (8)          0x77  center: longitude, latitude (4 each)
    0x58  distinct payloads (8)

A section is given by offset and length. `Header.encode` writes these bytes and
`Header.decode` reads them. Compression and type bytes that are not known read as
`unknown`, so archives of newer tools still open.

What the header says is not checked against the rest of the archive, nor against itself: sections
may overlap, lie behind the end or have a length that no read can have, zooms may be in the wrong
order, and the counts of tiles may be anything. Whatever needs a section finds out when it reads
it. Only the mark and the version decide whether the header is accepted.

A position is kept in ten-millionths of a degree, as it is written. `Header.degrees` is for display
and is the only place where a floating-point number comes out of a header.
-/

set_option autoImplicit false

namespace TileArchive

/-- How a part of the archive is compressed. The header has two of these bytes, one for
directories and metadata and one for payloads. Payloads are handed out as they are stored. -/
inductive Compression where
  /-- The byte is not known; such parts are read as they are. -/
  | unknown
  /-- Stored as it is. -/
  | none
  /-- A gzip member. -/
  | gzip
deriving DecidableEq, Repr, Inhabited

namespace Compression

/-- The compression that a header byte stands for. -/
def ofByte (b : UInt8) : Compression :=
  if b = 1 then .none else if b = 2 then .gzip else .unknown

/-- The header byte of a compression. -/
def toByte : Compression → UInt8
  | .unknown => 0
  | .none => 1
  | .gzip => 2

/-- The name of a compression. -/
def name : Compression → String
  | .unknown => "Unknown"
  | .none => "None"
  | .gzip => "Gzip"

end Compression

/-- What the payloads of an archive are. A reader does not look into payloads, so this only
has a part in the summary of an archive. -/
inductive TileType where
  | unknown
  | mvt
  | png
  | jpeg
  | webp
  | avif
deriving DecidableEq, Repr, Inhabited

namespace TileType

/-- The type that a header byte stands for. -/
def ofByte (b : UInt8) : TileType :=
  if b = 1 then .mvt else if b = 2 then .png else if b = 3 then .jpeg
  else if b = 4 then .webp else if b = 5 then .avif else .unknown

/-- The header byte of a type. -/
def toByte : TileType → UInt8
  | .unknown => 0
  | .mvt => 1
  | .png => 2
  | .jpeg => 3
  | .webp => 4
  | .avif => 5

/-- The name of a type. -/
def name : TileType → String
  | .unknown => "Unknown"
  | .mvt => "Mvt"
  | .png => "Png"
  | .jpeg => "Jpeg"
  | .webp => "Webp"
  | .avif => "Avif"

/-- The short tag under which map clients know a type. -/
def format? : TileType → Option String
  | .unknown => none
  | .mvt => some "pbf"
  | .png => some "png"
  | .jpeg => some "jpg"
  | .webp => some "webp"
  | .avif => some "avif"

end TileType

/-- Offset and length of a section, counted from the start of the archive. Both are words
and nothing ties them to the size of the archive, so a section may lie outside of it or
reach beyond the largest place. -/
structure Section where
  offset : UInt64
  length : UInt64
deriving DecidableEq, Repr, Inhabited

/-- The end of a section, or the largest word where the end does not fit. -/
def Section.stop (s : Section) : UInt64 :=
  Word.addSat s.offset s.length

/-- A place on earth, in units of ten-millionths of a degree. The units are kept as they are
stored, so writing a header loses nothing. -/
structure Position where
  longitude : Int32
  latitude : Int32
deriving DecidableEq, Repr, Inhabited

/-- The description at the head of an archive. It holds every field as it is stored, apart
from four bytes: the flag, the two compressions and the type. Values of these that mean
nothing of their own are not told apart, and `canonicalByte` says what they are written as. -/
structure Header where
  version : UInt8
  rootDirectory : Section
  metadata : Section
  leafDirectories : Section
  tileData : Section
  /-- How many tile numbers have a payload. -/
  addressedTiles : UInt64
  /-- How many run entries all directories have together. -/
  tileEntries : UInt64
  /-- How many different payloads the tile data section holds. -/
  tileContents : UInt64
  /-- Whether payloads are stored in the order of tile numbers. -/
  clustered : Bool
  /-- The compression of directories and metadata. -/
  internalCompression : Compression
  tileCompression : Compression
  tileType : TileType
  minZoom : UInt8
  maxZoom : UInt8
  /-- The south-western corner of the bounds. -/
  southWest : Position
  /-- The north-eastern corner of the bounds. -/
  northEast : Position
  centerZoom : UInt8
  center : Position
deriving DecidableEq, Repr, Inhabited

namespace Header

/-- The number of bytes a header takes. -/
def length : Nat := 127

/-- The letters every archive starts with. -/
def mark : Bytes := [80, 77, 84, 105, 108, 101, 115]

/-- The only version that is read. -/
def supportedVersion : UInt8 := 3

/-- A header that describes an archive without sections. -/
def blank : Header where
  version := supportedVersion
  rootDirectory := ⟨127, 0⟩
  metadata := ⟨0, 0⟩
  leafDirectories := ⟨0, 0⟩
  tileData := ⟨0, 0⟩
  addressedTiles := 0
  tileEntries := 0
  tileContents := 0
  clustered := false
  internalCompression := .none
  tileCompression := .none
  tileType := .unknown
  minZoom := 0
  maxZoom := 0
  southWest := ⟨0, 0⟩
  northEast := ⟨0, 0⟩
  centerZoom := 0
  center := ⟨0, 0⟩

end Header

/-- Why a header cannot be read. They are looked for in this order, so of several faults the
first one here is reported. -/
inductive HeaderError where
  /-- Fewer bytes than a header takes. -/
  | truncated (actual : Nat)
  /-- The archive starts with other letters. -/
  | invalidMark (found : Bytes)
  | unsupportedVersion (version : UInt8)
deriving DecidableEq, Repr

/-- The text of a header error. -/
def HeaderError.message : HeaderError → String
  | .truncated actual =>
    s!"Truncated header: expected {Header.length} bytes, got {actual} bytes"
  | .invalidMark found =>
    let numbers := ", ".intercalate (found.map fun b => toString b.toNat)
    s!"Invalid magic: expected 'PMTiles', got [{numbers}]"
  | .unsupportedVersion version => s!"Unsupported version: {version.toNat}"

namespace Header

/-! ## The written form -/

/-- The eight bytes of a word. -/
def word64 (w : UInt64) : Bytes := Bytes.ofWord 8 w.toNat

/-- The bytes of a section: offset, then length. -/
def sectionBytes (s : Section) : Bytes := word64 s.offset ++ word64 s.length

/-- The bytes of a place: longitude, then latitude. -/
def positionBytes (p : Position) : Bytes :=
  Bytes.ofWord 4 p.longitude.toUInt32.toNat ++ Bytes.ofWord 4 p.latitude.toUInt32.toNat

/-- Writes a header. -/
def encode (h : Header) : Bytes :=
  mark ++ [h.version]
    ++ sectionBytes h.rootDirectory ++ sectionBytes h.metadata
    ++ sectionBytes h.leafDirectories ++ sectionBytes h.tileData
    ++ word64 h.addressedTiles ++ word64 h.tileEntries ++ word64 h.tileContents
    ++ [if h.clustered then 1 else 0, h.internalCompression.toByte,
        h.tileCompression.toByte, h.tileType.toByte, h.minZoom, h.maxZoom]
    ++ positionBytes h.southWest ++ positionBytes h.northEast
    ++ [h.centerZoom] ++ positionBytes h.center

/-- The byte at a place of the data. -/
def byteAt (data : Bytes) (i : Nat) : UInt8 := data.getD i 0

/-- The 64-bit word at a place of the data. -/
def wordAt (data : Bytes) (i : Nat) : UInt64 :=
  UInt64.ofNat (Bytes.toWord (Bytes.slice data i 8))

/-- The section described at a place of the data. -/
def sectionAt (data : Bytes) (i : Nat) : Section :=
  ⟨wordAt data i, wordAt data (i + 8)⟩

/-- The signed 32-bit number at a place of the data. -/
def signedAt (data : Bytes) (i : Nat) : Int32 :=
  (UInt32.ofNat (Bytes.toWord (Bytes.slice data i 4))).toInt32

/-- The place on earth described at a place of the data. -/
def positionAt (data : Bytes) (i : Nat) : Position :=
  ⟨signedAt data i, signedAt data (i + 4)⟩

/-- Reads the fields of a header whose mark and version have been checked. -/
def decodeFields (data : Bytes) : Header where
  version := byteAt data 0x07
  rootDirectory := sectionAt data 0x08
  metadata := sectionAt data 0x18
  leafDirectories := sectionAt data 0x28
  tileData := sectionAt data 0x38
  addressedTiles := wordAt data 0x48
  tileEntries := wordAt data 0x50
  tileContents := wordAt data 0x58
  clustered := byteAt data 0x60 != 0
  internalCompression := .ofByte (byteAt data 0x61)
  tileCompression := .ofByte (byteAt data 0x62)
  tileType := .ofByte (byteAt data 0x63)
  minZoom := byteAt data 0x64
  maxZoom := byteAt data 0x65
  southWest := positionAt data 0x66
  northEast := positionAt data 0x6e
  centerZoom := byteAt data 0x76
  center := positionAt data 0x77

/-- Reads the header at the start of the data and ignores what follows it. -/
def decode (data : Bytes) : Except HeaderError Header :=
  if data.length < length then .error (.truncated data.length)
  else if data.take 7 ≠ mark then .error (.invalidMark (data.take 7))
  else if byteAt data 7 ≠ supportedVersion then
    .error (.unsupportedVersion (byteAt data 7))
  else .ok (decodeFields data)

/-! ## Degrees -/

/-- Ten-millionths of a degree in degrees. -/
def degrees (e7 : Int32) : Float := Float.ofInt e7.toInt / 10000000.0

end Header

end TileArchive
