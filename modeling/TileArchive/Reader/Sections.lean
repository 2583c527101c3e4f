import TileArchive.Compression
import TileArchive.Dialogue
import TileArchive.Directory.Codec
import TileArchive.Reader.Error

/-!
# `TileArchive.Reader.Sections`: finding and reading the parts of an archive

The header says where the sections of an archive lie, and rows of directories say where
leaf directories and payloads lie in theirs. Positions that do not fit a word are taken as
the largest word; no archive has bytes there.

* `rootRange`, `leafRange`, `payloadRange` and `metadataRange` find the parts.
* `loadDirectory`, `loadPayload` and `loadMetadata` read them. A directory without bytes is
  the directory without rows, and metadata without bytes are those of an archive that has
  none; neither is read.

The root directory and the metadata are whole sections. Their length is a word in the header and
half a word in a read, so a section that is too long is refused without reading. The length is taken
as the distance from the start to the end, and an end beyond the largest word is that word; so a
section that reaches beyond it is read as a shorter one, down to none at all.

Leaf directories and payloads have half words for lengths. Nothing checks that they lie within their
section: a row may point anywhere in the archive, or behind its end.
-/

set_option autoImplicit false

namespace TileArchive

/-- The range of a section, which has to fit one read. -/
def Section.range? (s : Section) (name : String) : Except ReadError ByteRange :=
  let length := s.stop.toNat - s.offset.toNat
  if length ≤ Word.largest32 then .ok ⟨s.offset, UInt32.ofNat length⟩
  else .error (.io (.of .invalidData s!"The {name} is too large to read: {length} bytes"))

namespace Header

/-- The range of the root directory. -/
def rootRange (h : Header) : Except ReadError ByteRange :=
  h.rootDirectory.range? "root directory"

/-- The range of the metadata. -/
def metadataRange (h : Header) : Except ReadError ByteRange :=
  h.metadata.range? "metadata blob"

/-- The range of the leaf directory that a row points to. -/
def leafRange (h : Header) (e : Entry) : ByteRange :=
  ⟨Word.addSat h.leafDirectories.offset e.offset, e.length⟩

/-- The range of the payload of a row. -/
def payloadRange (h : Header) (e : Entry) : ByteRange :=
  ⟨Word.addSat h.tileData.offset e.offset, e.length⟩

end Header

/-- Reads a range. -/
def fetchBytes (range : ByteRange) : Fetch (Except ReadError Bytes) :=
  .ask range fun answer => .done (answer.mapError .io)

/-- Unwraps some bytes as the header says. -/
def unwrapSection (h : Header) (data : Bytes) : Except ReadError Bytes :=
  (h.internalCompression.unwrap data).mapError .compression

/-- The directory that stored bytes hold. -/
def decodeDirectory (h : Header) (data : Bytes) : Except ReadError Directory := do
  (Directory.decode (← unwrapSection h data)).mapError .directory

/-- The metadata that stored bytes hold. -/
def decodeMetadata (h : Header) (data : Bytes) : Except ReadError Metadata := do
  (Metadata.decode (← unwrapSection h data)).mapError .metadata

/-- Reads a directory. -/
def loadDirectory (h : Header) (range : ByteRange) : Fetch (Except ReadError Directory) :=
  if range.isEmpty then .done (.ok .empty)
  else (fetchBytes range).bind fun data => .done (data >>= decodeDirectory h)

/-- Reads a payload. -/
def loadPayload (range : ByteRange) : Fetch (Except ReadError Bytes) := fetchBytes range

/-- Reads the metadata. -/
def loadMetadata (h : Header) : Fetch (Except ReadError Metadata) :=
  match h.metadataRange with
  | .error e => .done (.error e)
  | .ok range =>
    if range.isEmpty then .done (.ok .empty)
    else (fetchBytes range).bind fun data => .done (data >>= decodeMetadata h)

end TileArchive
