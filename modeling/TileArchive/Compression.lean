import TileArchive.Gzip.Member
import TileArchive.Header

/-!
# `TileArchive.Compression`: wrapping and unwrapping parts of an archive

Directories and metadata are stored as the header says: as they are, or as gzip members.
A compression that is not known counts as none.

Unwrapping is one function. Wrapping is given the packer of gzip members, because the same
data may be packed in many ways and an archive says nothing about which was used. All that
is ever asked of a packer is that `Gzip.gunzip` undoes it, and that only where the header
says that something is packed (`Builder.Wraps`).

The compression of tiles is another matter: payloads are handed out as they are stored, and
nothing here is applied to them.
-/

set_option autoImplicit false

namespace TileArchive.Compression

/-- Undoes a compression. -/
def unwrap (c : Compression) (data : Bytes) : Except Gzip.GzipError Bytes :=
  match c with
  | .unknown => .ok data
  | .none => .ok data
  | .gzip => Gzip.gunzip data

/-- Applies a compression. What makes gzip members is given: there are many ways to compress
the same data. -/
def wrapWith (gzip : Bytes → Bytes) (c : Compression) (data : Bytes) : Bytes :=
  match c with
  | .unknown => data
  | .none => data
  | .gzip => gzip data

/-- Applies a compression, with gzip members that store the data as they are. -/
def wrap (c : Compression) (data : Bytes) : Bytes := c.wrapWith Gzip.gzip data

end TileArchive.Compression
