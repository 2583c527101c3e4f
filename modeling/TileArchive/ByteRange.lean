import TileArchive.Bytes

/-!
# `TileArchive.ByteRange`: stretches of an archive

A byte range is what a source is asked for and what both caches of a reader are keyed by:
a directory or a payload is known by where its bytes lie.

Two ranges are the same if offset and length are, so stretches that overlap, or that begin at the
same byte, are different keys. A range may reach beyond the largest word; its end is then taken
to be the largest word, which no archive has a byte at.
-/

set_option autoImplicit false

namespace TileArchive

/-- A stretch of an archive: the place of its first byte and the number of bytes. The place
is a word, while the length has only half of one, which is what a single read can be asked
for. A range may reach beyond the last place that a word can tell. -/
structure ByteRange where
  offset : UInt64
  length : UInt32
deriving DecidableEq, Repr, Inhabited

namespace ByteRange

/-- One past the last byte, or the largest word where that does not fit. -/
def stop (r : ByteRange) : UInt64 :=
  Word.addSat r.offset r.length.toUInt64

/-- Whether the range has no bytes. -/
def isEmpty (r : ByteRange) : Bool :=
  r.length == 0

/-- The range as text: offset and length around a plus sign. -/
def text (r : ByteRange) : String :=
  s!"{r.offset.toNat}+{r.length.toNat}"

/-- Whether a range comes no later than another by offset, then length. -/
def le (a b : ByteRange) : Bool :=
  a.offset < b.offset || (a.offset == b.offset && a.length ≤ b.length)

/-- Ranges by offset, then length. -/
def sort (rs : List ByteRange) : List ByteRange :=
  rs.mergeSort le

end ByteRange

end TileArchive
