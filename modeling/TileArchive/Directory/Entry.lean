import TileArchive.Varint

/-!
# `TileArchive.Directory.Entry`: rows of a directory

A directory is a list of rows in the order of tile numbers. A *run* says that a stretch of
consecutive tiles shares one payload and where the payload lies in the tile data section.
A *pointer*, written as a run of length zero, says where another directory lies in the leaf
directory section; that directory is responsible for all tiles from the pointer's number up
to the next row.

The order is what a directory ought to have and is no part of its type, since a directory that was
read may have repeated numbers and overlapping runs, and one made by hand may have anything. What
needs the order asks for it as a hypothesis. A run may reach beyond the largest tile number, so its
end is a natural number (`Entry.stop` likewise for the end of a payload).
-/

set_option autoImplicit false

namespace TileArchive

/-- One row of a directory. A row with tiles says where the payload lies that they share. A
row without tiles is a pointer: it says where the leaf directory lies that tells more about
the numbers from its own up to that of the next row. -/
structure Entry where
  /-- The first tile number the row is about. -/
  tileId : UInt64
  /-- Where the payload or the leaf directory starts, counted from its section's start. -/
  offset : UInt64
  /-- The length of the payload or of the leaf directory. -/
  length : UInt32
  /-- How many consecutive tiles share the payload; zero for a pointer. -/
  runLength : UInt32
deriving DecidableEq, Repr, Inhabited

namespace Entry

/-- A pointer to a leaf directory. -/
def pointer (tileId offset : UInt64) (length : UInt32) : Entry :=
  ⟨tileId, offset, length, 0⟩

/-- Whether the row points to a leaf directory. -/
def isPointer (e : Entry) : Bool :=
  e.runLength == 0

/-- Whether a tile number lies in the run; never so for a pointer. -/
def covers (e : Entry) (id : UInt64) : Bool :=
  e.tileId.toNat ≤ id.toNat && id.toNat - e.tileId.toNat < e.runLength.toNat

/-- Where the payload or leaf directory ends, counted from its section's start. -/
def stop (e : Entry) : Nat :=
  e.offset.toNat + e.length.toNat

end Entry

/-- A directory: rows in the order of their tile numbers. Nothing enforces the order, since
a directory may also be made by hand. -/
structure Directory where
  entries : List Entry
deriving DecidableEq, Repr, Inhabited

/-- The 32-bit columns of a written directory. They are read and written alike, and are told
apart only in the error for a number that does not fit. -/
inductive Column where
  | runLength
  | length
deriving DecidableEq, Repr

/-- The name of a column in error texts. -/
def Column.name : Column → String
  | .runLength => "run length"
  | .length => "length"

/-- Why a directory cannot be read or written. The first five come from reading and the last
two from writing, which may refuse rows that were made by hand. An index is that of the row
in question. -/
inductive DirectoryError where
  /-- The number that starts at the offset is cut off or too long. -/
  | varint (flaw : Varint.Flaw) (offset : Nat)
  /-- More rows are announced than the remaining bytes can hold. -/
  | countTooLarge (count : UInt64) (remaining : Nat)
  /-- A value of a 32-bit column needs more bits. -/
  | fieldOverflow (column : Column) (index : Nat) (value : UInt64)
  /-- The tile number of a row does not fit a word. -/
  | tileIdOverflow (index : Nat)
  /-- The first row claims to continue a row before it. -/
  | noPredecessor
  /-- The tile number of a row is lower than that of the row before it. -/
  | unsorted (index : Nat)
  /-- The offset of a row leaves no room for the marker that is added to it. -/
  | offsetOverflow (index : Nat)
deriving DecidableEq, Repr

/-- The text of a directory error. -/
def DirectoryError.message : DirectoryError → String
  | .varint .truncated offset => s!"Truncated varint at offset {offset}"
  | .varint .overflow offset => s!"Varint overflow at offset {offset}"
  | .countTooLarge count remaining =>
    s!"Entry count {count.toNat} exceeds what {remaining} remaining bytes can hold"
  | .fieldOverflow column index value =>
    s!"{column.name} {value.toNat} of entry {index} does not fit in 32 bits"
  | .tileIdOverflow index => s!"Tile id overflow at entry {index}"
  | .noPredecessor => "Entry 0 has no previous entry to continue its offset from"
  | .unsorted index => s!"Entry {index} is out of tile id order"
  | .offsetOverflow index => s!"Offset of entry {index} is too large to encode"

namespace Directory

/-- The directory without rows. -/
def empty : Directory := ⟨[]⟩

/-- The number of rows. -/
def size (d : Directory) : Nat := d.entries.length

end Directory

end TileArchive
