import TileArchive.Directory.Entry

/-!
# `TileArchive.Directory.Codec`: the written form of a directory

A directory is written column by column: the number of rows, then for all rows the distance
of the tile number from the row before, then all run lengths, all lengths, and all offsets.
An offset code of zero says that the payload starts where the one before it ends; any other
offset is written increased by one.

* `Directory.encode` writes a directory. It fails for rows out of order and for the one
  offset that cannot be increased.
* `Directory.decode` reads one and ignores what follows it. An offset that continues a row
  whose end does not fit a word is taken as the largest word.

The number of rows is not trusted: it is compared with the bytes that are left before any room is
made for the rows. After that the columns are read one by one, and the first number that is cut,
too long or too large ends the reading. An error names the row, or the place of the number among
all bytes; `total` is handed along for that, because a reader only holds what is still unread.

Reading accepts more than writing makes. Tile numbers may repeat, runs may overlap, and numbers may
be in longer forms. What is accepted exactly is `Directory.Format`.
-/

set_option autoImplicit false

namespace TileArchive.Directory

/-! ## Reading -/

/-- Reads the number at the front of `rest`, the unread part of `total` bytes. -/
def decodeNumber (total : Nat) (rest : Bytes) : Except DirectoryError (UInt64 × Bytes) :=
  match Varint.decode rest with
  | .ok found => .ok found
  | .error flaw => .error (.varint flaw (total - rest.length))

/-- Reads the number at a position of some data, and returns the position behind it. An error
names the position where the number starts, which may lie beyond the data. -/
def decodeNumberAt (data : Bytes) (offset : Nat) : Except DirectoryError (UInt64 × Nat) :=
  match Varint.decode (data.drop offset) with
  | .ok (value, rest) => .ok (value, data.length - rest.length)
  | .error flaw => .error (.varint flaw offset)

/-- Reads the tile numbers of `count` rows, each as its distance from the one before. -/
def decodeIds (total : Nat) :
    (count index : Nat) → (last : UInt64) → Bytes →
      Except DirectoryError (List UInt64 × Bytes)
  | 0, _, _, rest => .ok ([], rest)
  | count + 1, index, last, rest => do
    let (delta, rest) ← decodeNumber total rest
    -- The sum of the words would wrap unseen.
    if Word.largest < last.toNat + delta.toNat then throw (.tileIdOverflow index)
    let id := last + delta
    let (ids, rest) ← decodeIds total count (index + 1) id rest
    return (id :: ids, rest)

/-- Reads a 32-bit column of `count` rows. -/
def decodeColumn (total : Nat) (column : Column) :
    (count index : Nat) → Bytes → Except DirectoryError (List UInt32 × Bytes)
  | 0, _, rest => .ok ([], rest)
  | count + 1, index, rest => do
    let (value, rest) ← decodeNumber total rest
    if Word.largest32 < value.toNat then throw (.fieldOverflow column index value)
    let (values, rest) ← decodeColumn total column count (index + 1) rest
    return (value.toUInt32 :: values, rest)

/-- The offset that a code stands for after a row that ends at `previous`. -/
def offsetOfCode (previous : Option UInt64) (code : UInt64) : Option UInt64 :=
  if code = 0 then previous else some (code - 1)

/-- Reads the offsets of rows with the given lengths. -/
def decodeOffsets (total : Nat) :
    (lengths : List UInt32) → (previous : Option UInt64) → Bytes →
      Except DirectoryError (List UInt64 × Bytes)
  | [], _, rest => .ok ([], rest)
  | length :: lengths, previous, rest => do
    let (code, rest) ← decodeNumber total rest
    match offsetOfCode previous code with
    | none => throw .noPredecessor
    | some offset =>
      let next := Word.addSat offset length.toUInt64
      let (offsets, rest) ← decodeOffsets total lengths (some next) rest
      return (offset :: offsets, rest)

/-- The rows with the given columns. -/
def ofColumns : List UInt64 → List UInt32 → List UInt32 → List UInt64 → List Entry
  | id :: ids, run :: runs, length :: lengths, offset :: offsets =>
    ⟨id, offset, length, run⟩ :: ofColumns ids runs lengths offsets
  | _, _, _, _ => []

/-- Reads a directory and returns the bytes that follow it. -/
def decodeRest (data : Bytes) : Except DirectoryError (Directory × Bytes) := do
  let total := data.length
  let (count, rest) ← decodeNumber total data
  -- Every row takes at least one byte in each of the four columns.
  if rest.length < count.toNat * 4 then throw (.countTooLarge count rest.length)
  let n := count.toNat
  let (ids, rest) ← decodeIds total n 0 0 rest
  let (runs, rest) ← decodeColumn total .runLength n 0 rest
  let (lengths, rest) ← decodeColumn total .length n 0 rest
  let (offsets, rest) ← decodeOffsets total lengths none rest
  return (⟨ofColumns ids runs lengths offsets⟩, rest)

/-- Reads a directory. -/
def decode (data : Bytes) : Except DirectoryError Directory :=
  (decodeRest data).map (·.1)

/-! ## Writing -/

/-- Writes the tile numbers of rows, each as its distance from the one before. -/
def encodeIds : (index : Nat) → (last : UInt64) → List Entry → Except DirectoryError Bytes
  | _, _, [] => .ok []
  | index, last, e :: es => do
    if e.tileId < last then throw (.unsorted index)
    let rest ← encodeIds (index + 1) e.tileId es
    return Varint.encode (e.tileId - last) ++ rest

/-- The code of an offset after a row that ends at `previous`. -/
def codeOfOffset (previous : Option Nat) (offset : UInt64) : Option UInt64 :=
  -- The end of a row may lie beyond the largest word, where no offset continues it.
  if previous = some offset.toNat then some 0
  else if offset.toNat < Word.largest then some (offset + 1)
  else none

/-- Writes the offsets of rows. -/
def encodeOffsets : (index : Nat) → (previous : Option Nat) → List Entry →
    Except DirectoryError Bytes
  | _, _, [] => .ok []
  | index, previous, e :: es => do
    match codeOfOffset previous e.offset with
    | none => throw (.offsetOverflow index)
    | some code =>
      let rest ← encodeOffsets (index + 1) (some e.stop) es
      return Varint.encode code ++ rest

/-- Writes a 32-bit column. -/
def encodeColumn (value : Entry → UInt32) (es : List Entry) : Bytes :=
  es.flatMap fun e => Varint.encode (value e).toUInt64

/-- Writes a directory. -/
def encode (d : Directory) : Except DirectoryError Bytes := do
  let ids ← encodeIds 0 0 d.entries
  let offsets ← encodeOffsets 0 none d.entries
  return Varint.encode (UInt64.ofNat d.size) ++ ids ++ encodeColumn Entry.runLength d.entries
    ++ encodeColumn Entry.length d.entries ++ offsets

end TileArchive.Directory
