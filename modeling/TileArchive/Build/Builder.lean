import TileArchive.Build.Layout
import TileArchive.Compression
import TileArchive.Directory.Codec
import TileArchive.TileCoord

/-!
# `TileArchive.Build.Builder`: making small archives

A `Builder` collects tiles and says how the archive is to be stored. `Builder.build` makes
the archive: consecutive tiles with the same payload become one run, the same payload
elsewhere is stored once, and rows are spread over leaf directories where there are more of
them than a leaf may hold. `Builder.buildWith` leaves open how gzip members are made.

## What is packed

Directories and metadata are packed as the internal compression says. Payloads are stored as they
were given: the compression of payloads is only noted in the header, for whoever made them knows
whether they are packed. An unknown internal compression packs nothing.

## Where it may go wrong

Lengths, counts and offsets are cut to the words that hold them, without a check. An archive whose
sections are longer than a read, or a run of more tiles than half a word counts, is therefore made
without an error and says something wrong. `Builder.Fits` names the conditions under which
nothing is cut. The only error is that of writing a directory.

The work is done once for all tiles, in the order of their numbers: `Draft` is the state of this
work, and `Draft.addTile` takes in one tile.
-/

set_option autoImplicit false

namespace TileArchive

/-- The tiles of an archive to be made, and how it is to be stored. The tiles are kept in
the order of their numbers with one payload each, so a tile that is added twice has the
payload that came last. The zooms are kept along for the header to tell. -/
structure Builder where
  /-- Payloads by tile number, in the order of the numbers. -/
  tiles : List (UInt64 × Bytes)
  /-- The lowest and the highest zoom of a tile. -/
  zooms : Option (Nat × Nat)
  /-- The metadata text. -/
  metadata : Bytes
  internalCompression : Compression
  tileCompression : Compression
  tileType : TileType
  /-- The most rows of a leaf directory; without it all rows are in the root directory. -/
  leafSize : Option Nat
deriving DecidableEq, Repr

namespace Builder

/-- A builder without tiles. -/
def empty : Builder := ⟨[], none, [], .none, .none, .unknown, none⟩

/-- Puts a payload in the order of tile numbers, in place of one with the same number. -/
def putTile (id : UInt64) (payload : Bytes) : List (UInt64 × Bytes) → List (UInt64 × Bytes)
  | [] => [(id, payload)]
  | tile :: tiles =>
    if id < tile.1 then (id, payload) :: tile :: tiles
    else if tile.1 < id then tile :: putTile id payload tiles
    else (id, payload) :: tiles

/-- Adds a tile, in place of an earlier one at the same coordinate. -/
def add (b : Builder) (c : TileCoord) (payload : Bytes) : Builder :=
  { b with
    tiles := putTile c.tileId payload b.tiles
    zooms := match b.zooms with
      | none => some (c.z, c.z)
      | some (low, high) => some (min low c.z, max high c.z) }

/-- Sets the most rows of a leaf directory; a leaf holds at least one. -/
def withLeafSize (b : Builder) (size : Nat) : Builder := { b with leafSize := some (max size 1) }

/-! ## Rows and tile data -/

/-- The rows and the tile data made so far. Tiles are taken in one by one in the order of
their numbers. Rows are kept with the last one first, because a tile is only ever compared
with the last row. -/
structure Draft where
  /-- The rows, the last one first, each with its payload. -/
  rows : List (Entry × Bytes)
  /-- Where each payload is stored, the last one first. -/
  stored : List (Bytes × UInt64)
  tileData : Bytes
deriving DecidableEq, Repr

namespace Draft

/-- Nothing made so far. -/
def empty : Draft := ⟨[], [], []⟩

/-- Where a payload is stored, if it is. -/
def offset? (d : Draft) (payload : Bytes) : Option UInt64 :=
  (d.stored.find? fun s => s.1 = payload).map (·.2)

/-- Stores a payload unless it is stored already, and says where. -/
def store (d : Draft) (payload : Bytes) : Draft × UInt64 :=
  match d.offset? payload with
  | some offset => (d, offset)
  | none =>
    -- New payloads go behind all that is stored.
    let offset := UInt64.ofNat d.tileData.length
    ({ d with stored := (payload, offset) :: d.stored, tileData := d.tileData ++ payload }, offset)

/-- Adds a row of one tile. -/
def addRow (d : Draft) (id : UInt64) (payload : Bytes) : Draft :=
  match d.store payload with
  | (d, offset) =>
    { d with rows := (⟨id, offset, UInt32.ofNat payload.length, 1⟩, payload) :: d.rows }

/-- Whether a tile continues a row: its number is the next and its payload the same. -/
def continues (row : Entry × Bytes) (id : UInt64) (payload : Bytes) : Bool :=
  row.1.tileId.toNat + row.1.runLength.toNat == id.toNat && row.2 == payload

/-- Adds a tile with a higher number than all before. -/
def addTile (d : Draft) (tile : UInt64 × Bytes) : Draft :=
  match d.rows with
  | row :: rows =>
    -- Only the last row can be continued, since the numbers increase.
    if continues row tile.1 tile.2 then
      let longer := { row.1 with runLength := row.1.runLength + 1 }
      { d with rows := (longer, row.2) :: rows }
    else d.addRow tile.1 tile.2
  | [] => d.addRow tile.1 tile.2

/-- The number of tiles in the rows made so far. -/
def addressed (d : Draft) : Nat :=
  d.rows.foldl (fun count row => count + row.1.runLength.toNat) 0

/-- The rows made so far, in order. -/
def entries (d : Draft) : List Entry := d.rows.reverse.map (·.1)

end Draft

/-- The rows and the tile data of all tiles. -/
def draft (b : Builder) : Draft := b.tiles.foldl Draft.addTile .empty

/-! ## Directories -/

/-- The stored form of a directory with some rows. -/
def storeDirectory (b : Builder) (gzip : Bytes → Bytes) (entries : List Entry) :
    Except DirectoryError Bytes :=
  (Directory.encode ⟨entries⟩).map (b.internalCompression.wrapWith gzip)

/-- Cuts a list into pieces of at most `size + 1` items. -/
def pieces {α : Type} (size : Nat) (items : List α) : List (List α) :=
  match items with
  | [] => []
  | item :: rest => (item :: rest.take size) :: pieces size (rest.drop size)
termination_by items.length
decreasing_by simp only [List.length_drop, List.length_cons]; omega

/-- Stores leaf directories one after another from `offset` on, and returns their pointers
and bytes. -/
def storeLeaves (b : Builder) (gzip : Bytes → Bytes) : (offset : Nat) → List (List Entry) →
    Except DirectoryError (List Entry × Bytes)
  | _, [] => .ok ([], [])
  | offset, entries :: rest => do
    let leaf ← b.storeDirectory gzip entries
    -- The next leaf lies right behind this one.
    let (pointers, bytes) ← b.storeLeaves gzip (offset + leaf.length) rest
    let first := (entries.head?.map Entry.tileId).getD 0
    return (.pointer first (UInt64.ofNat offset) (UInt32.ofNat leaf.length) :: pointers,
      leaf ++ bytes)

/-- The rows of the root directory, and the stored leaf directories. Rows are spread over
leaves only where there are more of them than a leaf may hold. -/
def spread (b : Builder) (gzip : Bytes → Bytes) (entries : List Entry) :
    Except DirectoryError (List Entry × Bytes) :=
  match b.leafSize with
  | some size =>
    if size < entries.length then b.storeLeaves gzip 0 (pieces (size - 1) entries)
    else .ok (entries, [])
  | none => .ok (entries, [])

/-- The stored root directory and leaf directories. -/
def storeDirectories (b : Builder) (gzip : Bytes → Bytes) (entries : List Entry) :
    Except DirectoryError (Bytes × Bytes) := do
  let (rows, leaves) ← b.spread gzip entries
  return (← b.storeDirectory gzip rows, leaves)

/-! ## Archives -/

/-- The header of the archive, except for where its sections lie. -/
def header (b : Builder) (d : Draft) : Header :=
  let (low, high) := b.zooms.getD (0, 0)
  { Header.blank with
    addressedTiles := UInt64.ofNat d.addressed
    tileEntries := UInt64.ofNat d.rows.length
    tileContents := UInt64.ofNat d.stored.length
    clustered := true
    internalCompression := b.internalCompression
    tileCompression := b.tileCompression
    tileType := b.tileType
    minZoom := UInt8.ofNat low
    maxZoom := UInt8.ofNat high
    centerZoom := UInt8.ofNat low }

/-- The stored metadata. -/
def storeMetadata (b : Builder) (gzip : Bytes → Bytes) : Bytes :=
  if b.metadata.isEmpty then [] else b.internalCompression.wrapWith gzip b.metadata

/-- The sections of the archive. -/
def sections (b : Builder) (gzip : Bytes → Bytes) : Except DirectoryError Sections := do
  let (root, leaves) ← b.storeDirectories gzip b.draft.entries
  return ⟨root, b.storeMetadata gzip, leaves, b.draft.tileData⟩

/-- Makes the archive, given what makes gzip members. -/
def buildWith (b : Builder) (gzip : Bytes → Bytes) : Except DirectoryError Bytes :=
  (b.sections gzip).map fun s => s.assemble (b.header b.draft)

/-- Makes the archive, with gzip members that store their data as they are. -/
def build (b : Builder) : Except DirectoryError Bytes := b.buildWith Gzip.gzip

end Builder

end TileArchive
