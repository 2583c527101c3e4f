import TileArchive.Reader.Walker

/-!
# `TileArchive.Reader.Listing`: listing all tiles

A listing goes through all rows with a walker and expands every run into its tiles. It ends
where the walk ends, at an error, or after as many items as asked for; in the last case
nothing is read beyond what those items need.

* `listCoords` lists the coordinates, and reads directories only.
* `listTiles` lists the tiles with their payloads, and reads the payload of every run once.

Tiles come in the order in which the walk meets them, which is the order of tile numbers where the
directories are in order. The items of a listing that failed are those that were found before the
error. A run goes through tile numbers one by one and fails at the first that no zoom has, so the
tiles in front of it are still listed.

Nothing is shared with look-ups: directories and payloads are read anew by every listing, and none
of them is remembered.
-/

set_option autoImplicit false

namespace TileArchive

/-- A tile and its payload. The payload is as it is stored, which may be compressed. -/
structure Tile where
  coord : TileCoord
  payload : Bytes
deriving DecidableEq

/-- Why a listing ends. A listing that was stopped has as many tiles as were asked for, and
there may be more of them in the archive. -/
inductive Ending where
  /-- There are no more tiles. -/
  | complete
  /-- No more tiles were asked for. -/
  | stopped
  | failed (error : ReadError)
deriving DecidableEq, Repr

/-- The items of a listing and why it ends. Items that were found before an error are part
of it, so a failed listing still tells them. -/
structure Listing (α : Type) where
  items : List α
  ending : Ending
deriving DecidableEq

/-- The number of items, or the error that ended the listing. For a visit this is the number that
it counts itself (`run_countTiles`). -/
def Listing.tally {α : Type} (l : Listing α) : Except ReadError Nat :=
  match l.ending with
  | .failed e => .error e
  | _ => .ok l.items.length

/-- The items found so far, the last one first, and how many more may follow. It is what a
listing hands on from one event of the walk to the next. -/
structure Gathering (α : Type) where
  found : List α
  /-- The number of items that may follow, if there is a limit. -/
  room : Option Nat
deriving DecidableEq

namespace Gathering

variable {α : Type}

/-- Nothing found so far. -/
def new (limit : Option Nat) : Gathering α := ⟨[], limit⟩

/-- Adds an item. -/
def add (g : Gathering α) (item : α) : Gathering α := ⟨item :: g.found, g.room.map (· - 1)⟩

/-- Whether no more items may follow. -/
def full (g : Gathering α) : Bool := g.room == some 0

/-- The listing of what was found. -/
def ended (g : Gathering α) (ending : Ending) : Listing α := ⟨g.found.reverse, ending⟩

/-- Adds an item for each of `count` tile numbers from `id` on. -/
def addRun (make : TileCoord → α) :
    (count : Nat) → (id : UInt64) → Gathering α → Gathering α ⊕ Listing α
  | 0, _, g => .inl g
  | count + 1, id, g =>
    match TileCoord.ofTileId id with
    | .error e => .inr (g.ended (.failed (.tileId e)))
    | .ok c =>
      let g := g.add (make c)
      if g.full then .inr (g.ended .stopped)
      else addRun make count (Word.addSat id 1) g

/-- Adds an item for each tile of a run. -/
def addEntry (make : TileCoord → α) (e : Entry) (g : Gathering α) :
    Gathering α ⊕ Listing α :=
  g.addRun make e.runLength.toNat e.tileId

end Gathering

/-- The ending that an error or its absence makes. -/
def Ending.ofError : Option ReadError → Ending
  | none => .complete
  | some e => .failed e

/-- Lists what `onRun` finds in the runs of an archive. -/
def listRuns {α : Type} (h : Header)
    (onRun : Entry → Gathering α → Fetch (Gathering α ⊕ Listing α)) (limit : Option Nat) :
    Fetch (Listing α) :=
  if limit = some 0 then .done ⟨[], .stopped⟩
  else match Walker.start h with
    | .error e => .done ⟨[], .failed e⟩
    | .ok w =>
      w.drive h
        (fun g event => match event with
          | .run e => onRun e g
          | .pointer => .done (.inl g)
          | .leave => .done (.inl g))
        (fun g error => .done (g.ended (.ofError error)))
        (.new limit)

/-- Lists the coordinates of all tiles. -/
def listCoords (h : Header) (limit : Option Nat) : Fetch (Listing TileCoord) :=
  listRuns h (fun e g => .done (g.addEntry id e)) limit

/-- Lists all tiles. -/
def listTiles (h : Header) (limit : Option Nat) : Fetch (Listing Tile) :=
  listRuns h (fun e g =>
    (fetchBytes (h.payloadRange e)).bind fun
      | .error error => .done (.inr (g.ended (.failed error)))
      | .ok payload => .done (g.addEntry (Tile.mk · payload) e)) limit

end TileArchive
