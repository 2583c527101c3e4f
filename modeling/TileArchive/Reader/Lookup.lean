import TileArchive.Directory.Search
import TileArchive.Reader.Sections

/-!
# `TileArchive.Reader.Lookup`: the payload of one tile

A look-up starts at the root directory. The row responsible for the tile either holds the
payload or points to a leaf directory, where the look-up goes on. At most four directories
are visited; a tile that lies deeper counts as absent.

Directories, payloads and metadata are shared between all who ask for them, so a look-up
does not read them itself. It is a `Query`, a computation that asks for them by `Need`.

A tile is absent where no row is responsible for it, where it lies too deep, and where its
coordinate lies outside of the grid (`lookUpAt`). None of these is an error. An empty payload is
present: a row with a length of zero is read like any other.

The bound on directories also makes a look-up end in an archive whose pointers lead in a circle.
-/

set_option autoImplicit false

namespace TileArchive

/-- What a query may ask for. The kind decides where an answer comes from: bytes always from
the source, directories and payloads from their caches where they hold them, and the
metadata from their turnstile once they are made. -/
inductive Need where
  /-- Bytes that are read anew every time. -/
  | bytes (range : ByteRange)
  /-- The directory in a range. -/
  | directory (range : ByteRange)
  /-- The payload in a range. -/
  | payload (range : ByteRange)
  | metadata
deriving DecidableEq, Repr

/-- What a need is answered with. -/
def Need.Answer : Need → Type
  | .bytes _ => Except IoError Bytes
  | .directory _ => Except ReadError Directory
  | .payload _ => Except ReadError Bytes
  | .metadata => Except ReadError Metadata

/-- A computation that reads from an archive and shares what it reads. -/
abbrev Query (α : Type) : Type := Dialogue Need Need.Answer α

/-- A computation that shares nothing. -/
def Fetch.toQuery {α : Type} : Fetch α → Query α
  | .done result => .done result
  | .ask range next => .ask (.bytes range) fun answer => toQuery (next answer)

/-- The most directories that are visited on the way to a payload. -/
def maxDirectories : Nat := 4

/-- Looks a tile number up, starting at the directory in a range and visiting at most
`depth` directories. -/
def descend (h : Header) (id : UInt64) :
    (depth : Nat) → ByteRange → Query (Except ReadError (Option Bytes))
  | 0, _ => .done (.ok none)
  | depth + 1, range =>
    .ask (.directory range) fun
      | .error e => .done (.error e)
      | .ok directory =>
        match directory.find? id with
        | none => .done (.ok none)
        | some e =>
          if e.isPointer then descend h id depth (h.leafRange e)
          else .ask (.payload (h.payloadRange e)) fun payload => .done (payload.map some)

/-- Looks a tile up. -/
def lookUp (h : Header) (c : TileCoord) : Query (Except ReadError (Option Bytes)) :=
  match h.rootRange with
  | .error e => .done (.error e)
  | .ok range => descend h c.tileId maxDirectories range

/-- Looks up the tile with a zoom, column and row. Outside the grid there are no tiles. -/
def lookUpAt (h : Header) (z x y : Nat) : Query (Except ReadError (Option Bytes)) :=
  match TileCoord.of? z x y with
  | .error _ => .done (.ok none)
  | .ok c => lookUp h c

end TileArchive
