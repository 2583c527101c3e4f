import TileArchive.Reader.Listing

/-!
# `TileArchive.Reader.Visit`: visiting all tiles with few reads

A visit finds the same tiles as a listing, but reads the payloads of neighbouring runs
together. Runs of one directory are gathered in a `Chunk` as long as what they span, from
the lowest start to the highest end, stays below a threshold. The chunk is read before the
walker enters another directory, at the end of every directory, and when a run does not fit
any more; that run then begins the next chunk, however long it is.

A chunk has been used up when it was read: its runs are gone, and its start and stop say nothing
any more. A visit goes on with the empty chunk then. It makes no difference if a chunk without
runs keeps the start and the stop that it had, as `extend?_of_no_entries` and
`flush_of_no_entries` show: both are set anew by the first run, and nothing is read before that.

`visitTiles` gives the tiles that are handed out, in order, and why the visit ends. The visit also
counts the tiles while it hands them out, chunk by chunk, and its caller gets the sum.
`countTiles` is the same visit with the count in the place of the tiles. The tiles and the count
belong together, so that only one of the two has to be run for an answer (`run_countTiles`).
-/

set_option autoImplicit false

namespace TileArchive

/-- Runs that are read together, and the span of their payloads. The span grows with the
runs and is not computed from them anew. That it is the right one is `Chunk.Tight`, an
invariant of the visit. -/
structure Chunk where
  entries : List Entry
  start : UInt64
  stop : UInt64
deriving DecidableEq, Repr

namespace Chunk

/-- The chunk without runs. -/
def empty : Chunk := ⟨[], 0, 0⟩

/-- The chunk of one run. -/
def single (h : Header) (e : Entry) : Chunk :=
  ⟨[e], (h.payloadRange e).offset, (h.payloadRange e).stop⟩

/-- The number of bytes that a chunk spans. -/
def span (c : Chunk) : Nat := c.stop.toNat - c.start.toNat

/-- The chunk with one more run. -/
def add (h : Header) (c : Chunk) (e : Entry) : Chunk :=
  let range := h.payloadRange e
  if c.entries.isEmpty then single h e
  else ⟨c.entries ++ [e], min c.start range.offset, max c.stop range.stop⟩

/-- The chunk with one more run, if its span stays below a threshold. -/
def extend? (h : Header) (threshold : UInt64) (c : Chunk) (e : Entry) : Option Chunk :=
  let longer := c.add h e
  if longer.span < threshold.toNat then some longer else none

/-- The payload of a run within the bytes read for a chunk. A run that fills the chunk gets
all of them. -/
def payload? (h : Header) (c : Chunk) (data : Bytes) (e : Entry) : Option Bytes :=
  let start := (h.payloadRange e).offset.toNat - c.start.toNat
  -- A chunk of one run is not cut.
  if start = 0 ∧ e.length.toNat = c.span then some data
  else if start + e.length.toNat ≤ data.length then
    some (Bytes.slice data start e.length.toNat)
  else none

/-- Adds the tiles of some runs of a chunk. -/
def handOut (h : Header) (c : Chunk) (data : Bytes) :
    List Entry → Gathering Tile → Gathering Tile ⊕ Listing Tile
  | [], g => .inl g
  | e :: es, g =>
    match c.payload? h data e with
    | none => .inr (g.ended (.failed (.io (.of .unexpectedEof "Coalesced read was short"))))
    | some payload =>
      match g.addEntry (Tile.mk · payload) e with
      | .inl g => handOut h c data es g
      | .inr listing => .inr listing

/-- The error for a chunk that one read cannot span. -/
def tooLarge (c : Chunk) : ReadError :=
  .io (.of .invalidData s!"Coalesced read of {c.span} bytes is too large")

/-- Reads a chunk and adds its tiles. -/
def flush (h : Header) (c : Chunk) (g : Gathering Tile) :
    Fetch (Gathering Tile ⊕ Listing Tile) :=
  if c.entries.isEmpty then .done (.inl g)
  else if Word.largest32 < c.span then .done (.inr (g.ended (.failed c.tooLarge)))
  else
    (fetchBytes ⟨c.start, UInt32.ofNat c.span⟩).bind fun
      | .error error => .done (.inr (g.ended (.failed error)))
      | .ok data => .done (c.handOut h data c.entries g)

/-- The first run sets start and stop anew. So a chunk without runs is extended as the empty chunk
is, whatever its start and stop are. -/
theorem extend?_of_no_entries (h : Header) (threshold : UInt64) (start stop : UInt64) (e : Entry) :
    (⟨[], start, stop⟩ : Chunk).extend? h threshold e = Chunk.empty.extend? h threshold e := rfl

/-- Nothing is read for a chunk without runs, whatever its start and stop are. -/
theorem flush_of_no_entries (h : Header) (start stop : UInt64) (g : Gathering Tile) :
    (⟨[], start, stop⟩ : Chunk).flush h g = Chunk.empty.flush h g := rfl

end Chunk

/-- Reads the chunk of a visit and goes on with another one. Where no run begins it, this is the
empty chunk: the chunk that was read is used up. -/
def flushThen (h : Header) (next : Chunk) (state : Chunk × Gathering Tile) :
    Fetch ((Chunk × Gathering Tile) ⊕ Listing Tile) :=
  (state.1.flush h state.2).bind fun
    | .inl g => .done (.inl (next, g))
    | .inr listing => .done (.inr listing)

/-- What a visit does at an event. -/
def visitEvent (h : Header) (threshold : UInt64) (state : Chunk × Gathering Tile) :
    WalkEvent → Fetch ((Chunk × Gathering Tile) ⊕ Listing Tile)
  | .run e =>
    match state.1.extend? h threshold e with
    | some chunk => .done (.inl (chunk, state.2))
    -- A run that does not fit starts the next chunk, however long it is.
    | none => flushThen h (.single h e) state
  | .pointer => flushThen h .empty state
  | .leave => flushThen h .empty state

/-- What a visit does at the end of the walk. -/
def visitEnd (h : Header) (state : Chunk × Gathering Tile) :
    Option ReadError → Fetch (Listing Tile)
  | some error => .done (state.2.ended (.failed error))
  | none =>
    (state.1.flush h state.2).bind fun
      | .inl g => .done (g.ended .complete)
      | .inr listing => .done listing

/-- Visits all tiles. -/
def visitTiles (h : Header) (threshold : UInt64) : Fetch (Listing Tile) :=
  match Walker.start h with
  | .error e => .done ⟨[], .failed e⟩
  | .ok w => w.drive h (visitEvent h threshold) (visitEnd h) (.empty, .new none)

/-! ## The number of tiles

The count goes the way of the tiles. It is a word, and one is added for every tile. A chunk is
counted from zero on, and its count is added to that of the chunks before it once its read is
over; an error leaves no count. -/

/-- Counts `count` tile numbers from `id` on, one by one. -/
def countRun : (count : Nat) → (id : UInt64) → (visited : UInt64) → Except ReadError UInt64
  | 0, _, visited => .ok visited
  | count + 1, id, visited =>
    match TileCoord.ofTileId id with
    | .error e => .error (.tileId e)
    | .ok _ => countRun count (Word.addSat id 1) (visited + 1)

namespace Chunk

/-- Counts the tiles of some runs of a chunk, whose bytes were read. -/
def countRuns (h : Header) (c : Chunk) (data : Bytes) :
    List Entry → (visited : UInt64) → Except ReadError UInt64
  | [], visited => .ok visited
  | e :: es, visited =>
    match c.payload? h data e with
    | none => .error (.io (.of .unexpectedEof "Coalesced read was short"))
    | some _ => (countRun e.runLength.toNat e.tileId visited).bind (countRuns h c data es)

/-- Reads a chunk and counts its tiles. -/
def flushCount (h : Header) (c : Chunk) : Fetch (Except ReadError UInt64) :=
  if c.entries.isEmpty then .done (.ok 0)
  else if Word.largest32 < c.span then .done (.error c.tooLarge)
  else
    (fetchBytes ⟨c.start, UInt32.ofNat c.span⟩).bind fun
      | .error error => .done (.error error)
      | .ok data => .done (c.countRuns h data c.entries 0)

end Chunk

/-- Reads the chunk of a visit, adds its tiles to the count and goes on with another one. -/
def countThen (h : Header) (next : Chunk) (state : Chunk × UInt64) :
    Fetch ((Chunk × UInt64) ⊕ Except ReadError UInt64) :=
  (state.1.flushCount h).bind fun
    | .ok visited => .done (.inl (next, state.2 + visited))
    | .error error => .done (.inr (.error error))

/-- What becomes of the count at an event. -/
def countEvent (h : Header) (threshold : UInt64) (state : Chunk × UInt64) :
    WalkEvent → Fetch ((Chunk × UInt64) ⊕ Except ReadError UInt64)
  | .run e =>
    match state.1.extend? h threshold e with
    | some chunk => .done (.inl (chunk, state.2))
    | none => countThen h (.single h e) state
  | .pointer => countThen h .empty state
  | .leave => countThen h .empty state

/-- What becomes of the count at the end of the walk. -/
def countEnd (h : Header) (state : Chunk × UInt64) :
    Option ReadError → Fetch (Except ReadError UInt64)
  | some error => .done (.error error)
  | none =>
    (state.1.flushCount h).bind fun
      | .ok visited => .done (.ok (state.2 + visited))
      | .error error => .done (.error error)

/-- The number of tiles that a visit has counted when it is through, or the error that ended
it. -/
def countTiles (h : Header) (threshold : UInt64) : Fetch (Except ReadError UInt64) :=
  match Walker.start h with
  | .error e => .done (.error e)
  | .ok w => w.drive h (countEvent h threshold) (countEnd h) (.empty, 0)

end TileArchive
