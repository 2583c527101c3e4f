import TileArchive.Metadata.Summary
import TileArchive.Reader.Config
import TileArchive.Reader.Pool
import TileArchive.Reader.Turnstile
import TileArchive.Reader.Visit

/-!
# `TileArchive.Reader.Basic`: an open archive

A `Reader` is an archive that has been opened: its header, its source, the two pools of
directories and payloads, and the metadata, which are loaded once. `Reader.open?` opens an
archive.

`Reader.advance` carries a query on. Each question of the query goes through stages: it is
put, and where the answer is not at hand the query waits, for a read of its own, for a load
that it shares with others, or for its turn to load the metadata. `Reader.abandon` gives a
waiting query up. `Reader.run` carries a query on once and gives it up if it has to wait.

## Who does the work

No one works in the background. A load goes on when a query that waits for it is carried on, and
with it the source; so a read that nobody asks about any more has been begun and never ends. A
query that gives up a load leaves it to the others who wait for it. If there are none the load is
forgotten, and the next query for the same range begins a new one.

Interleaving is by questions: a query that is carried on goes on until it has to wait, and two
queries never work at the same time. Every order in which waiting queries can be carried on is
some list of `SessionEvent`s, so statements about all such lists are statements about all orders.

## Weights

A directory weighs by its rows and a payload by its bytes. Both are words that could wrap only for
more rows or bytes than a machine holds.
-/

set_option autoImplicit false

namespace TileArchive

/-- The weight of a directory row. -/
def rowWeight : UInt64 := 40

/-- The weight of a directory. -/
def directoryWeight (d : Directory) : UInt64 := UInt64.ofNat d.size * rowWeight

/-- The weight of a payload. -/
def payloadWeight (payload : Bytes) : UInt64 := UInt64.ofNat payload.length

/-- An archive that has been opened. Header and configuration stay as they are for good.
Everything else is the state that requests share: the source, two caches with their loads,
and the metadata. -/
structure Reader where
  header : Header
  config : ReaderConfig
  source : Source
  directories : Pool Directory
  payloads : Pool Bytes
  metadata : Turnstile Metadata

/-- How far the question that a query asks has come. It is kept while a query waits, and
says what to do with the question when the query is carried on or given up. -/
inductive Stage where
  /-- It has not been put. -/
  | fresh
  /-- Its read was begun and waits. -/
  | begun
  /-- It waits for a shared load. -/
  | sharing (load : Nat)
  /-- It waits for its turn to load the metadata. -/
  | queued (ticket : Nat)
  /-- It loads the metadata. -/
  | loading (ticket : Nat) (computation : Suspended (Except ReadError Metadata))

/-- A query on its way. It begins with the question that it waits for, and the stage says
how far this question has come. -/
structure Waiting (α : Type) where
  query : Query α
  stage : Stage

/-- A query whose first question has not been put. -/
def Waiting.fresh {α : Type} (query : Query α) : Waiting α := ⟨query, .fresh⟩

namespace Reader

/-! ## Opening -/

/-- An archive with the given header of which nothing else has been read. -/
def ofHeader (header : Header) (config : ReaderConfig) (source : Source) : Reader where
  header
  config
  source
  directories := .new (.empty config.directoryCache fun _ => directoryWeight)
  payloads := .new (.empty config.tileCache fun _ => payloadWeight)
  metadata := .new

/-- Reads the header of an archive. -/
def fetchHeader : Fetch (Except ReadError Header) :=
  (fetchBytes ⟨0, UInt32.ofNat Header.length⟩).bind fun data =>
    .done (data >>= fun data => (Header.decode data).mapError .header)

/-- Opens an archive. The configuration is checked before anything is read. Where opening
has to wait it is given up. -/
def open? (config : ReaderConfig) (source : Source) : Source × Option (Except ReadError Reader) :=
  match config.validate with
  | .error e => (source, some (.error e))
  | .ok () =>
    match fetchHeader.poll false source with
    | (source, .inl header) =>
      (source, some (header.map fun header => ofHeader header config source))
    | (source, .inr _) => (source, none)

/-! ## Questions -/

/-- Changes the source. -/
def withSource (r : Reader) (source : Source) : Reader := { r with source }

/-- Goes on with the load of the metadata. -/
def loadTurn (r : Reader) (ticket : Nat)
    (computation : Suspended (Except ReadError Metadata)) :
    Reader × (Except ReadError Metadata ⊕ Stage) :=
  match computation.poll r.source with
  | (source, .inr computation) => (r.withSource source, .inr (.loading ticket computation))
  | (source, .inl (.ok metadata)) =>
    ({ r with source, metadata := r.metadata.fulfil metadata }, .inl (.ok metadata))
  | (source, .inl (.error e)) =>
    ({ r with source, metadata := r.metadata.pass }, .inl (.error e))

/-- Goes on waiting for the metadata with a ticket. -/
def awaitTurn (r : Reader) (ticket : Nat) : Reader × (Except ReadError Metadata ⊕ Stage) :=
  match r.metadata.value with
  | some metadata => (r, .inl (.ok metadata))
  | none =>
    if r.metadata.turn = some ticket then
      r.loadTurn ticket (.fresh (loadMetadata r.header))
    else (r, .inr (.queued ticket))

/-- Goes on with the question for the metadata. -/
def askMetadata (r : Reader) (stage : Stage) : Reader × (Except ReadError Metadata ⊕ Stage) :=
  match stage with
  | .queued ticket => r.awaitTurn ticket
  | .loading ticket computation => r.loadTurn ticket computation
  | _ =>
    match r.metadata.value with
    | some metadata => (r, .inl (.ok metadata))
    | none =>
      -- Whoever is first in line gets the turn at once.
      match r.metadata.enter with
      | (metadata, ticket) => { r with metadata }.awaitTurn ticket

/-- Looks at a load of a directory. -/
def lookDirectory (r : Reader) (range : ByteRange) (load : Nat) :
    Reader × (Except ReadError Directory ⊕ Stage) :=
  match r.directories.look range load r.source with
  | (directories, source, some outcome) => ({ r with directories, source }, .inl outcome)
  | (directories, source, none) => ({ r with directories, source }, .inr (.sharing load))

/-- Goes on with the question for a directory. -/
def askDirectory (r : Reader) (range : ByteRange) (stage : Stage) :
    Reader × (Except ReadError Directory ⊕ Stage) :=
  match stage with
  | .sharing load => r.lookDirectory range load
  | _ =>
    match r.directories.ask range (loadDirectory r.header range) with
    | (directories, .inl directory) => ({ r with directories }, .inl (.ok directory))
    | (directories, .inr load) => { r with directories }.lookDirectory range load

/-- Looks at a load of a payload. -/
def lookPayload (r : Reader) (range : ByteRange) (load : Nat) :
    Reader × (Except ReadError Bytes ⊕ Stage) :=
  match r.payloads.look range load r.source with
  | (payloads, source, some outcome) => ({ r with payloads, source }, .inl outcome)
  | (payloads, source, none) => ({ r with payloads, source }, .inr (.sharing load))

/-- Goes on with the question for a payload. -/
def askPayload (r : Reader) (range : ByteRange) (stage : Stage) :
    Reader × (Except ReadError Bytes ⊕ Stage) :=
  match stage with
  | .sharing load => r.lookPayload range load
  | _ =>
    match r.payloads.ask range (loadPayload range) with
    | (payloads, .inl payload) => ({ r with payloads }, .inl (.ok payload))
    | (payloads, .inr load) => { r with payloads }.lookPayload range load

/-- Goes on with the question for bytes. -/
def askBytes (r : Reader) (range : ByteRange) (stage : Stage) :
    Reader × (Except IoError Bytes ⊕ Stage) :=
  -- A read is begun once, however often it is looked at.
  let begun := match stage with
    | .begun => true
    | _ => false
  match r.source.poll range begun with
  | (source, some answer) => (r.withSource source, .inl answer)
  | (source, none) => (r.withSource source, .inr .begun)

/-- Goes on with a question: to its answer, or to where it has to wait. -/
def ask (r : Reader) (stage : Stage) : (need : Need) → Reader × (need.Answer ⊕ Stage)
  | .bytes range => r.askBytes range stage
  | .directory range => r.askDirectory range stage
  | .payload range => r.askPayload range stage
  | .metadata => r.askMetadata stage

/-! ## Queries -/

/-- Carries a query on: to its result, or to where it has to wait. -/
def advance {α : Type} : Query α → Stage → Reader → Reader × (α ⊕ Waiting α)
  | .done result, _, r => (r, .inl result)
  | .ask need next, stage, r =>
    match r.ask stage need with
    -- The next question is a new one, so nothing of this stage carries over.
    | (r, .inl answer) => advance (next answer) .fresh r
    | (r, .inr stage) => (r, .inr ⟨.ask need next, stage⟩)

/-- Gives up a question. -/
def abandonNeed (r : Reader) (stage : Stage) : Need → Reader
  | .bytes _ => r
  | .directory range =>
    match stage with
    | .sharing load => { r with directories := r.directories.withdraw range load }
    | _ => r
  | .payload range =>
    match stage with
    | .sharing load => { r with payloads := r.payloads.withdraw range load }
    | _ => r
  | .metadata =>
    match stage with
    | .queued ticket => { r with metadata := r.metadata.leave ticket }
    | .loading ticket _ => { r with metadata := r.metadata.leave ticket }
    | _ => r

/-- Gives a waiting query up. -/
def abandon {α : Type} (r : Reader) (w : Waiting α) : Reader :=
  match w.query with
  | .done _ => r
  | .ask need _ => r.abandonNeed w.stage need

/-- Carries a query on once, and gives it up if it has to wait. -/
def run {α : Type} (r : Reader) (query : Query α) : Reader × Option α :=
  match advance query .fresh r with
  | (r, .inl result) => (r, some result)
  | (r, .inr waiting) => (r.abandon waiting, none)

/-! ## Counters -/

/-- Sets the counters of both caches to zero. -/
def resetCounters (r : Reader) : Reader :=
  { r with
    directories := { r.directories with cache := r.directories.cache.resetCounters }
    payloads := { r.payloads with cache := r.payloads.cache.resetCounters } }

end Reader

end TileArchive
