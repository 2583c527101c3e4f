import TileArchive.Reader.Basic

/-!
# `TileArchive.Reader.Session`: many requests to one archive

A `Request` is something an archive can be asked for, and `Request.query` says how the
answer is found. A `ReaderSession` is an open archive together with requests on their way,
each known by a name: `start` begins one, `poll` carries one on, and `drop` gives one up.

A session is what callers do to a reader, one event after another. Names keep requests apart that
wait at the same time; they mean nothing to the reader. A request whose name is in use takes its
place, as if the one before had been given up.

`run` is for callers that do not wait. It begins a request and gives it up at once if it cannot be
answered, so after it no request is on its way that was not before.
-/

set_option autoImplicit false

namespace TileArchive

/-- What an archive can be asked for. Each request stands for a query, which `Request.query`
gives. -/
inductive Request where
  /-- The payload of a tile. -/
  | tile (c : TileCoord)
  /-- The payload of the tile with a zoom, column and row. -/
  | tileAt (z x y : Nat)
  /-- The coordinates of all tiles, or of as many as asked for. -/
  | coords (limit : Option Nat)
  /-- All tiles, or as many as asked for. -/
  | tiles (limit : Option Nat)
  /-- All tiles, with few reads. -/
  | visit
  | metadata
  /-- What header and metadata say together. -/
  | summary

/-- What an archive answers, one kind for each kind of request. A listing tells its error in
its ending, and all other kinds are results. -/
inductive Response where
  | payload (result : Except ReadError (Option Bytes))
  | coords (listing : Listing TileCoord)
  | tiles (listing : Listing Tile)
  | visited (listing : Listing Tile)
  | metadata (result : Except ReadError Metadata)
  | summary (result : Except ReadError Summary)

/-- How the answer to a request is found. -/
def Request.query (h : Header) (config : ReaderConfig) : Request → Query Response
  | .tile c => (lookUp h c).bind fun result => .done (.payload result)
  | .tileAt z x y => (lookUpAt h z x y).bind fun result => .done (.payload result)
  | .coords limit => (listCoords h limit).toQuery.bind fun listing => .done (.coords listing)
  | .tiles limit => (listTiles h limit).toQuery.bind fun listing => .done (.tiles listing)
  | .visit =>
    (visitTiles h config.coalesceThreshold).toQuery.bind fun listing => .done (.visited listing)
  | .metadata => .ask .metadata fun result => .done (.metadata result)
  | .summary => .ask .metadata fun result => .done (.summary (result.map (Summary.join h)))

/-- An open archive and the requests on their way. Requests that wait have names, by which
they are carried on or given up, and starting one under a name in use gives up the one
before. -/
structure ReaderSession where
  reader : Reader
  /-- The waiting requests by name. -/
  tasks : List (String × Waiting Response)

namespace ReaderSession

/-- A session without requests. -/
def new (reader : Reader) : ReaderSession := ⟨reader, []⟩

/-- How the answer to a request is found. -/
def query (s : ReaderSession) (request : Request) : Query Response :=
  request.query s.reader.header s.reader.config

/-- Asks for something and gives up if that has to wait. -/
def run (s : ReaderSession) (request : Request) : ReaderSession × Option Response :=
  match s.reader.run (s.query request) with
  | (reader, response) => ({ s with reader }, response)

/-- The waiting request with a name. -/
def task? (s : ReaderSession) (name : String) : Option (Waiting Response) :=
  (s.tasks.find? fun t => t.1 = name).map (·.2)

/-- Forgets a request. -/
def removeTask (s : ReaderSession) (name : String) : ReaderSession :=
  { s with tasks := s.tasks.filter fun t => t.1 ≠ name }

/-- Gives up a request, and says whether it was waiting. -/
def drop (s : ReaderSession) (name : String) : ReaderSession × Bool :=
  match s.task? name with
  | none => (s, false)
  | some waiting =>
    ({ s.removeTask name with reader := s.reader.abandon waiting }, true)

/-- Begins a request. Without a response it waits from now on. A request of the same name is
given up first. -/
def start (s : ReaderSession) (name : String) (request : Request) :
    ReaderSession × Option Response :=
  match s.drop name with
  | (s, _) =>
    match Reader.advance (s.query request) .fresh s.reader with
    | (reader, .inl response) => ({ s with reader }, some response)
    | (reader, .inr waiting) => ({ s with reader, tasks := (name, waiting) :: s.tasks }, none)

/-- Carries a waiting request on. The inner option is empty while it goes on waiting. -/
def poll (s : ReaderSession) (name : String) : ReaderSession × Option (Option Response) :=
  match s.task? name with
  | none => (s, none)
  | some waiting =>
    let s := s.removeTask name
    match Reader.advance waiting.query waiting.stage s.reader with
    | (reader, .inl response) => ({ s with reader }, some (some response))
    | (reader, .inr waiting) =>
      ({ s with reader, tasks := (name, waiting) :: s.tasks }, some none)

end ReaderSession

end TileArchive
