import TileArchive.Proofs.Reader.Idle

/-!
# `TileArchive.Proofs.Reader.FirstError`: every request hands a read error on

Whatever an archive is asked for, the first read that fails ends the request, and the error of
that read is in the response. `handsOn_query` says so for every request. It is put together
from the same fact about looking a tile up (`handsOn_lookUp`), about the walk through all
directories with any consumer of its events (`handsOn_drive`), and about listing and visiting
tiles.

## Handing on

`Dialogue.HandsOn` is a property of a program that asks questions: for every question and every
failure of its answer, the program ends there with a result that has the error in it. It is
proved by following the program, one lemma per function, and a program made of two others gets it
from `Dialogue.HandsOn.bind`. The forms of the result differ: an error of its own for look-ups,
the ending of a listing for scans, the response in the end. Each lemma names the form, and
`handsOn_respond` brings them together in `Response.Reports`.

Nothing is said here about which read fails or whether one does. That the response is otherwise
what reading the archive directly gives is `Reader.Idle.advance` in `Proofs/Reader/Idle.lean`, which
takes this module's fact as its hypothesis.
-/

set_option autoImplicit false

namespace TileArchive

/-! ### Looking a tile up -/

/-- Going down the directories hands a read error on, on every level. A failed directory or
payload ends the look-up with its error, and nothing else is asked for after it. -/
theorem handsOn_descend (h : Header) (id : UInt64) (depth : Nat) (range : ByteRange) :
    (descend h id depth range).HandsOn Need.failure FailedWith := by
  induction depth generalizing range with
  | zero => trivial
  | succ depth ih =>
      refine ⟨fun error => ⟨.error (.io error), rfl, rfl⟩, ?_⟩
      intro answer
      cases answer with
      | error e => trivial
      | ok directory =>
          dsimp only
          split
          · trivial
          · -- A pointer leads to another directory, a run to its payload.
            split
            · exact ih _
            · exact ⟨fun error => ⟨.error (.io error), rfl, rfl⟩, fun _ => trivial⟩

/-- Looking a tile up hands a read error on. -/
theorem handsOn_lookUp (h : Header) (c : TileCoord) :
    (lookUp h c).HandsOn Need.failure FailedWith := by
  unfold lookUp
  split
  · trivial
  · exact handsOn_descend _ _ _ _

/-- So does looking it up by zoom, column and row. Without such a tile nothing is read. -/
theorem handsOn_lookUpAt (h : Header) (z x y : Nat) :
    (lookUpAt h z x y).HandsOn Need.failure FailedWith := by
  unfold lookUpAt
  split
  · trivial
  · exact handsOn_lookUp _ _

/-! ### Walking through all directories -/

namespace Walker

/-- The next step of a walk hands a read error on: it loads one directory at most. -/
theorem handsOn_next (h : Header) (w : Walker) :
    (w.next h).HandsOn Fetch.failure FailedWith := by
  match w with
  | ⟨frames, none, fits⟩ => trivial
  | ⟨frames, some range, fits⟩ =>
    refine (handsOn_loadDirectory h range).bindResult ?_ ?_
    · intro result
      cases result <;> trivial
    · exact fun error => ⟨_, rfl, rfl⟩

variable {σ β : Type} {h : Header} {onEvent : σ → WalkEvent → Fetch (σ ⊕ β)}
  {atEnd : σ → Option ReadError → Fetch β} {handedOn : IoError → β → Prop}

/-- A walk hands a read error on if the consumer of its events does, and is done at once when
the walk itself failed with a read error. The induction is on the rank of the walker. -/
theorem handsOn_drive
    (events : ∀ state event, (onEvent state event).HandsOn Fetch.failure
      fun error step => ∃ final, step = .inr final ∧ handedOn error final)
    (ends : ∀ state error, (atEnd state error).HandsOn Fetch.failure handedOn)
    (broken : ∀ state error, ∃ final, atEnd state (some (.io error)) = .done final ∧
      handedOn error final)
    (w : Walker) (state : σ) :
    (w.drive h onEvent atEnd state).HandsOn Fetch.failure handedOn := by
  induction w using (InvImage.wf rank below_wf).induction generalizing state with
  | _ w ih =>
  -- One event is handed to the consumer, and the walker behind it has a lower rank.
  rw [drive]
  refine (handsOn_next h w).bindResult ?_ ?_
  · intro result
    match result with
    | .error e => exact ends state (some e)
    | .ok none => exact ends state none
    | .ok (some (event, ⟨v, nearer⟩)) =>
      refine (events state event).bind ?_ ?_
      · intro step
        cases step with
        | inl state => exact ih v nearer state
        | inr final => trivial
      · rintro error _ ⟨final, rfl, handed⟩
        exact ⟨final, rfl, handed⟩
  · exact broken state

end Walker

/-! ### Listings and visits -/

/-- A listing ends with the given read error. -/
def Listing.EndedBy {α : Type} (error : IoError) (l : Listing α) : Prop :=
  l.ending = .failed (.io error)

/-- A step of a scan ends it with the given read error. -/
def StepEndedBy {σ α : Type} (error : IoError) (step : σ ⊕ Listing α) : Prop :=
  ∃ l, step = .inr l ∧ l.EndedBy error

/-- A listing hands a read error on if its work on single runs does. The walk over the
directories already does, and it stops a listing where it fails. -/
theorem handsOn_listRuns {α : Type} (h : Header)
    {onRun : Entry → Gathering α → Fetch (Gathering α ⊕ Listing α)} (limit : Option Nat)
    (runs : ∀ e g, (onRun e g).HandsOn Fetch.failure StepEndedBy) :
    (listRuns h onRun limit).HandsOn Fetch.failure Listing.EndedBy := by
  unfold listRuns
  split
  · trivial
  · split
    · trivial
    · apply Walker.handsOn_drive
      · intro g event
        cases event with
        | run e => exact runs e g
        | pointer => trivial
        | leave => trivial
      · exact fun _ _ => trivial
      · exact fun g error => ⟨_, rfl, rfl⟩

/-- Listing coordinates hands a read error on; it reads directories only. -/
theorem handsOn_listCoords (h : Header) (limit : Option Nat) :
    (listCoords h limit).HandsOn Fetch.failure Listing.EndedBy :=
  handsOn_listRuns h limit fun _ _ => trivial

/-- Listing tiles hands a read error on, from directories as from payloads. -/
theorem handsOn_listTiles (h : Header) (limit : Option Nat) :
    (listTiles h limit).HandsOn Fetch.failure Listing.EndedBy := by
  refine handsOn_listRuns h limit fun e g => (handsOn_fetchBytes _).bindResult ?_ ?_
  · intro result
    cases result <;> trivial
  · exact fun error => ⟨_, rfl, _, rfl, rfl⟩

/-- Reading a chunk hands a read error on. -/
theorem handsOn_flush (h : Header) (c : Chunk) (g : Gathering Tile) :
    (c.flush h g).HandsOn Fetch.failure StepEndedBy := by
  unfold Chunk.flush
  split
  · trivial
  · split
    · trivial
    · refine (handsOn_fetchBytes _).bindResult ?_ ?_
      · intro result
        cases result <;> trivial
      · exact fun error => ⟨_, rfl, _, rfl, rfl⟩

/-- So does reading a chunk and going on with the next. -/
theorem handsOn_flushThen (h : Header) (next : Chunk) (state : Chunk × Gathering Tile) :
    (flushThen h next state).HandsOn Fetch.failure StepEndedBy := by
  refine (handsOn_flush h state.1 state.2).bind ?_ ?_
  · intro step
    cases step <;> trivial
  · rintro error _ ⟨l, rfl, ended⟩
    exact ⟨_, rfl, l, rfl, ended⟩

/-- A visit hands a read error on, that of a directory as well as that of a chunk. After it
nothing is read, not even the chunk that was begun. -/
theorem handsOn_visitTiles (h : Header) (threshold : UInt64) :
    (visitTiles h threshold).HandsOn Fetch.failure Listing.EndedBy := by
  unfold visitTiles
  split
  · trivial
  · apply Walker.handsOn_drive
    · intro state event
      cases event with
      | run e =>
          simp only [visitEvent]
          -- A run that extends the chunk is not read yet.
          split
          · trivial
          · exact handsOn_flushThen h _ state
      | pointer => exact handsOn_flushThen h _ state
      | leave => exact handsOn_flushThen h _ state
    · intro state error
      cases error with
      | some e => trivial
      | none =>
          refine (handsOn_flush h state.1 state.2).bind ?_ ?_
          · intro step
            cases step <;> trivial
          · rintro error _ ⟨l, rfl, ended⟩
            exact ⟨l, rfl, ended⟩
    · exact fun state error => ⟨_, rfl, rfl⟩

/-! ### Requests -/

/-- The error in a result. -/
def errorOf? {α : Type} : Except ReadError α → Option ReadError
  | .ok _ => none
  | .error e => some e

/-- The error that ended a listing. -/
def Ending.error? : Ending → Option ReadError
  | .failed e => some e
  | _ => none

/-- The error that a response reports. -/
def Response.error? : Response → Option ReadError
  | .payload result => errorOf? result
  | .coords listing => listing.ending.error?
  | .tiles listing => listing.ending.error?
  | .visited listing => listing.ending.error?
  | .metadata result => errorOf? result
  | .summary result => errorOf? result

/-- A response reports the given read error. -/
def Response.Reports (error : IoError) (response : Response) : Prop :=
  response.error? = some (.io error)

/-- A query that hands errors on may wrap its result in a response that reports them. -/
theorem handsOn_respond {α : Type} {handedOn : IoError → α → Prop} {query : Query α}
    (handsOn : query.HandsOn Need.failure handedOn) {respond : α → Response}
    (reports : ∀ error result, handedOn error result → (respond result).Reports error) :
    (query.bind fun result => .done (respond result)).HandsOn Need.failure Response.Reports :=
  handsOn.bind (fun _ => trivial) fun error result handed =>
    ⟨respond result, rfl, reports error result handed⟩

/-- Every request is over with the first read that fails, and its response reports the error
of that read. -/
theorem handsOn_query (h : Header) (config : ReaderConfig) (request : Request) :
    (request.query h config).HandsOn Need.failure Response.Reports := by
  have result_reports : ∀ (error : IoError) (result : Except ReadError (Option Bytes)),
      FailedWith error result → (Response.payload result).Reports error := by
    rintro error _ rfl
    rfl
  have listing_reports : ∀ (error : IoError) {α : Type} (l : Listing α), l.EndedBy error →
      l.ending.error? = some (.io error) := by
    intro error α l ended
    rw [show l.ending = _ from ended]
    rfl
  cases request with
  | tile c => exact handsOn_respond (handsOn_lookUp h c) result_reports
  | tileAt z x y => exact handsOn_respond (handsOn_lookUpAt h z x y) result_reports
  | coords limit =>
      exact handsOn_respond (handsOn_toQuery (handsOn_listCoords h limit))
        fun error l => listing_reports error l
  | tiles limit =>
      exact handsOn_respond (handsOn_toQuery (handsOn_listTiles h limit))
        fun error l => listing_reports error l
  | visit =>
      exact handsOn_respond (handsOn_toQuery (handsOn_visitTiles h _))
        fun error l => listing_reports error l
  | metadata => exact ⟨fun error => ⟨_, rfl, rfl⟩, fun _ => trivial⟩
  | summary => exact ⟨fun error => ⟨_, rfl, rfl⟩, fun _ => trivial⟩

end TileArchive
