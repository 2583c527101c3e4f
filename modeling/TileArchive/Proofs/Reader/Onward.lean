import TileArchive.Proofs.Dialogue
import TileArchive.Reader.Session

/-!
# `TileArchive.Proofs.Reader.Onward`: what a reader keeps while it is asked

Whatever a reader is asked and wherever that has to wait, header and configuration stay as they
are, and the source only begins more reads and takes more of the disturbances that are queued
(`Reader.Onward`).

A query that does not ask for the metadata also leaves these alone (`Query.Spares`): nobody comes
for them, gets a turn or gives one up. All requests are of this kind, apart from the two
calls for the metadata (`MetadataCall`), which ask for nothing else.

## A relation that every step is in

`Source.Onward` and `Reader.Onward` are preorders. A function that acts on a source or a reader
has one lemma here, which says that it leads onward, and functions made of others get theirs by
`trans`. In the end `onward_advance` says so of a whole query, and later modules never look at
the steps in between. What they take from the relation:

* The header and the configuration of a session are those it was opened with.
* What a source answers where nothing disturbs it never changes (`answer_eq`).
* The log grows at its front and the queue of disturbances shrinks there, so what was read in
  one step can be told from the logs before and after it.

## Sources that cut nothing

A short answer is the one disturbance that can make a read return wrong bytes where they decode
by chance. `Source.Faithful` excludes it: reads fail or they return what the content holds. This
is the assumption under which the metadata that were loaded are the metadata that are stored.
-/

set_option autoImplicit false

namespace TileArchive

/-! ### Sources -/

/-- What becomes of a source while reads are begun and go on: it answers as before, and
disturbances are taken from the front of the queue. Reads that were begun stay in the log. -/
structure Source.Onward (s t : Source) : Prop where
  answer_eq : t.answer = s.answer
  queue : t.queue <:+ s.queue
  log : s.log <:+ t.log

namespace Source.Onward

variable {s t u : Source}

/-- A source that is let alone is onward from itself. -/
theorem refl (s : Source) : s.Onward s :=
  ⟨rfl, List.suffix_refl _, List.suffix_refl _⟩

/-- What is done to a source step by step leads onward if each step does. -/
theorem trans (first : s.Onward t) (second : t.Onward u) : s.Onward u :=
  ⟨second.answer_eq.trans first.answer_eq, second.queue.trans first.queue,
    first.log.trans second.log⟩

/-- Beginning a read leads onward: it is logged. -/
theorem start (s : Source) (range : ByteRange) : s.Onward (s.start range) :=
  ⟨rfl, List.suffix_refl _, List.suffix_cons range s.log⟩

/-- Ending a read leads onward: it takes one disturbance from the queue, if there is one. -/
theorem finish (s : Source) (range : ByteRange) : s.Onward (s.finish range).1 := by
  unfold Source.finish
  split
  · exact refl s
  · next d queue queue_eq =>
    exact ⟨rfl, queue_eq ▸ List.suffix_cons d queue, List.suffix_refl _⟩

/-- Looking at a read leads onward, whether it begins, ends or waits. -/
theorem poll (s : Source) (range : ByteRange) (begun : Bool) :
    s.Onward (s.poll range begun).1 := by
  -- A read that is looked at for the first time is begun here, and one begun before is not
  -- begun again.
  have begin_read : s.Onward (if begun then s else s.start range) := by
    cases begun
    · exact start s range
    · exact refl s
  unfold Source.poll
  generalize (if begun then s else s.start range) = t at begin_read ⊢
  dsimp only
  split
  · exact begin_read
  · exact begin_read.trans (finish t range)

/-- The same of the source that a look is known to leave. -/
theorem of_poll {range : ByteRange} {begun : Bool} {answer : Option (Except IoError Bytes)}
    (poll_eq : s.poll range begun = (t, answer)) : s.Onward t := by
  have polled := poll s range begun
  rwa [poll_eq] at polled

/-- Carrying a computation on leads onward, through all the reads it comes to. -/
theorem pollFetch {α : Type} (d : Fetch α) (begun : Bool) (s : Source) :
    s.Onward (d.poll begun s).1 := by
  induction d generalizing begun s with
  | done result => exact .refl s
  | ask range next ih =>
      rw [Fetch.poll]
      split
      · next t answer poll_eq => exact (of_poll poll_eq).trans (ih answer false t)
      · next t poll_eq => exact of_poll poll_eq

/-- Looking at the load of a pool leads onward. The outcome is for the cache, and the source
only sees that reads are begun and go on. -/
theorem look {V : Type} (p : Pool V) (range : ByteRange) (number : Nat) (s : Source) :
    s.Onward (p.look range number s).2.1 := by
  unfold Pool.look
  split
  · exact .refl s
  · next load _ =>
    -- A load that has finished is not looked at in the source any more. One that runs goes on
    -- in it.
    have polled : s.Onward (Pool.Load.poll load s).1 := by
      cases load with
      | finished outcome => exact .refl s
      | running computation =>
          have carried := pollFetch computation.fetch computation.begun s
          rw [Pool.Load.poll, Suspended.poll]
          split <;> next poll_eq => rwa [poll_eq] at carried
    dsimp only
    split <;> exact polled

end Source.Onward

/-- Whatever the disturbance does to a read, it does not give fewer bytes than asked for.
Metadata that were cut short might still decode, and then they would be stored. -/
def Disturbance.CutsNothing (d : Disturbance) : Prop :=
  ∀ missing, d = .short missing → missing = 0

/-- The source answers reads by a rule, except that some of the reads to come may fail. A
read that does not fail gives all bytes, so what is made of them is true. -/
structure Source.Faithful (answer : ByteRange → Except IoError Bytes) (s : Source) : Prop where
  answer_eq : s.answer = answer
  queue : ∀ d ∈ s.queue, d.CutsNothing

namespace Source.Faithful

variable {answer : ByteRange → Except IoError Bytes} {s t : Source}

/-- A source that answers from some bytes and fails as it is told cuts nothing. -/
theorem failing (bytes : Bytes) (outcomes : List (Option IoError)) :
    (Source.failing bytes outcomes).Faithful (Content.read bytes) := by
  refine ⟨rfl, ?_⟩
  intro d member missing short
  obtain ⟨outcome, -, rfl⟩ := List.mem_map.mp member
  cases outcome with
  | none => exact (Disturbance.short.inj short).symm
  | some error => cases short

/-- A source that cuts nothing goes on cutting nothing. -/
theorem onward (faithful : s.Faithful answer) (onward : s.Onward t) : t.Faithful answer :=
  ⟨onward.answer_eq.trans faithful.answer_eq, fun d member =>
    faithful.queue d (onward.queue.mem member)⟩

/-- A read that does not fail gives what the rule says. A disturbance that may only make it
fail, or shorten it by nothing, cannot give other bytes. -/
theorem answer_eq_ok (faithful : s.Faithful answer) {range : ByteRange} {bytes : Bytes}
    (finished : (s.finish range).2 = .ok bytes) : answer range = .ok bytes := by
  rw [← faithful.answer_eq]
  unfold Source.finish at finished
  split at finished
  · exact finished
  · next d queue queue_eq =>
    have cuts_nothing := faithful.queue d (queue_eq ▸ List.mem_cons_self)
    cases d with
    | fail error => cases finished
    | short missing =>
        -- A disturbance that may only shorten the bytes shortens them by nothing here.
        obtain rfl := cuts_nothing missing rfl
        cases answered : s.answer range with
        | error e =>
            rw [answered] at finished
            cases finished
        | ok whole =>
            rw [answered] at finished
            rwa [Disturbance.apply, Nat.sub_zero, List.take_length] at finished

end Source.Faithful

/-! ### Readers -/

/-- A reader has come from another by steps of queries. Its caches and its turnstile may
have changed in any way, and nothing is said of them. -/
structure Reader.Onward (r t : Reader) : Prop where
  header_eq : t.header = r.header
  config_eq : t.config = r.config
  source : r.source.Onward t.source

/-- The ticket that a stage holds for the metadata. -/
def Stage.ticket? : Stage → Option Nat
  | .queued ticket => some ticket
  | .loading ticket _ => some ticket
  | _ => none

namespace Reader

variable {r t u : Reader}

/-- A reader that is let alone is onward from itself. -/
theorem Onward.refl (r : Reader) : r.Onward r := ⟨rfl, rfl, .refl _⟩

/-- Steps of a reader lead onward together if each does. -/
theorem Onward.trans (first : r.Onward t) (second : t.Onward u) : r.Onward u :=
  ⟨second.header_eq.trans first.header_eq, second.config_eq.trans first.config_eq,
    first.source.trans second.source⟩

/-- Loading the metadata leads onward. -/
theorem onward_loadTurn (r : Reader) (ticket : Nat)
    (computation : Suspended (Except ReadError Metadata)) :
    r.Onward (r.loadTurn ticket computation).1 := by
  have polled := Source.Onward.pollFetch computation.fetch computation.begun r.source
  rw [loadTurn, Suspended.poll]
  split <;> next poll_eq =>
    rw [poll_eq] at polled
    exact ⟨rfl, rfl, polled⟩

/-- Waiting for a turn leads onward. -/
theorem onward_awaitTurn (r : Reader) (ticket : Nat) : r.Onward (r.awaitTurn ticket).1 := by
  unfold awaitTurn
  split
  · exact .refl r
  · split
    · exact onward_loadTurn r ticket _
    · exact .refl r

/-- Asking for the metadata leads onward, at whatever stage. -/
theorem onward_askMetadata (r : Reader) (stage : Stage) : r.Onward (r.askMetadata stage).1 := by
  unfold askMetadata
  split
  · exact onward_awaitTurn r _
  · exact onward_loadTurn r _ _
  · split
    · exact .refl r
    · have entered := onward_awaitTurn { r with metadata := r.metadata.enter.1 } r.metadata.enter.2
      exact ⟨entered.header_eq, entered.config_eq, entered.source⟩

/-- What comes of a question leads onward, leaves the turnstile of the metadata as it is,
and leaves nobody waiting with a ticket. All questions but the one for the metadata are so. -/
structure Spares {α : Type} (r : Reader) (outcome : Reader × (α ⊕ Stage)) : Prop where
  onward : r.Onward outcome.1
  metadata_eq : outcome.1.metadata = r.metadata
  ticket : ∀ stage, outcome.2 = .inr stage → stage.ticket? = none

/-- A look at the load of a directory leaves the metadata alone. -/
theorem spares_lookDirectory (r : Reader) (range : ByteRange) (load : Nat) :
    r.Spares (r.lookDirectory range load) := by
  have looked := Source.Onward.look r.directories range load r.source
  unfold lookDirectory
  split
  · next look_eq =>
    rw [look_eq] at looked
    exact ⟨⟨rfl, rfl, looked⟩, rfl, nofun⟩
  · next look_eq =>
    rw [look_eq] at looked
    refine ⟨⟨rfl, rfl, looked⟩, rfl, ?_⟩
    rintro _ ⟨rfl⟩
    rfl

/-- A look at the load of a payload leaves the metadata alone. -/
theorem spares_lookPayload (r : Reader) (range : ByteRange) (load : Nat) :
    r.Spares (r.lookPayload range load) := by
  have looked := Source.Onward.look r.payloads range load r.source
  unfold lookPayload
  split
  · next look_eq =>
    rw [look_eq] at looked
    exact ⟨⟨rfl, rfl, looked⟩, rfl, nofun⟩
  · next look_eq =>
    rw [look_eq] at looked
    refine ⟨⟨rfl, rfl, looked⟩, rfl, ?_⟩
    rintro _ ⟨rfl⟩
    rfl

/-- A plain read leaves the metadata alone. -/
theorem spares_askBytes (r : Reader) (range : ByteRange) (stage : Stage) :
    r.Spares (r.askBytes range stage) := by
  unfold askBytes
  dsimp only
  split
  · next poll_eq => exact ⟨⟨rfl, rfl, .of_poll poll_eq⟩, rfl, nofun⟩
  · next poll_eq =>
    refine ⟨⟨rfl, rfl, .of_poll poll_eq⟩, rfl, ?_⟩
    rintro _ ⟨rfl⟩
    rfl

/-- A question about anything but the metadata leaves them alone. For each of the other
needs this is one of the lemmas above. -/
theorem spares_ask {need : Need} (other : need ≠ .metadata) (r : Reader) (stage : Stage) :
    r.Spares (r.ask stage need) := by
  cases need with
  | metadata => exact absurd rfl other
  | bytes range => exact spares_askBytes r range stage
  | directory range =>
      show r.Spares (r.askDirectory range stage)
      -- A waiter looks again. Who has not asked finds the directory, or looks at once at the
      -- load it has joined or started.
      unfold askDirectory
      split
      · exact spares_lookDirectory r range _
      · split
        · exact ⟨⟨rfl, rfl, .refl _⟩, rfl, nofun⟩
        · next directories load _ =>
          have looked := spares_lookDirectory { r with directories := directories } range load
          exact ⟨⟨looked.onward.header_eq, looked.onward.config_eq, looked.onward.source⟩,
            looked.metadata_eq, looked.ticket⟩
  | payload range =>
      show r.Spares (r.askPayload range stage)
      unfold askPayload
      split
      · exact spares_lookPayload r range _
      · split
        · exact ⟨⟨rfl, rfl, .refl _⟩, rfl, nofun⟩
        · next payloads load _ =>
          have looked := spares_lookPayload { r with payloads := payloads } range load
          exact ⟨⟨looked.onward.header_eq, looked.onward.config_eq, looked.onward.source⟩,
            looked.metadata_eq, looked.ticket⟩

/-- A question leads onward, whatever it is about. -/
theorem onward_ask (r : Reader) (stage : Stage) (need : Need) : r.Onward (r.ask stage need).1 := by
  by_cases metadata : need = .metadata
  · subst metadata
    exact onward_askMetadata r stage
  · exact (spares_ask metadata r stage).onward

/-- Carrying a query on goes onward. The induction is on the query, and each question that
is answered in the same move is one more step. -/
theorem onward_advance {α : Type} (query : Query α) (stage : Stage) (r : Reader) :
    r.Onward (advance query stage r).1 := by
  induction query generalizing stage r with
  | done result => exact .refl r
  | ask need next ih =>
      have asked := onward_ask r stage need
      rw [advance]
      split
      · next t answer ask_eq =>
        rw [ask_eq] at asked
        -- The answer is there, so the query is carried on in the same move.
        exact asked.trans (ih answer .fresh t)
      · next t waits ask_eq =>
        rw [ask_eq] at asked
        exact asked

/-- Giving a question up concerns neither header nor configuration nor source. -/
theorem abandonNeed_eq (r : Reader) (stage : Stage) (need : Need) :
    (r.abandonNeed stage need).header = r.header ∧ (r.abandonNeed stage need).config = r.config ∧
      (r.abandonNeed stage need).source = r.source := by
  unfold abandonNeed
  split <;> (try split) <;> exact ⟨rfl, rfl, rfl⟩

/-- Giving a query up reads nothing. -/
theorem onward_abandon {α : Type} (r : Reader) (w : Waiting α) :
    r.Onward (r.abandon w) ∧ (r.abandon w).source = r.source := by
  unfold abandon
  split
  · exact ⟨.refl r, rfl⟩
  · next need _ _ =>
    obtain ⟨header_eq, config_eq, source_eq⟩ := abandonNeed_eq r w.stage need
    exact ⟨⟨header_eq, config_eq, source_eq ▸ .refl r.source⟩, source_eq⟩

/-- Opening an archive leads onward: it only reads. So a source that is faithful stays so
when a reader is opened on it. -/
theorem onward_open {config : ReaderConfig} {source source' : Source}
    (opened : open? config source = (source', some (.ok r))) : source.Onward r.source := by
  have polled := Source.Onward.pollFetch fetchHeader false source
  rw [open?] at opened
  split at opened
  · -- An archive whose configuration is refused is not read at all.
    cases opened
  · split at opened
    · next t header poll_eq =>
      rw [poll_eq] at polled
      cases header with
      | error e => cases opened
      | ok h =>
          cases opened
          exact polled
    · cases opened

end Reader

/-! ### Queries that leave the metadata alone -/

/-- The query never asks for the metadata, and its results have a property. All requests but
the calls for the metadata are such. -/
def Query.Spares {α : Type} (p : α → Prop) : Query α → Prop
  | .done result => p result
  | .ask need next => need ≠ .metadata ∧ ∀ answer, Query.Spares p (next answer)

namespace Query.Spares

variable {α β : Type} {p : α → Prop}

/-- A query leaves the metadata alone if its two parts do. -/
theorem bind {q : β → Prop} {d : Query α} {f : α → Query β} (first : d.Spares p)
    (second : ∀ result, p result → (f result).Spares q) : Query.Spares q (d.bind f) := by
  induction d with
  | done result => exact second result first
  | ask need next ih => exact ⟨first.1, fun answer => ih answer (first.2 answer)⟩

/-- A computation that only reads leaves the metadata alone. -/
theorem toQuery (d : Fetch α) : d.toQuery.Spares fun _ => True := by
  induction d with
  | done result => trivial
  | ask range next ih => exact ⟨nofun, ih⟩

/-- Going down the directories leaves the metadata alone. It is shown of every answer that a
directory may have, so no archive has to be looked at. -/
theorem descend (h : Header) (id : UInt64) (depth : Nat) (range : ByteRange) :
    (descend h id depth range).Spares fun _ => True := by
  induction depth generalizing range with
  | zero => trivial
  | succ depth ih =>
      -- It asks for directories on the way down and for a payload at the end, never for the
      -- metadata.
      refine ⟨nofun, ?_⟩
      intro answer
      cases answer with
      | error e => trivial
      | ok directory =>
          dsimp only
          split
          · trivial
          · split
            · exact ih _
            · exact ⟨nofun, fun _ => trivial⟩

/-- Looking a tile up leaves the metadata alone. -/
theorem lookUp (h : Header) (c : TileCoord) : (lookUp h c).Spares fun _ => True := by
  unfold TileArchive.lookUp
  split
  · trivial
  · exact descend h _ _ _

/-- Looking a tile up by zoom, column and row leaves the metadata alone, whether or not
there can be such a tile. -/
theorem lookUpAt (h : Header) (z x y : Nat) : (lookUpAt h z x y).Spares fun _ => True := by
  unfold TileArchive.lookUpAt
  split
  · trivial
  · exact lookUp h _

end Query.Spares

/-- Carrying on a query that spares the metadata leaves them alone. Where it waits, the rest of it
spares them too. -/
theorem Reader.advance_spares {α : Type} {p : α → Prop} {query : Query α} (spares : query.Spares p)
    (stage : Stage) (r : Reader) : (advance query stage r).1.metadata = r.metadata ∧
      (∀ result, (advance query stage r).2 = .inl result → p result) ∧
      ∀ w, (advance query stage r).2 = .inr w → w.query.Spares p ∧ w.stage.ticket? = none := by
  induction query generalizing stage r with
  | done result =>
      refine ⟨rfl, ?_, nofun⟩
      rintro _ ⟨rfl⟩
      exact spares
  | ask need next ih =>
      -- The need that is asked for is not that for the metadata, so neither asking for it nor
      -- waiting for it touches the turnstile.
      have asked := spares_ask spares.1 r stage
      rw [advance]
      split
      · next t answer ask_eq =>
        rw [ask_eq] at asked
        obtain ⟨metadata_eq, results, waits⟩ := ih answer (spares.2 answer) .fresh t
        exact ⟨metadata_eq.trans asked.metadata_eq, results, waits⟩
      · next t waits ask_eq =>
        rw [ask_eq] at asked
        refine ⟨asked.metadata_eq, nofun, ?_⟩
        rintro _ ⟨rfl⟩
        exact ⟨spares, asked.ticket waits rfl⟩

/-- Giving up a query that spares the metadata leaves them alone. It may wait for a load of
a cache, and then its place there is what it gives up. -/
theorem Reader.abandon_spares {α : Type} {p : α → Prop} {w : Waiting α} (spares : w.query.Spares p)
    (r : Reader) : (r.abandon w).metadata = r.metadata := by
  unfold abandon
  split
  · rfl
  · next need _ query_eq =>
    rw [query_eq] at spares
    cases need with
    -- The only need whose withdrawal would change the turnstile is excluded.
    | metadata => exact absurd rfl spares.1
    | bytes range => rfl
    | directory range =>
        unfold abandonNeed
        dsimp only
        split <;> rfl
    | payload range =>
        unfold abandonNeed
        dsimp only
        split <;> rfl

/-! ### Calls for the metadata -/

/-- The two calls for the metadata: for what they say, and for what header and metadata say
together. Both put the same question first, so everything about loading is proved of both at
once. -/
inductive MetadataCall where
  | plain
  | joined
deriving DecidableEq

namespace MetadataCall

/-- The request that a call makes. -/
def request : MetadataCall → Request
  | .plain => .metadata
  | .joined => .summary

/-- What a call responds, given what comes of the metadata. -/
def respond (h : Header) : MetadataCall → Except ReadError Metadata → Response
  | .plain, result => .metadata result
  | .joined, result => .summary (result.map (Summary.join h))

/-- A call asks for the metadata and for nothing else. -/
def query (h : Header) (call : MetadataCall) : Query Response :=
  .ask .metadata fun result => .done (call.respond h result)

/-- A call is a query that asks for the metadata and makes its response of them. -/
theorem query_request (h : Header) (config : ReaderConfig) (call : MetadataCall) :
    call.request.query h config = call.query h := by
  cases call <;> rfl

/-- The two calls are told apart by their queries: they respond differently to the same
error. -/
theorem eq_of_query_eq {h : Header} {call call' : MetadataCall}
    (same : call.query h = call'.query h) : call = call' := by
  have next_eq := eq_of_heq (Dialogue.ask.inj same).2
  have respond_eq := Dialogue.done.inj (congrFun next_eq (.ok .empty))
  cases call <;> cases call' <;> first | rfl | cases respond_eq

end MetadataCall

/-- The response gives the metadata. Calls give them as they are or joined with the header. -/
def Response.HasMetadata : Response → Prop
  | .metadata (.ok _) => True
  | .summary (.ok _) => True
  | _ => False

instance : DecidablePred Response.HasMetadata
  | .metadata (.ok _) | .summary (.ok _) => isTrue trivial
  | .metadata (.error _) | .summary (.error _) => isFalse id
  | .payload _ | .coords _ | .tiles _ | .visited _ => isFalse id

/-- A call responds with metadata if it was given some. -/
theorem MetadataCall.hasMetadata_respond (h : Header) (call : MetadataCall)
    (result : Except ReadError Metadata) :
    (call.respond h result).HasMetadata ↔ result.toOption ≠ none := by
  cases call <;> cases result <;> simp [respond, Response.HasMetadata, Except.toOption, Except.map]

/-- Every request is a call for the metadata, or spares them and does not give them. So of
all requests only two kinds have to be followed through a history. -/
theorem Request.call_or_spares (request : Request) :
    (∃ call : MetadataCall, request = call.request) ∨
      ∀ h config, (request.query h config).Spares fun response => ¬ response.HasMetadata := by
  -- Every request but the two calls for the metadata asks its own query and wraps up the
  -- result.
  have others : ∀ {α : Type} (respond : α → Response), (∀ result, ¬ (respond result).HasMetadata) →
      ∀ {d : Query α}, d.Spares (fun _ => True) →
        Query.Spares (fun response => ¬ response.HasMetadata)
          (d.bind fun result => .done (respond result)) :=
    fun _ none _ spares => spares.bind fun result _ => none result
  cases request with
  | tile c => exact .inr fun h _ => others _ (fun _ => id) (.lookUp h c)
  | tileAt z x y => exact .inr fun h _ => others _ (fun _ => id) (.lookUpAt h z x y)
  | coords limit => exact .inr fun _ _ => others _ (fun _ => id) (.toQuery _)
  | tiles limit => exact .inr fun _ _ => others _ (fun _ => id) (.toQuery _)
  | visit => exact .inr fun _ _ => others _ (fun _ => id) (.toQuery _)
  | metadata => exact .inl ⟨.plain, rfl⟩
  | summary => exact .inl ⟨.joined, rfl⟩

end TileArchive
