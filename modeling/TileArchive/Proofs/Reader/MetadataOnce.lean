import Mathlib.Data.List.Induction
import TileArchive.Proofs.Reader.Events
import TileArchive.Proofs.Reader.Opening

/-!
# `TileArchive.Proofs.Reader.MetadataOnce`: the metadata are loaded once

`metadata_loaded_once`: whatever happens to an archive that has been opened, calls for the metadata
load them anew until one of them succeeds, and from then on all are given what that one loaded,
without a read. A failure of any kind is not remembered. Calls may overlap, may be given up, and may
come between requests of all other kinds; reads may fail or wait at any time.

The proof follows the history event by event. `Tracked` relates what can be seen of it, the
responses and the reads noted for every call, to what the reader keeps: a call has succeeded exactly
if the turnstile has a value, and a waiting call has begun its read exactly if it is loading.

## What is assumed

The metadata are kept in a cell that is initialised at most once and shared by all calls. What such
a cell promises is written out in `Reader/Turnstile.lean`, and nothing else is used: one attempt at
a time, those who wait in the order of their arrival, a failure or a dropped call passes the turn,
a success serves everyone. That the *reader* loads the metadata once does not follow from this
alone. It also takes that every call goes through the cell, that a failed load leaves no trace
beside it, and that no other request touches it, and these are proved.

## What is stated

The theorem gives one value for the whole history, the metadata that the first successful call
loaded, and speaks of every event that carries a call on:

* before the first success it is an attempt of its own (`Attempts`): it begins the one read of the
  section, unless the section is empty or too long, and responds with what its own load came to,
  or it waits, for its read or for another call;
* after the first success it responds with the one value and reads nothing.

Which reads belong to a call is told from outside: `noted` collects, for every name, the reads that
were begun in events about this name since the call was started. The last part says what the value
is: where the source cuts no answers short, it is what the archive stores.
-/

set_option autoImplicit false

namespace TileArchive

namespace ReaderSession

/-! ### What can be seen of a history -/

/-- The responses that some events bring, in order. -/
def responses (s : ReaderSession) : List SessionEvent → List Response
  | [] => []
  | event :: rest => (s.step event).2.toList ++ (s.step event).1.responses rest

/-- A call for the metadata has succeeded. This is told by the responses alone, as a caller
sees them. -/
def Succeeded (s : ReaderSession) (history : List SessionEvent) : Prop :=
  ∃ response ∈ s.responses history, response.HasMetadata

instance (s : ReaderSession) (history : List SessionEvent) : Decidable (s.Succeeded history) :=
  inferInstanceAs (Decidable (∃ response ∈ s.responses history, response.HasMetadata))

/-- The reads that an event begins. The source keeps a list of all reads, to which an event
may add. -/
def begun (s : ReaderSession) (event : SessionEvent) : List ByteRange :=
  (s.step event).1.reader.source.reads.drop s.reader.source.reads.length

/-- The reads that were begun for the request of an event, this event included, given those that
were noted for each name before. -/
def begunFor (s : ReaderSession) (noted : String → List ByteRange) (event : SessionEvent) :
    List ByteRange :=
  match event with
  | .poll name => noted name ++ s.begun event
  | _ => s.begun event

/-- Takes an event, and notes under the name of its request which reads were begun for that. -/
def note (p : ReaderSession × (String → List ByteRange)) (event : SessionEvent) :
    ReaderSession × (String → List ByteRange) :=
  ((p.1.step event).1, fun name =>
    if event.name? = some name then p.1.begunFor p.2 event else p.2 name)

/-- The reads that are noted for each name after some events. This account is kept outside
the session, so that what it says does not depend on how the session stores its calls. -/
def noted (s : ReaderSession) (history : List SessionEvent) : String → List ByteRange :=
  (history.foldl note (s, fun _ => [])).2

/-- The event carries a call on. -/
def CarriesOn (s : ReaderSession) (call : MetadataCall) (event : SessionEvent) : Prop :=
  ∃ stage, s.carried event = some ⟨call.query s.reader.header, stage⟩

/-- Some other call than the one that the event carries on is waiting. A call that does not
load on its turn has left this to another one. -/
def OtherCallWaits (s : ReaderSession) (event : SessionEvent) : Prop :=
  ∃ task ∈ s.others event, ∃ call : MetadataCall, task.2.query = call.query s.reader.header

/-- What a call does as long as none has succeeded, seen from an event that carries it on. Where
there is something to read it begins one read in all, and responds what comes of that read and of
nothing else. It has no response only while reads have to wait or while another call is before
it. -/
def Attempts (s : ReaderSession) (call : MetadataCall) (event : SessionEvent)
    (reads : List ByteRange) (response : Option Response) : Prop :=
  let h := s.reader.header
  let length := h.metadata.stop.toNat - h.metadata.offset.toNat
  let range : ByteRange := ⟨h.metadata.offset, UInt32.ofNat length⟩
  if Word.largest32 < length then
    reads = [] ∧ response = some (call.respond h (.error (.io
      (.of .invalidData s!"The metadata blob is too large to read: {length} bytes"))))
  else if length = 0 then reads = [] ∧ response = some (call.respond h (.ok .empty))
  else match response with
    | some response => reads = [range] ∧ response
        = call.respond h ((s.reader.source.finish range).2.mapError .io >>= decodeMetadata h)
    | none =>
      (reads = [range] ∧ s.reader.source.held = true) ∨ (reads = [] ∧ s.OtherCallWaits event)

variable {s₀ s : ReaderSession} {history : List SessionEvent} {event : SessionEvent}

/-- The responses of a history in two parts. -/
theorem responses_append (s : ReaderSession) (first second : List SessionEvent) :
    s.responses (first ++ second)
      = s.responses first ++ (s.afterEvents first).responses second := by
  induction first generalizing s with
  | nil => rfl
  | cons event first ih =>
      rw [List.cons_append, responses, responses, ih, List.append_assoc]
      rfl

/-- A call has succeeded by now if one had before, or one does in the last event. -/
theorem succeeded_concat_iff : s.Succeeded (history ++ [event]) ↔ s.Succeeded history ∨
    ∃ response, ((s.afterEvents history).step event).2 = some response ∧ response.HasMetadata := by
  simp only [Succeeded, responses_append, responses, List.append_nil, List.mem_append,
    Option.mem_toList, or_and_right, exists_or]

/-- A history that goes on with one more event. -/
theorem afterEvents_concat : s.afterEvents (history ++ [event])
    = ((s.afterEvents history).step event).1 :=
  s.afterEvents_append history [event]

/-- Taking notes does not disturb the session. -/
theorem foldl_note (s : ReaderSession) (history : List SessionEvent) :
    history.foldl note (s, fun _ => []) = (s.afterEvents history, s.noted history) := by
  induction history using List.reverseRecOn with
  | nil => rfl
  | append_singleton history event ih =>
      have session_eq : ((history ++ [event]).foldl note (s, fun _ => [])).1
          = s.afterEvents (history ++ [event]) := by
        rw [List.foldl_append, ih, afterEvents_concat]
        rfl
      rw [← session_eq]
      rfl

/-- An event is noted under its name, after what was noted under it before if it carries
that on. -/
theorem noted_concat (name : String) : s.noted (history ++ [event]) name
    = if event.name? = some name then (s.afterEvents history).begunFor (s.noted history) event
      else s.noted history name := by
  rw [noted, List.foldl_append, foldl_note]
  rfl

/-- What is begun where it is known how the log of the reader grows that carries a query on. -/
theorem Carried.begun_eq {t : Reader} {outcome : Response ⊕ Waiting Response}
    (carried : s.Carried event t outcome) (source_eq : (s.prepared event).source = s.reader.source)
    {begun : List ByteRange}
    (reads_eq : t.source.reads = (s.prepared event).source.reads ++ begun) :
    s.begun event = begun := by
  rw [ReaderSession.begun, carried.source_eq, reads_eq, source_eq, List.drop_left]

/-! ### What the reader keeps of a history -/

/-- What can be seen of a history agrees with what the reader keeps: whether a call has
succeeded, and which reads were begun for the calls that wait. So statements about responses
and reads can be proved from the state. -/
structure Tracked (s₀ : ReaderSession) (history : List SessionEvent) : Prop where
  orderly : (s₀.afterEvents history).Orderly
  header_eq : (s₀.afterEvents history).reader.header = s₀.reader.header
  succeeded : s₀.Succeeded history ↔ (s₀.afterEvents history).reader.metadata.value ≠ none
  noted : ∀ task ∈ (s₀.afterEvents history).tasks, ∀ call : MetadataCall,
    task.2.query = call.query s₀.reader.header →
      s₀.noted history task.1 = task.2.stage.metadataReads s₀.reader.header

/-- An archive that was just opened: nobody waits, and there is no value. -/
theorem tracked_new {r : Reader} (metadata_eq : r.metadata = .new) :
    (ReaderSession.new r).Tracked [] := by
  refine ⟨orderly_new metadata_eq, rfl, ?_, nofun⟩
  have no_value : r.metadata.value = none := by
    rw [metadata_eq]
    rfl
  constructor
  · rintro ⟨_, member, -⟩
    cases member
  · exact fun value => absurd no_value value

/-- A call is carried on in a session. The move is that of the reader, and the session is
what it was beside it: the others that wait are as they were. -/
theorem Orderly.carry_call (orderly : s.Orderly) {call : MetadataCall} {stage : Stage}
    (carried_eq : s.carried event = some ⟨call.query s.reader.header, stage⟩) :
    ∃ t outcome, CallMove (s.prepared event) call stage ((s.others event).map Prod.snd) t outcome ∧
      s.Carried event t outcome ∧ t.header = s.reader.header := by
  -- The move is one of the reader after its preparation, which keeps the header.
  obtain ⟨waiting, onward, -, -⟩ := orderly.prepared carried_eq
  have header_eq := onward.header_eq
  rw [← header_eq] at waiting
  obtain ⟨t, outcome, advance_eq, move, waiting'⟩ := waiting.advance_call
  have advanced := Reader.onward_advance (call.query (s.prepared event).header) stage
    (s.prepared event)
  rw [advance_eq] at advanced
  rw [header_eq] at advance_eq
  exact ⟨t, outcome, move, orderly.carry carried_eq advance_eq waiting',
    advanced.header_eq.trans header_eq⟩

/-- The reads that were begun for a call before are those of its stage. A call that is new
in the event has none, and one that was kept waiting has been noted. -/
theorem Tracked.begunFor_eq (tracked : s₀.Tracked history) {call : MetadataCall} {stage : Stage}
    (carried_eq : (s₀.afterEvents history).carried event
      = some ⟨call.query s₀.reader.header, stage⟩) :
    (s₀.afterEvents history).begunFor (s₀.noted history) event
      = stage.metadataReads s₀.reader.header ++ (s₀.afterEvents history).begun event := by
  cases event with
  | run request =>
      obtain rfl : Stage.fresh = stage := congrArg Waiting.stage (Option.some.inj carried_eq)
      rfl
  | start name request =>
      obtain rfl : Stage.fresh = stage := congrArg Waiting.stage (Option.some.inj carried_eq)
      rfl
  | poll name =>
      -- A call that is polled has been noted before, with the reads that its stage accounts
      -- for.
      have member := tracked.orderly.task?_eq_some_iff.mp carried_eq
      rw [← tracked.noted _ member call rfl]
      rfl
  | drop _ => cases carried_eq
  | disturb _ => cases carried_eq
  | hold _ => cases carried_eq
  | resetCounters => cases carried_eq

/-- Who holds a ticket for the metadata is a call. -/
theorem Orderly.otherCallWaits (orderly : s.Orderly)
    (behind : ticketsOf ((s.others event).map Prod.snd) ≠ []) : s.OtherCallWaits event := by
  obtain ⟨ticket, ticket_mem⟩ := List.exists_mem_of_ne_nil _ behind
  obtain ⟨w, member, ticket_eq⟩ := List.mem_filterMap.mp ticket_mem
  obtain ⟨task, task_mem, task_eq⟩ := List.mem_map.mp member
  have waits := List.mem_map.mpr ⟨task, (mem_others task_mem).1, task_eq⟩
  have regular := orderly.waiting.regular w waits
  refine ⟨task, task_mem, ?_⟩
  -- Only a call has a ticket, so whoever holds one is a call.
  cases regular with
  | spares _ no_ticket => cases no_ticket.symm.trans ticket_eq
  | fresh call => exact ⟨call, congrArg Waiting.query task_eq⟩
  | queued call _ _ => exact ⟨call, congrArg Waiting.query task_eq⟩
  | loading call _ _ => exact ⟨call, congrArg Waiting.query task_eq⟩

/-- A load that has ended is an attempt: it has made the read that the section asks for, and
its response is what came of that read. -/
theorem attempts_of_answered (s : ReaderSession) (call : MetadataCall) (event : SessionEvent) :
    s.Attempts call event s.reader.header.metadataReads
      (some (call.respond s.reader.header (s.reader.source.metadata s.reader.header))) := by
  unfold Attempts
  dsimp only
  -- The three cases are those of the section: too long, empty, and one that is read.
  rcases s.reader.source.metadata_cases s.reader.header with
    ⟨large, reads_eq, result_eq⟩ | ⟨fits, empty, reads_eq, result_eq⟩ |
      ⟨fits, not_empty, reads_eq, result_eq⟩
  · rw [if_pos large, reads_eq, result_eq]
    exact ⟨rfl, rfl⟩
  · rw [if_neg fits, if_pos empty, reads_eq, result_eq]
    exact ⟨rfl, rfl⟩
  · rw [if_neg fits, if_neg not_empty, reads_eq, result_eq]
    exact ⟨rfl, rfl⟩

/-- A load whose read has to wait is an attempt, and so is a call that waits for another. -/
theorem attempts_of_waiting {call : MetadataCall} {reads : List ByteRange}
    (to_read : s.reader.header.metadataReads ≠ [])
    (waits : reads = s.reader.header.metadataReads ∧ s.reader.source.held = true ∨
      reads = [] ∧ s.OtherCallWaits event) : s.Attempts call event reads none := by
  unfold Attempts
  dsimp only
  rcases s.reader.source.metadata_cases s.reader.header with
    ⟨-, reads_eq, -⟩ | ⟨-, -, reads_eq, -⟩ | ⟨fits, not_empty, reads_eq, -⟩
  · exact absurd reads_eq to_read
  · exact absurd reads_eq to_read
  · rw [if_neg fits, if_neg not_empty, ← reads_eq]
    exact waits

/-- As long as no call has succeeded, a call loads the metadata itself. Over all events that
carry it on it makes one read, and its own outcome is its response, whatever came of calls
before it. -/
theorem Tracked.attempts (tracked : s₀.Tracked history) {call : MetadataCall} {stage : Stage}
    (carried_eq : (s₀.afterEvents history).carried event
      = some ⟨call.query s₀.reader.header, stage⟩)
    (no_value : (s₀.afterEvents history).reader.metadata.value = none) :
    (s₀.afterEvents history).Attempts call event
      ((s₀.afterEvents history).begunFor (s₀.noted history) event)
      ((s₀.afterEvents history).step event).2 := by
  rw [tracked.begunFor_eq carried_eq]
  have orderly := tracked.orderly
  rw [← tracked.header_eq] at carried_eq ⊢
  generalize s₀.afterEvents history = s at *
  obtain ⟨-, onward, value_eq, source_eq⟩ := orderly.prepared carried_eq
  obtain ⟨t, outcome, move, carried, -⟩ := orderly.carry_call carried_eq
  have header_eq := onward.header_eq
  rw [carried.response_eq]
  -- Without a value the call is not given one, so it waits, or its load is suspended or ends.
  cases move with
  | given given_eq _ => cases (value_eq.trans no_value).symm.trans given_eq
  | waits _ _ no_read same_source reads behind =>
      rw [header_eq] at no_read reads
      rw [carried.begun_eq source_eq (by rw [same_source, List.append_nil]), no_read]
      -- Who waits without a load of its own waits behind another call that has one.
      exact attempts_of_waiting reads (.inr ⟨rfl, orderly.otherCallWaits behind⟩)
  | suspended _ _ reads_eq once reads held =>
      rw [header_eq] at once reads
      rw [carried.begun_eq source_eq reads_eq, once]
      exact attempts_of_waiting reads (.inl ⟨rfl, source_eq ▸ held⟩)
  | answered _ _ reads_eq once =>
      rw [header_eq] at once
      rw [carried.begun_eq source_eq reads_eq, once, header_eq, source_eq]
      exact s.attempts_of_answered call event

/-- Once a call has succeeded, a call is given what that one loaded, and reads nothing. This
is so also for a call that was waiting for its turn when the first one succeeded. -/
theorem Tracked.given (tracked : s₀.Tracked history) {call : MetadataCall} {stage : Stage}
    (carried_eq : (s₀.afterEvents history).carried event
      = some ⟨call.query s₀.reader.header, stage⟩) {metadata : Metadata}
    (value_eq : (s₀.afterEvents history).reader.metadata.value = some metadata) :
    (s₀.afterEvents history).begunFor (s₀.noted history) event = [] ∧
      ((s₀.afterEvents history).step event).2
        = some (call.respond s₀.reader.header (.ok metadata)) := by
  rw [tracked.begunFor_eq carried_eq]
  have orderly := tracked.orderly
  rw [← tracked.header_eq] at carried_eq ⊢
  generalize s₀.afterEvents history = s at *
  obtain ⟨-, onward, same_value, source_eq⟩ := orderly.prepared carried_eq
  obtain ⟨t, outcome, move, carried, -⟩ := orderly.carry_call carried_eq
  have header_eq := onward.header_eq
  have value_eq' := same_value.trans value_eq
  -- With a value there is nothing to wait for, which leaves one of the four moves.
  cases move with
  | given given_eq no_read =>
      obtain rfl := Option.some.inj (given_eq.symm.trans value_eq')
      rw [header_eq] at no_read
      refine ⟨?_, ?_⟩
      · rw [no_read, carried.begun_eq source_eq (List.append_nil _).symm]
        rfl
      · rw [carried.response_eq, header_eq]
        rfl
  | waits no_value => cases no_value.symm.trans value_eq'
  | suspended no_value => cases no_value.symm.trans value_eq'
  | answered no_value => cases no_value.symm.trans value_eq'

/-! ### One more event -/

/-- An event carries no query on, or one that spares the metadata, or a call for them. The
last case is the one that the property is about, and the others must not disturb it. -/
theorem Orderly.carried_cases (orderly : s.Orderly) (event : SessionEvent) :
    s.carried event = none ∨
      (∃ w, s.carried event = some w ∧
        (w.query.Spares fun response => ¬ response.HasMetadata) ∧ w.stage.ticket? = none) ∨
      ∃ call, s.CarriesOn call event := by
  cases carried_eq : s.carried event with
  | none => exact .inl rfl
  | some w =>
      obtain ⟨waiting, onward, -, -⟩ := orderly.prepared carried_eq
      have regular := waiting.regular w List.mem_cons_self
      rw [onward.header_eq] at regular
      -- A task is regular at its stage, and the stages tell calls from all other queries.
      cases regular with
      | spares spares no_ticket => exact .inr (.inl ⟨w, rfl, spares, no_ticket⟩)
      | fresh call => exact .inr (.inr ⟨call, _, carried_eq⟩)
      | queued call _ _ => exact .inr (.inr ⟨call, _, carried_eq⟩)
      | loading call _ _ => exact .inr (.inr ⟨call, _, carried_eq⟩)

/-- A query that spares the metadata is carried on in a session. It does not give a response
with metadata and does not turn into a call, so nothing that can be seen of the calls
changes. -/
theorem Orderly.carry_spares (orderly : s.Orderly) {w : Waiting Response}
    (carried_eq : s.carried event = some w)
    (spares : w.query.Spares fun response => ¬ response.HasMetadata)
    (no_ticket : w.stage.ticket? = none) :
    ∃ t outcome, s.Carried event t outcome ∧ t.header = s.reader.header ∧
      t.metadata.value = s.reader.metadata.value ∧
      (∀ response, outcome = .inl response → ¬ response.HasMetadata) ∧
      ∀ waits, outcome = .inr waits → ∀ call : MetadataCall,
        waits.query ≠ call.query s.reader.header := by
  obtain ⟨waiting, onward, value_eq, -⟩ := orderly.prepared carried_eq
  obtain ⟨t, outcome, advance_eq, metadata_eq, results, waiting'⟩ :=
    waiting.advance_spares spares no_ticket
  have advanced := Reader.onward_advance w.query w.stage (s.prepared event)
  have rest := (Reader.advance_spares spares w.stage (s.prepared event)).2.2
  rw [advance_eq] at advanced rest
  refine ⟨t, outcome, orderly.carry carried_eq advance_eq waiting',
    advanced.header_eq.trans onward.header_eq, (congrArg _ metadata_eq).trans value_eq, results, ?_⟩
  intro waits waits_eq call query_eq
  have spared := (rest waits waits_eq).1
  rw [query_eq] at spared
  -- A query that is still waiting and spares the metadata cannot be a call, which asks for
  -- them first.
  exact spared.1 rfl

/-- An event leaves the value of the turnstile as it is and, if there is none, responds with
no metadata; or it is an event of a call that makes the value and responds with it. -/
theorem Orderly.value_step (orderly : s.Orderly) (event : SessionEvent) :
    ((s.step event).1.reader.metadata.value = s.reader.metadata.value ∧
      ∀ response, (s.step event).2 = some response → response.HasMetadata →
        s.reader.metadata.value ≠ none) ∨
    (s.reader.metadata.value = none ∧ ∃ call metadata, s.CarriesOn call event ∧
      (s.step event).1.reader.metadata.value = some metadata ∧
      (s.step event).2 = some (call.respond s.reader.header (.ok metadata)) ∧
      s.reader.source.metadata s.reader.header = .ok metadata) := by
  rcases orderly.carried_cases event with
    carried_eq | ⟨w, carried_eq, spares, no_ticket⟩ | ⟨call, stage, carried_eq⟩
  · obtain ⟨-, -, value_eq, response_eq, -⟩ := orderly.step_of_not_carried carried_eq
    refine .inl ⟨value_eq, ?_⟩
    intro response some_eq
    cases response_eq.symm.trans some_eq
  · obtain ⟨t, outcome, carried, -, value_eq, results, -⟩ :=
      orderly.carry_spares carried_eq spares no_ticket
    refine .inl ⟨carried.value_eq.trans value_eq, ?_⟩
    intro response some_eq has_metadata
    rw [carried.response_eq, Sum.getLeft?_eq_some_iff] at some_eq
    exact absurd has_metadata (results response some_eq)
  · obtain ⟨-, onward, value_eq, source_eq⟩ := orderly.prepared carried_eq
    obtain ⟨t, outcome, move, carried, -⟩ := orderly.carry_call carried_eq
    rw [carried.value_eq, carried.response_eq]
    -- Only a load that ends with a value makes one. In the other three moves the value stays.
    cases move with
    | given given_eq _ =>
        refine .inl ⟨value_eq, fun _ _ _ => ?_⟩
        rw [← value_eq, given_eq]
        exact Option.some_ne_none _
    | waits no_value no_value' =>
        refine .inl ⟨no_value'.trans (no_value.symm.trans value_eq), ?_⟩
        intro response some_eq
        cases some_eq
    | suspended no_value no_value' =>
        refine .inl ⟨no_value'.trans (no_value.symm.trans value_eq), ?_⟩
        intro response some_eq
        cases some_eq
    | answered no_value answered_eq =>
        rw [onward.header_eq, source_eq] at answered_eq ⊢
        have no_value' := value_eq.symm.trans no_value
        cases own : s.reader.source.metadata s.reader.header with
        | ok metadata =>
            rw [own] at answered_eq
            exact .inr ⟨no_value', call, metadata, ⟨stage, carried_eq⟩, answered_eq, rfl, rfl⟩
        | error e =>
            rw [own] at answered_eq
            refine .inl ⟨answered_eq.trans no_value'.symm, ?_⟩
            rintro _ ⟨rfl⟩ has_metadata
            exact absurd rfl ((call.hasMetadata_respond _ _).mp has_metadata)

/-- Those who wait stay orderly. -/
theorem Orderly.step (orderly : s.Orderly) (event : SessionEvent) :
    (s.step event).1.Orderly ∧ (s.step event).1.reader.header = s.reader.header := by
  rcases orderly.carried_cases event with
    carried_eq | ⟨w, carried_eq, spares, no_ticket⟩ | ⟨call, stage, carried_eq⟩
  · obtain ⟨orderly', header_eq, -⟩ := orderly.step_of_not_carried carried_eq
    exact ⟨orderly', header_eq⟩
  · obtain ⟨t, outcome, carried, header_eq, -⟩ := orderly.carry_spares carried_eq spares no_ticket
    exact ⟨carried.orderly, carried.header_eq.trans header_eq⟩
  · obtain ⟨t, outcome, -, carried, header_eq⟩ := orderly.carry_call carried_eq
    exact ⟨carried.orderly, carried.header_eq.trans header_eq⟩

/-- What is noted for a call that waits is the read that it has begun, if it has. A call
that waits for its turn has begun none, and what was noted of an earlier one with the same
name is forgotten. -/
theorem Tracked.noted_step (tracked : s₀.Tracked history) {task : String × Waiting Response}
    (member : task ∈ ((s₀.afterEvents history).step event).1.tasks) {call : MetadataCall}
    (query_eq : task.2.query = call.query s₀.reader.header) :
    s₀.noted (history ++ [event]) task.1 = task.2.stage.metadataReads s₀.reader.header := by
  rw [noted_concat]
  -- A request that the event is not about waits as it did.
  have of_other (member : task ∈ (s₀.afterEvents history).others event) :
      (if event.name? = some task.1 then
          (s₀.afterEvents history).begunFor (s₀.noted history) event
        else s₀.noted history task.1) = task.2.stage.metadataReads s₀.reader.header := by
    obtain ⟨task_mem, apart⟩ := mem_others member
    rw [if_neg apart]
    exact tracked.noted task task_mem call query_eq
  rcases tracked.orderly.carried_cases event with
    carried_eq | ⟨w, carried_eq, spares, no_ticket⟩ | ⟨call', stage, carried_eq⟩
  · obtain ⟨-, -, -, -, tasks⟩ := tracked.orderly.step_of_not_carried carried_eq
    exact of_other (tasks task member)
  · obtain ⟨t, outcome, carried, -, -, -, rest⟩ :=
      tracked.orderly.carry_spares carried_eq spares no_ticket
    rcases carried.tasks task member with other | ⟨-, waits_eq⟩
    · exact of_other other
    · rw [← tracked.header_eq] at query_eq
      exact absurd query_eq (rest task.2 waits_eq call)
  · obtain ⟨-, onward, -, source_eq⟩ := tracked.orderly.prepared carried_eq
    obtain ⟨t, outcome, move, carried, -⟩ := tracked.orderly.carry_call carried_eq
    rcases carried.tasks task member with other | ⟨name_eq, waits_eq⟩
    · exact of_other other
    · have header_eq := onward.header_eq.trans tracked.header_eq
      rw [tracked.header_eq] at carried_eq
      rw [if_pos name_eq, tracked.begunFor_eq carried_eq]
      cases move with
      | given => cases waits_eq
      | waits _ _ no_read same_source =>
          rw [header_eq] at no_read
          rw [← Sum.inr.inj waits_eq, no_read,
            carried.begun_eq source_eq (by rw [same_source, List.append_nil])]
          rfl
      | suspended _ _ reads_eq once =>
          rw [header_eq] at once
          rw [← Sum.inr.inj waits_eq, carried.begun_eq source_eq reads_eq, once]
          rfl
      | answered => cases waits_eq

/-- One more event is taken in. The state follows by the lemmas on events, and what can be
seen of the history grows by one response and by the reads of one event. -/
theorem Tracked.concat (tracked : s₀.Tracked history) (event : SessionEvent) :
    s₀.Tracked (history ++ [event]) := by
  obtain ⟨orderly, header_eq⟩ := tracked.orderly.step event
  refine ⟨?_, ?_, ?_, ?_⟩
  · rwa [afterEvents_concat]
  · rw [afterEvents_concat]
    exact header_eq.trans tracked.header_eq
  · rw [succeeded_concat_iff, tracked.succeeded, afterEvents_concat]
    -- The event leaves the value as it was, or it is the first call to succeed and gives it
    -- away.
    rcases tracked.orderly.value_step event with
      ⟨value_eq, before⟩ | ⟨no_value, call, metadata, -, value_eq, response_eq, -⟩
    · rw [value_eq]
      refine ⟨?_, .inl⟩
      -- No response shows metadata unless they are held by the time it is given.
      rintro (value | ⟨response, response_eq, has_metadata⟩)
      · exact value
      · exact before response response_eq has_metadata
    · rw [value_eq]
      refine iff_of_true (.inr ⟨_, response_eq, ?_⟩) (Option.some_ne_none _)
      exact (call.hasMetadata_respond _ _).mpr (Option.some_ne_none _)
  · rw [afterEvents_concat]
    intro task member call query_eq
    exact tracked.noted_step member query_eq

/-- Any history of a reader that has just been opened is tracked. -/
theorem tracked_history {r : Reader} (metadata_eq : r.metadata = .new)
    (history : List SessionEvent) : (ReaderSession.new r).Tracked history := by
  induction history using List.reverseRecOn with
  | nil => exact tracked_new metadata_eq
  | append_singleton history event ih => exact ih.concat event

/-- Once the metadata have been loaded they stay. -/
theorem value_append {r : Reader} (metadata_eq : r.metadata = .new) {metadata : Metadata}
    (value_eq : ((ReaderSession.new r).afterEvents history).reader.metadata.value = some metadata)
    (more : List SessionEvent) :
    ((ReaderSession.new r).afterEvents (history ++ more)).reader.metadata.value
      = some metadata := by
  induction more using List.reverseRecOn with
  | nil => rwa [List.append_nil]
  | append_singleton more event ih =>
      rw [← List.append_assoc, afterEvents_concat]
      rcases (tracked_history metadata_eq (history ++ more)).orderly.value_step event with
        ⟨value_eq', -⟩ | ⟨no_value, -⟩
      · exact value_eq'.trans ih
      · cases no_value.symm.trans ih

/-- Where the source cuts nothing, a value that was made is what the archive stores. The
induction is on the history: a value is kept for good, so it was made in one of the events. -/
theorem storesMetadata_of_value {r : Reader} (metadata_eq : r.metadata = .new)
    {answer : ByteRange → Except IoError Bytes} (faithful : r.source.Faithful answer)
    (cuts_nothing : ∀ d, .disturb d ∈ history → d.CutsNothing) :
    let final := (ReaderSession.new r).afterEvents history
    final.reader.source.Faithful answer ∧ ∀ metadata,
      final.reader.metadata.value = some metadata → r.header.StoresMetadata answer metadata := by
  -- By induction on the history from its end: the value is from before, or the last event
  -- made it.
  induction history using List.reverseRecOn with
  | nil =>
      refine ⟨faithful, ?_⟩
      intro metadata value_eq
      change r.metadata.value = some metadata at value_eq
      rw [metadata_eq] at value_eq
      cases value_eq
  | append_singleton history event ih =>
      have first : ∀ d, .disturb d ∈ history → d.CutsNothing := fun d member =>
        cuts_nothing d (List.mem_append_left _ member)
      have last : ∀ d ∈ event.disturbances, d.CutsNothing := by
        intro d member
        cases event with
        | disturb _ =>
            obtain rfl := List.mem_singleton.mp member
            exact cuts_nothing d (List.mem_append_right _ List.mem_cons_self)
        | _ => cases member
      obtain ⟨faithful', stores⟩ := ih first
      have tracked := tracked_history metadata_eq history
      dsimp only
      rw [afterEvents_concat]
      refine ⟨tracked.orderly.faithful_step faithful' last, ?_⟩
      · intro metadata value_eq
        rcases tracked.orderly.value_step event with
          ⟨same, -⟩ | ⟨-, -, own, -, value_eq', -, loaded⟩
        · exact stores metadata (same.symm.trans value_eq)
        · obtain rfl := Option.some.inj (value_eq'.symm.trans value_eq)
          rw [tracked.header_eq] at loaded
          exact faithful'.storesMetadata loaded

/-- The first success of a call is what the reader keeps. There is no value before it, so
the response was not given from memory but was loaded by this call. -/
theorem Tracked.first_success (tracked : s₀.Tracked history) {call : MetadataCall}
    (carries_on : (s₀.afterEvents history).CarriesOn call event)
    (no_value : (s₀.afterEvents history).reader.metadata.value = none) {given : Response}
    (given_eq : ((s₀.afterEvents history).step event).2 = some given)
    (has_metadata : given.HasMetadata) : ∃ metadata,
      ((s₀.afterEvents history).step event).1.reader.metadata.value = some metadata ∧
        given = call.respond s₀.reader.header (.ok metadata) := by
  rcases tracked.orderly.value_step event with
    ⟨-, before⟩ | ⟨-, other, metadata, ⟨_, other_carried⟩, value_eq, response_eq, -⟩
  · exact absurd no_value (before given given_eq has_metadata)
  · obtain ⟨_, carried_eq⟩ := carries_on
    have same := congrArg Waiting.query (Option.some.inj (carried_eq.symm.trans other_carried))
    obtain rfl := MetadataCall.eq_of_query_eq same
    rw [tracked.header_eq] at response_eq
    exact ⟨metadata, value_eq, Option.some.inj (given_eq.symm.trans response_eq)⟩

end ReaderSession

open ReaderSession

/-- The metadata of an archive that has been opened are loaded at most once, whatever else happens
to it: there is one record such that in any history

* as long as no call has succeeded, each call makes an attempt of its own, and if that succeeds
  responds the record,
* from then on each call responds the record and has begun no read for it,
* the record is what the archive stores as its metadata, unless reads lose bytes. -/
theorem metadata_loaded_once {config : ReaderConfig} {source source' : Source} {r : Reader}
    (opened : Reader.open? config source = (source', some (.ok r)))
    (history : List SessionEvent) : ∃ metadata : Metadata,
      (∀ before event after (call : MetadataCall), history = before ++ event :: after →
        let s₀ := ReaderSession.new r
        let s := s₀.afterEvents before
        let reads := s.begunFor (s₀.noted before) event
        let response := (s.step event).2
        s.CarriesOn call event → s.reader.header = r.header ∧
          (¬ s₀.Succeeded before → s.Attempts call event reads response ∧
            ∀ given, response = some given → given.HasMetadata →
              given = call.respond r.header (.ok metadata)) ∧
          (s₀.Succeeded before →
            reads = [] ∧ response = some (call.respond r.header (.ok metadata)))) ∧
      ∀ answer, source.Faithful answer → (∀ d, .disturb d ∈ history → d.CutsNothing) →
        (ReaderSession.new r).Succeeded history → r.header.StoresMetadata answer metadata := by
  have metadata_eq : r.metadata = .new := by
    rw [Reader.opened_eq opened]
    rfl
  let final := ((ReaderSession.new r).afterEvents history).reader.metadata.value
  -- Whatever value there is at some time is the one that there is in the end.
  have final_eq {before after : List SessionEvent} {metadata : Metadata}
      (history_eq : history = before ++ after)
      (value_eq : ((ReaderSession.new r).afterEvents before).reader.metadata.value
        = some metadata) : metadata = final.getD .empty := by
    have kept : final = some metadata := by
      rw [← value_append metadata_eq value_eq after, ← history_eq]
    rw [kept, Option.getD_some]
  -- The one value is the one that the turnstile has in the end. Without a success there is
  -- none, and nothing is said about it.
  refine ⟨final.getD .empty, ?_, ?_⟩
  · intro before event after call history_eq s₀ s reads response carries_on
    have tracked := tracked_history metadata_eq before
    have ⟨stage, carried_eq⟩ := carries_on
    rw [tracked.header_eq] at carried_eq
    refine ⟨tracked.header_eq, fun no_success => ?_, fun success => ?_⟩
    · have no_value : s.reader.metadata.value = none :=
        Classical.not_not.mp (mt tracked.succeeded.mpr no_success)
      refine ⟨tracked.attempts carried_eq no_value, ?_⟩
      intro given given_eq has_metadata
      obtain ⟨metadata, value_eq, given_eq'⟩ :=
        tracked.first_success carries_on no_value given_eq has_metadata
      rw [← afterEvents_concat] at value_eq
      rw [given_eq', final_eq (by rw [history_eq, List.append_cons]) value_eq]
      rfl
    · obtain ⟨metadata, value_eq⟩ := Option.ne_none_iff_exists'.mp (tracked.succeeded.mp success)
      rw [← final_eq history_eq value_eq]
      exact tracked.given carried_eq value_eq
  · intro answer faithful cuts_nothing success
    have tracked := tracked_history metadata_eq history
    obtain ⟨metadata, value_eq⟩ := Option.ne_none_iff_exists'.mp (tracked.succeeded.mp success)
    rw [← final_eq (List.append_nil history).symm value_eq]
    have opened_faithful : r.source.Faithful answer := faithful.onward (Reader.onward_open opened)
    exact (storesMetadata_of_value metadata_eq opened_faithful cuts_nothing).2 metadata value_eq

/-- An archive with one tile, whose metadata have one field. -/
def namedArchive : Bytes :=
  (Sections.mk [1, 0, 1, 1, 1] [123, 34, 110, 34, 58, 34, 79, 34, 125] [] [42]).assemble
    Header.blank

/-- A first call fails and a second one has to wait for its read. While it does, a third one comes
and is given up, and before the second goes on a tile is looked up. Once the second call has
succeeded, a fourth one reads nothing. -/
theorem metadata_loaded_once_namedArchive :
    let failed := [.run .metadata, .hold true]
    let loaded := failed ++ [.start "second" .metadata, .run .summary, .hold false,
      .run (.tileAt 0 0 0), .poll "second"]
    ∃ source r metadata, Reader.open? .standard
        (.failing namedArchive [none, some ⟨.timedOut, none⟩]) = (source, some (.ok r)) ∧
      ((ReaderSession.new r).afterEvents failed).Attempts .plain (.start "second" .metadata)
        (((ReaderSession.new r).afterEvents failed).begun (.start "second" .metadata))
        (((ReaderSession.new r).afterEvents failed).step (.start "second" .metadata)).2 ∧
      ((ReaderSession.new r).afterEvents loaded).begun (.run .summary) = [] ∧
      (((ReaderSession.new r).afterEvents loaded).step (.run .summary)).2
        = some (.summary (.ok (.join r.header metadata))) ∧
      r.header.StoresMetadata (Content.read namedArchive) metadata := by
  intro failed loaded
  have opens : ∃ source r, Reader.open? .standard
      (.failing namedArchive [none, some ⟨.timedOut, none⟩]) = (source, some (.ok r)) ∧
      ¬ (ReaderSession.new r).Succeeded failed ∧ (ReaderSession.new r).Succeeded loaded :=
    Reader.exists_opened_with (by decide +kernel)
  obtain ⟨source, r, opened, none_yet, success⟩ := opens
  obtain ⟨metadata, calls, stores⟩ := metadata_loaded_once opened (loaded ++ [.run .summary])
  refine ⟨source, r, metadata, opened, ?_⟩
  have second := (calls failed (.start "second" .metadata) _ .plain rfl ⟨_, rfl⟩).2.1 none_yet
  have fourth := (calls loaded (.run .summary) [] .joined rfl ⟨_, rfl⟩).2.2 success
  refine ⟨second.1, fourth.1, fourth.2, stores _ (.failing _ _) ?_ ?_⟩
  · intro d member
    simp [loaded, failed] at member
  · obtain ⟨response, member, has_metadata⟩ := success
    refine ⟨response, ?_, has_metadata⟩
    rw [responses_append]
    exact List.mem_append_left _ member

end TileArchive
