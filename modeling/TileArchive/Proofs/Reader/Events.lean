import TileArchive.Proofs.Keyed
import TileArchive.Proofs.Reader.Calls

/-!
# `TileArchive.Proofs.Reader.Events`: everything that may happen to a session

A `SessionEvent` is a request, a step of one that waits, a request that is given up, or a change
of the source: reads are made to fail or to wait. `ReaderSession.step` is what an event does. Events
that carry a query on (`ReaderSession.carried`) differ in where the query comes from and what
becomes of it where it waits; `step_of_carried` says what they have in common, and `Orderly.carry`
that those who wait stay orderly.

## One shape for three events

A request that is asked at once, one that is started under a name, and one that is carried on
later all do the same to the reader: they advance a query at a stage. Three functions say what
differs. `carried` is the query with its stage, `prepared` the reader before the step (a request
of the same name may have been given up), and `others` those who wait beside it. `Carried` then
describes the session after the event by the reader and the outcome of the step. Theorems about
events are proved once for `Carried`, and once for events that carry nothing on
(`Orderly.step_of_not_carried`).

Histories are lists of these events, in any order and number. Since names are chosen freely and
requests may be given up at any time, every way in which callers can overlap is among them.
-/

set_option autoImplicit false

namespace TileArchive

/-- What may happen to a session. Requests may be carried out at once or be started, carried
on and given up under a name, and the source may be disturbed or hold its reads at any time
in between. -/
inductive SessionEvent where
  | run (request : Request)
  | start (name : String) (request : Request)
  | poll (name : String)
  | drop (name : String)
  /-- A disturbance is queued for a read to come. -/
  | disturb (d : Disturbance)
  /-- Reads have to wait from now on, or go on. -/
  | hold (held : Bool)
  | resetCounters

namespace ReaderSession

/-- What an event does, and the response that it brings. -/
def step (s : ReaderSession) : SessionEvent → ReaderSession × Option Response
  | .run request => s.run request
  | .start name request => s.start name request
  | .poll name => ((s.poll name).1, (s.poll name).2.join)
  | .drop name => ((s.drop name).1, none)
  | .disturb d => ({ s with reader := s.reader.withSource (s.reader.source.disturb d) }, none)
  | .hold held => ({ s with reader := s.reader.withSource (s.reader.source.hold held) }, none)
  | .resetCounters => ({ s with reader := s.reader.resetCounters }, none)

/-- The session after some events. -/
def afterEvents (s : ReaderSession) (history : List SessionEvent) : ReaderSession :=
  history.foldl (fun s event => (s.step event).1) s

/-- A history in two parts is the second part after the first. -/
theorem afterEvents_append (s : ReaderSession) (first second : List SessionEvent) :
    s.afterEvents (first ++ second) = (s.afterEvents first).afterEvents second :=
  List.foldl_append

/-! ### The waiting requests -/

/-- The requests that wait have different names and are in order as those who wait for a
reader. It holds of a new session and is kept by every event. -/
structure Orderly (s : ReaderSession) : Prop where
  names : Keyed Prod.fst s.tasks
  waiting : s.reader.Orderly (s.tasks.map Prod.snd)

/-- A session of a reader without callers is orderly, if no one has asked for the metadata
yet. -/
theorem orderly_new {r : Reader} (metadata_eq : r.metadata = .new) :
    (ReaderSession.new r).Orderly := by
  refine ⟨.nil, ?_, nofun, nofun⟩
  show r.metadata.Accounts []
  rw [metadata_eq]
  exact .new

variable {s : ReaderSession} {name : String} {w : Waiting Response}

/-- What is found under the name of a task is its work, and no other task has the name. -/
theorem Orderly.task?_eq_some_iff (orderly : s.Orderly) :
    s.task? name = some w ↔ (name, w) ∈ s.tasks := by
  rw [task?, Option.map_eq_some_iff]
  constructor
  · rintro ⟨task, found, rfl⟩
    obtain ⟨member, rfl⟩ := orderly.names.find?_eq_some_iff.mp found
    exact member
  · intro member
    exact ⟨(name, w), orderly.names.find?_eq_some_iff.mpr ⟨member, rfl⟩, rfl⟩

/-- A request that waits is one of those that wait, beside the others. -/
theorem Orderly.waiting_cons (orderly : s.Orderly) (found : s.task? name = some w) :
    s.reader.Orderly (w :: (s.removeTask name).tasks.map Prod.snd) := by
  have member := orderly.task?_eq_some_iff.mp found
  exact orderly.waiting.perm ((orderly.names.perm_cons_filter member).map Prod.snd)

/-- Forgetting a name that nobody has changes nothing. -/
theorem Orderly.removeTask_of_none (orderly : s.Orderly) (missing : s.task? name = none) :
    (s.removeTask name).tasks = s.tasks := by
  refine List.filter_eq_self.mpr ?_
  intro task member
  refine decide_eq_true fun same => ?_
  have found : s.task? task.1 = some task.2 := orderly.task?_eq_some_iff.mpr member
  rw [same, missing] at found
  cases found

/-- Giving a request up leaves the others. Of the reader only the register of a cache or the
line of the turnstile may change, so nothing is read. -/
theorem Orderly.drop (orderly : s.Orderly) (name : String) :
    (s.drop name).1.tasks = (s.removeTask name).tasks ∧
      (s.drop name).1.reader.Orderly ((s.removeTask name).tasks.map Prod.snd) ∧
      (s.drop name).1.reader.metadata.value = s.reader.metadata.value ∧
      s.reader.Onward (s.drop name).1.reader ∧
      (s.drop name).1.reader.source = s.reader.source := by
  unfold ReaderSession.drop
  split
  · next missing =>
    rw [orderly.removeTask_of_none missing]
    exact ⟨rfl, orderly.waiting, rfl, .refl _, rfl⟩
  · next w found =>
    obtain ⟨waiting, value_eq⟩ := (orderly.waiting_cons found).abandon
    obtain ⟨onward, source_eq⟩ := Reader.onward_abandon s.reader w
    exact ⟨rfl, waiting, value_eq, onward, source_eq⟩

/-! ### Events that carry a query on -/

/-- The query that an event carries on. A request that is made begins with a fresh query,
and one that waits goes on where it was left. -/
def carried (s : ReaderSession) : SessionEvent → Option (Waiting Response)
  | .run request => some (.fresh (s.query request))
  | .start _ request => some (.fresh (s.query request))
  | .poll name => s.task? name
  | _ => none

/-- The requests that wait apart from the one that an event is about. These are the ones
that an event must leave alone. -/
def others (s : ReaderSession) : SessionEvent → List (String × Waiting Response)
  | .start name _ => (s.removeTask name).tasks
  | .poll name => (s.removeTask name).tasks
  | .drop name => (s.removeTask name).tasks
  | _ => s.tasks

/-- The reader that carries a query on. A request of the same name was given up first, and
this may have passed on its turn. -/
def prepared (s : ReaderSession) : SessionEvent → Reader
  | .start name _ => (s.drop name).1.reader
  | _ => s.reader

/-- Those who wait beside the query that is carried on have different names. -/
theorem Orderly.names_others (orderly : s.Orderly) (event : SessionEvent) :
    Keyed Prod.fst (s.others event) := by
  unfold others
  split <;> first | exact orderly.names | exact orderly.names.filter _

/-- The reader is ready to carry the query on, beside the others that wait. A query that is
started under a name in use finds the one before given up already. -/
theorem Orderly.prepared (orderly : s.Orderly) {event : SessionEvent}
    (carried_eq : s.carried event = some w) :
    (s.prepared event).Orderly (w :: (s.others event).map Prod.snd) ∧
      s.reader.Onward (s.prepared event) ∧
      (s.prepared event).metadata.value = s.reader.metadata.value ∧
      (s.prepared event).source = s.reader.source := by
  cases event with
  | run request =>
      cases carried_eq
      exact ⟨orderly.waiting.cons_fresh (Waiting.regular_fresh _ _ request), .refl _, rfl, rfl⟩
  | start name request =>
      cases carried_eq
      -- A query that is started under a name in use takes the place of the one before, which
      -- is given up.
      obtain ⟨-, waiting, value_eq, onward, source_eq⟩ := orderly.drop name
      have regular := Waiting.regular_fresh s.reader.header s.reader.config request
      exact ⟨waiting.cons_fresh (onward.header_eq ▸ regular), onward, value_eq, source_eq⟩
  | poll name => exact ⟨orderly.waiting_cons carried_eq, .refl _, rfl, rfl⟩
  | drop _ => cases carried_eq
  | disturb _ => cases carried_eq
  | hold _ => cases carried_eq
  | resetCounters => cases carried_eq

end ReaderSession

/-- The request that an event is about, if it has a name. -/
def SessionEvent.name? : SessionEvent → Option String
  | .start name _ => some name
  | .poll name => some name
  | _ => none

/-- The disturbances that an event queues. -/
def SessionEvent.disturbances : SessionEvent → List Disturbance
  | .disturb d => [d]
  | _ => []

namespace ReaderSession

variable {s : ReaderSession} {w : Waiting Response}

/-- What an event does that carries a query on. The query is answered, or it waits under its
name, or it is given up because it has none. -/
theorem step_of_carried (orderly : s.Orderly) {event : SessionEvent}
    (carried_eq : s.carried event = some w) {t : Reader} {outcome : Response ⊕ Waiting Response}
    (advance_eq : Reader.advance w.query w.stage (s.prepared event) = (t, outcome)) :
    (∃ response, outcome = .inl response ∧
      s.step event = (⟨t, s.others event⟩, some response)) ∨
    (∃ waits, outcome = .inr waits ∧
      ((∃ name, event.name? = some name ∧
          s.step event = (⟨t, (name, waits) :: s.others event⟩, none)) ∨
        event.name? = none ∧ s.step event = (⟨t.abandon waits, s.others event⟩, none))) := by
  -- The three events with a query, one by one; in the others nothing is carried on.
  cases event with
  | run request =>
      cases carried_eq
      simp only [step, run, Reader.run]
      have run_eq : Reader.advance (s.query request) .fresh s.reader = (t, outcome) := advance_eq
      rw [run_eq]
      cases outcome with
      | inl response => exact .inl ⟨response, rfl, rfl⟩
      | inr waits => exact .inr ⟨waits, rfl, .inr ⟨rfl, rfl⟩⟩
  | start name request =>
      cases carried_eq
      obtain ⟨tasks_eq, -, -, onward, -⟩ := orderly.drop name
      have query_eq : (s.drop name).1.query request = s.query request := by
        rw [query, query, onward.header_eq, onward.config_eq]
      have start_eq : Reader.advance ((s.drop name).1.query request) .fresh (s.drop name).1.reader
          = (t, outcome) := by
        rw [query_eq]
        exact advance_eq
      simp only [step, start]
      rw [start_eq]
      cases outcome with
      | inl response => exact .inl ⟨response, rfl, by rw [tasks_eq]; rfl⟩
      | inr waits => exact .inr ⟨waits, rfl, .inl ⟨name, rfl, by rw [tasks_eq]; rfl⟩⟩
  | poll name =>
      have found : s.task? name = some w := carried_eq
      have poll_eq : Reader.advance w.query w.stage (s.removeTask name).reader = (t, outcome) :=
        advance_eq
      simp only [step, poll, found]
      rw [poll_eq]
      cases outcome with
      | inl response => exact .inl ⟨response, rfl, rfl⟩
      | inr waits => exact .inr ⟨waits, rfl, .inl ⟨name, rfl, rfl⟩⟩
  | drop _ => cases carried_eq
  | disturb _ => cases carried_eq
  | hold _ => cases carried_eq
  | resetCounters => cases carried_eq

/-- Carrying a query on goes onward, also where the query is given up in the end. -/
theorem Orderly.onward_step (orderly : s.Orderly) {event : SessionEvent}
    (carried_eq : s.carried event = some w) : s.reader.Onward (s.step event).1.reader := by
  obtain ⟨-, prepared, -, -⟩ := orderly.prepared carried_eq
  have advanced := prepared.trans (Reader.onward_advance w.query w.stage (s.prepared event))
  -- The query gives a response, or waits under its name, or has no name to wait under.
  rcases step_of_carried orderly carried_eq rfl with
    ⟨_, -, step_eq⟩ | ⟨waits, -, ⟨_, -, step_eq⟩ | ⟨-, step_eq⟩⟩
  · rw [step_eq]
    exact advanced
  · rw [step_eq]
    exact advanced
  · rw [step_eq]
    exact advanced.trans (Reader.onward_abandon _ waits).1

/-- An event that carries no query on reads nothing, and may queue a disturbance. So the log
of reads grows only where a query is carried on. -/
theorem Orderly.source_of_not_carried (orderly : s.Orderly) {event : SessionEvent}
    (carried_eq : s.carried event = none) :
    (s.step event).1.reader.source.answer = s.reader.source.answer ∧
      (s.step event).1.reader.source.queue = s.reader.source.queue ++ event.disturbances ∧
      (s.step event).1.reader.source.log = s.reader.source.log := by
  cases event with
  | run _ => cases carried_eq
  | start _ _ => cases carried_eq
  | poll name =>
      -- Polling a name that nobody has changes nothing.
      have missing : s.task? name = none := carried_eq
      simp only [step, poll, missing]
      exact ⟨trivial, (List.append_nil _).symm, trivial⟩
  | drop name =>
      obtain ⟨-, -, -, -, source_eq⟩ := orderly.drop name
      simp only [step, source_eq]
      exact ⟨trivial, (List.append_nil _).symm, trivial⟩
  | disturb _ => exact ⟨rfl, rfl, rfl⟩
  | hold _ => exact ⟨rfl, (List.append_nil _).symm, rfl⟩
  | resetCounters => exact ⟨rfl, (List.append_nil _).symm, rfl⟩

/-- A source stays faithful as long as no disturbance is queued that cuts a read. Carrying
queries on only takes disturbances away. -/
theorem Orderly.faithful_step (orderly : s.Orderly) {answer : ByteRange → Except IoError Bytes}
    (faithful : s.reader.source.Faithful answer) {event : SessionEvent}
    (cuts_nothing : ∀ d ∈ event.disturbances, d.CutsNothing) :
    (s.step event).1.reader.source.Faithful answer := by
  cases carried_eq : s.carried event with
  | some w => exact faithful.onward (orderly.onward_step carried_eq).source
  | none =>
      obtain ⟨answer_eq, queue_eq, -⟩ := orderly.source_of_not_carried carried_eq
      refine ⟨answer_eq.trans faithful.answer_eq, ?_⟩
      rw [queue_eq]
      intro d member
      -- The queue is that of before with what the event disturbs at its end.
      rcases List.mem_append.mp member with queued | new
      · exact faithful.queue d queued
      · exact cuts_nothing d new

/-- Whoever waits beside the query of an event has another name. The query of the event is
therefore found once among all that wait. -/
theorem mem_others {event : SessionEvent} {task : String × Waiting Response}
    (member : task ∈ s.others event) : task ∈ s.tasks ∧ event.name? ≠ some task.1 := by
  -- The events that name a task remove it first, so the others have other names.
  have of_filter {name : String} (member : task ∈ (s.removeTask name).tasks) :
      task ∈ s.tasks ∧ some name ≠ some task.1 := by
    obtain ⟨task_mem, apart⟩ := List.mem_filter.mp member
    exact ⟨task_mem, fun same => of_decide_eq_true apart (Option.some.inj same).symm⟩
  cases event with
  | run _ => exact ⟨member, nofun⟩
  | start _ _ => exact of_filter member
  | poll _ => exact of_filter member
  | drop _ => exact ⟨(of_filter member).1, nofun⟩
  | disturb _ => exact ⟨member, nofun⟩
  | hold _ => exact ⟨member, nofun⟩
  | resetCounters => exact ⟨member, nofun⟩

/-- What a session has become after an event carried a query on. The reader is given as it
was left by the query, and the session may still have given the query up where it has no
name to wait under. -/
structure Carried (s : ReaderSession) (event : SessionEvent) (t : Reader)
    (outcome : Response ⊕ Waiting Response) : Prop where
  orderly : (s.step event).1.Orderly
  header_eq : (s.step event).1.reader.header = t.header
  value_eq : (s.step event).1.reader.metadata.value = t.metadata.value
  source_eq : (s.step event).1.reader.source = t.source
  response_eq : (s.step event).2 = outcome.getLeft?
  tasks : ∀ task ∈ (s.step event).1.tasks, task ∈ s.others event ∨
    event.name? = some task.1 ∧ outcome = .inr task.2

/-- Where a query is carried on in an orderly way, the session stays orderly. What the event
makes of the session is told by the reader and the outcome that carrying on has given. -/
theorem Orderly.carry (orderly : s.Orderly) {event : SessionEvent}
    (carried_eq : s.carried event = some w) {t : Reader} {outcome : Response ⊕ Waiting Response}
    (advance_eq : Reader.advance w.query w.stage (s.prepared event) = (t, outcome))
    (waiting : t.Orderly (waitingAfter ((s.others event).map Prod.snd) outcome)) :
    s.Carried event t outcome := by
  have names := orderly.names_others event
  -- The three outcomes differ in what becomes of the query: it is done, it waits under its
  -- name, or it is given up because the event had no name for it.
  rcases step_of_carried orderly carried_eq advance_eq with
    ⟨response, rfl, step_eq⟩ | ⟨waits, rfl, ⟨name, name_eq, step_eq⟩ | ⟨-, step_eq⟩⟩
  · constructor <;> rw [step_eq]
    · exact ⟨names, waiting⟩
    · rfl
    · exact fun task member => .inl member
  · constructor <;> rw [step_eq]
    · -- The name is free again, since the event removed the task that had it.
      refine ⟨Keyed.cons_iff.mpr ⟨?_, names⟩, waiting⟩
      intro task member same
      exact (mem_others member).2 (name_eq.trans (congrArg some same.symm))
    · rfl
    · intro task member
      rcases List.mem_cons.mp member with rfl | member
      · exact .inr ⟨name_eq, rfl⟩
      · exact .inl member
  · obtain ⟨abandoned, value_eq⟩ := waiting.abandon
    obtain ⟨onward, source_eq⟩ := Reader.onward_abandon t waits
    constructor <;> rw [step_eq]
    · exact ⟨names, abandoned⟩
    · exact onward.header_eq
    · exact value_eq
    · exact source_eq
    · rfl
    · exact fun task member => .inl member

/-- An event that carries nothing on keeps order, header and value, responds nothing, and
lets nobody begin to wait. -/
theorem Orderly.step_of_not_carried (orderly : s.Orderly) {event : SessionEvent}
    (carried_eq : s.carried event = none) :
    (s.step event).1.Orderly ∧ (s.step event).1.reader.header = s.reader.header ∧
      (s.step event).1.reader.metadata.value = s.reader.metadata.value ∧
      (s.step event).2 = none ∧ ∀ task ∈ (s.step event).1.tasks, task ∈ s.others event := by
  cases event with
  | run request => cases carried_eq
  | start name request => cases carried_eq
  | poll name =>
      -- Of the events that name a query, a poll carries nothing on only if the name is not in
      -- use.
      have missing : s.task? name = none := carried_eq
      have step_eq : s.step (.poll name) = (s, none) := by
        simp only [step, poll, missing]
        rfl
      rw [step_eq]
      refine ⟨orderly, rfl, rfl, rfl, ?_⟩
      show ∀ task ∈ s.tasks, task ∈ (s.removeTask name).tasks
      rw [orderly.removeTask_of_none missing]
      exact fun _ => id
  | drop name =>
      obtain ⟨tasks_eq, waiting, value_eq, onward, -⟩ := orderly.drop name
      have names : Keyed Prod.fst (s.drop name).1.tasks := by
        rw [tasks_eq]
        exact orderly.names.filter _
      rw [← tasks_eq] at waiting
      refine ⟨⟨names, waiting⟩, onward.header_eq, value_eq, rfl, ?_⟩
      show ∀ task ∈ (s.drop name).1.tasks, task ∈ (s.removeTask name).tasks
      rw [tasks_eq]
      exact fun _ => id
  | disturb d => exact ⟨⟨orderly.names, orderly.waiting.congr rfl rfl⟩, rfl, rfl, rfl, fun _ => id⟩
  | hold held =>
      exact ⟨⟨orderly.names, orderly.waiting.congr rfl rfl⟩, rfl, rfl, rfl, fun _ => id⟩
  | resetCounters =>
      exact ⟨⟨orderly.names, orderly.waiting.congr rfl rfl⟩, rfl, rfl, rfl, fun _ => id⟩

end ReaderSession

end TileArchive
