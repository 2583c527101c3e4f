import TileArchive.Cache.Session

/-!
# `TileArchive.Proofs.Cache.Run`: histories of a cache and its tasks

An `Event` is one thing that happens to a session: an operation on the values of the cache, a
first or later look of a task, a task given up, or an outcome decided for a load. The looks of
different tasks may follow one another in any order, so a list of events is any interleaving
of tasks, one look at a time. `Session.run` carries the events out.

Every event acts on the cache through its operations alone. `Cache.Kept` says that they keep a
property, and `Cache.Kept.run` that it then holds after every history. The operation
`invalidate` stands apart, for properties that are kept only as long as it is not used.

## From one event to a history

A statement about all histories has two parts. The first is a step: what one event does, or what
it keeps. The second is an induction over the list of events. For a property of the cache alone
the step is one obligation per operation, collected in `Cache.Kept`, and the induction is done
here once. For properties that need the tasks as well, the step is by cases on the event, from
`start_cases`, `load_cases`, `poll_cases`, `drop_cases` and `resolve_cases`. These say of each
event about a task which of its parts happen and what session results, so that no proof opens
`start`, `load` or `poll` itself.

Histories are extended at the end (`after_concat`), because what an event does depends on the
session that the events before it have left. Inductions over histories therefore go by
`List.reverseRecOn`.
-/

set_option autoImplicit false

namespace TileArchive

variable {K V E : Type} [DecidableEq K]

/-- What can happen to a session. A history is a list of these, and it may hold any of them
in any order: a name may be polled that nobody has, and an outcome may be decided for a load
that was never started. Such events change nothing. -/
inductive Event (K V E : Type) where
  | insert (key : K) (value : V)
  | get (key : K)
  | invalidate (key : K)
  | clear
  | resetCounters
  /-- A task asks for a key and looks for the first time. -/
  | start (name : String) (key : K)
  /-- The same with the outcome of a load at hand, for a task that is not kept waiting. -/
  | load (key : K) (outcome : Except E V)
  | poll (name : String)
  | drop (name : String)
  /-- The outcome of the load that a task owns is decided. -/
  | resolve (name : String) (outcome : Except E V)
  /-- The outcome of any load is decided, whether or not its owner is still waiting. -/
  | decideLoad (load : Nat) (outcome : Except E V)

namespace Session

/-- Carries out an event. -/
def step (s : Session K V E) : Event K V E → Session K V E
  | .insert key value => s.withCache (s.cache.insert key value)
  | .get key => s.withCache (s.cache.get key).1
  | .invalidate key => s.withCache (s.cache.invalidate key).1
  | .clear => s.withCache s.cache.clear
  | .resetCounters => s.withCache s.cache.resetCounters
  | .start name key => (s.start name key).1
  | .load key outcome => (s.load key outcome).1
  | .poll name => (s.poll name).1
  | .drop name => (s.drop name).1
  | .resolve name outcome => (s.resolve name outcome).1
  | .decideLoad load outcome => s.decideLoad load outcome

/-- Carries out events one after another. -/
def run (s : Session K V E) (events : List (Event K V E)) : Session K V E :=
  events.foldl step s

/-- No events change nothing. -/
@[simp]
theorem run_nil (s : Session K V E) : s.run [] = s := rfl

/-- The first event is carried out first. -/
@[simp]
theorem run_cons (s : Session K V E) (e : Event K V E) (events : List (Event K V E)) :
    s.run (e :: events) = (s.step e).run events := rfl

/-- A history in two parts is the second part carried out where the first has led. -/
theorem run_append (s : Session K V E) (events events' : List (Event K V E)) :
    s.run (events ++ events') = (s.run events).run events' :=
  List.foldl_append

/-- The session after a history that began with an empty cache. Everything that is said of a
cache in use is said of such a session, for an arbitrary `past`. -/
def after (config : CacheConfig) (weigh : K → V → UInt64) (past : List (Event K V E)) :
    Session K V E :=
  (new (.empty config weigh)).run past

/-- A history that goes on with one more event. -/
theorem after_concat (config : CacheConfig) (weigh : K → V → UInt64)
    (past : List (Event K V E)) (e : Event K V E) :
    after config weigh (past ++ [e]) = (after config weigh past).step e := by
  rw [after, run_append]
  rfl

/-! ### What events do

An event that is about a task is a matter of three parts: asking for a key, seeing the outcome
of a load, and withdrawing from one. The theorems of this section say which of them happen. -/

/-- The session after a waiter has seen the outcome of its load. -/
def seen (s : Session K V E) (t : Task K) (outcome : Except E V) : Session K V E :=
  (s.settle t.load outcome).withCache (s.cache.finish t.key t.load outcome)

/-- The session with one more waiting task. -/
def addTask (s : Session K V E) (name : String) (t : Task K) : Session K V E :=
  { s with tasks := (name, t) :: s.tasks }

/-- A look that finds no outcome changes nothing. -/
theorem look_of_none {s : Session K V E} {t : Task K} (undecided : s.outcome? t.load = none) :
    s.look t = (s, .pending) := by
  rw [look, undecided]

/-- A look that finds an outcome settles it and reports it to the cache. -/
theorem look_of_some {s : Session K V E} {t : Task K} {outcome : Except E V}
    (decided : s.outcome? t.load = some outcome) :
    s.look t = (s.seen t outcome, .done outcome) := by
  rw [look, decided]
  rfl

/-- For the cache, asking is a request; what the caller makes of the answer does not concern
it. -/
theorem cache_ask (s : Session K V E) (key : K) (decided : Option (Except E V)) :
    (s.ask key decided).1.cache = (s.cache.request key).1 := by
  unfold ask
  split
  · next request_eq => rw [request_eq, withCache]
  · next request_eq => rw [request_eq, withCache]
  · next request_eq => rw [request_eq]

/-- A task that begins finds its value there, or sees the outcome of its load at once, or
waits from now on. -/
theorem start_cases (s : Session K V E) (name : String) (key : K) :
    (∃ s' value, (s.drop name).1.ask key none = (s', .inl value) ∧
      s.start name key = (s', ⟨.done (.ok value), false⟩)) ∨
    ∃ s' t, (s.drop name).1.ask key none = (s', .inr t) ∧
      ((∃ outcome, s'.outcome? t.load = some outcome ∧
          s.start name key = (s'.seen t outcome, ⟨.done outcome, t.owner⟩)) ∨
        (s'.outcome? t.load = none ∧
          s.start name key = (s'.addTask name t, ⟨.pending, t.owner⟩))) := by
  unfold start
  split
  · next s' value ask_eq => exact .inl ⟨s', value, ask_eq, rfl⟩
  · next s' t ask_eq =>
    refine .inr ⟨s', t, ask_eq, ?_⟩
    cases outcome_eq : s'.outcome? t.load with
    | none => exact .inr ⟨rfl, by rw [look_of_none outcome_eq]; rfl⟩
    | some outcome => exact .inl ⟨outcome, rfl, by rw [look_of_some outcome_eq]⟩

/-- A task that is not kept waiting finds its value there, or sees the outcome of its load, or
gives up. -/
theorem load_cases (s : Session K V E) (key : K) (outcome : Except E V) :
    (∃ s' value, s.ask key (some outcome) = (s', .inl value) ∧
      s.load key outcome = (s', ⟨.done (.ok value), false⟩)) ∨
    ∃ s' t, s.ask key (some outcome) = (s', .inr t) ∧
      ((∃ outcome', s'.outcome? t.load = some outcome' ∧
          s.load key outcome = (s'.seen t outcome', ⟨.done outcome', t.owner⟩)) ∨
        (s'.outcome? t.load = none ∧
          s.load key outcome = (s'.abandon t, ⟨.pending, t.owner⟩))) := by
  unfold load
  split
  · next s' value ask_eq => exact .inl ⟨s', value, ask_eq, rfl⟩
  · next s' t ask_eq =>
    refine .inr ⟨s', t, ask_eq, ?_⟩
    cases outcome_eq : s'.outcome? t.load with
    | none => exact .inr ⟨rfl, by rw [look_of_none outcome_eq]⟩
    | some outcome' => exact .inl ⟨outcome', rfl, by rw [look_of_some outcome_eq]⟩

/-- A waiting task sees the outcome of its load and ends, or waits on. -/
theorem poll_cases (s : Session K V E) (name : String) :
    (s.task? name = none ∧ s.poll name = (s, none)) ∨
    ∃ t, s.task? name = some t ∧
      ((∃ outcome, s.outcome? t.load = some outcome ∧
          s.poll name = ((s.seen t outcome).removeTask name, some ⟨.done outcome, t.owner⟩)) ∨
        (s.outcome? t.load = none ∧ s.poll name = (s, some ⟨.pending, t.owner⟩))) := by
  unfold poll
  cases task_eq : s.task? name with
  | none => exact .inl ⟨rfl, rfl⟩
  | some t =>
      refine .inr ⟨t, rfl, ?_⟩
      cases outcome_eq : s.outcome? t.load with
      | none => exact .inr ⟨rfl, by simp only [look_of_none outcome_eq]⟩
      | some outcome => exact .inl ⟨outcome, rfl, by simp only [look_of_some outcome_eq]⟩

/-- A task that is given up was waiting and withdraws, or there is no task of that name and
nothing happens. -/
theorem drop_cases (s : Session K V E) (name : String) :
    (s.task? name = none ∧ s.drop name = (s, false)) ∨
    ∃ t, s.task? name = some t ∧ s.drop name = ((s.removeTask name).abandon t, true) := by
  unfold drop
  cases task_eq : s.task? name with
  | none => exact .inl ⟨rfl, rfl⟩
  | some t => exact .inr ⟨t, rfl, rfl⟩

/-- A waiting task that is given up withdraws from its load. -/
theorem cache_drop {s : Session K V E} {name : String} {t : Task K}
    (found : s.task? name = some t) : (s.drop name).1.cache = s.cache.withdraw t.key t.load := by
  rw [drop, found]
  rfl

omit [DecidableEq K] in
/-- A decision through a task is a decision about a load, or it is without effect. -/
theorem resolve_cases (s : Session K V E) (name : String) (outcome : Except E V) :
    (s.resolve name outcome).1 = s ∨
      ∃ load, (s.resolve name outcome).1 = s.decideLoad load outcome := by
  unfold resolve
  split
  · exact .inl rfl
  · split
    · exact .inr ⟨_, rfl⟩
    · exact .inl rfl

end Session

/-- Every operation of a cache keeps a property, `invalidate` apart. Plain look-ups and
requests are listed both, since only the latter touch the register. A property with these
seven facts holds throughout every history without `invalidate`. -/
structure Cache.Kept (E : Type) (P : Cache K V → Prop) : Prop where
  insert : ∀ {c : Cache K V} (key : K) (value : V), P c → P (c.insert key value)
  get : ∀ {c : Cache K V} (key : K), P c → P (c.get key).1
  clear : ∀ {c : Cache K V}, P c → P c.clear
  resetCounters : ∀ {c : Cache K V}, P c → P c.resetCounters
  request : ∀ {c : Cache K V} (key : K), P c → P (c.request key).1
  finish : ∀ {c : Cache K V} (key : K) (load : Nat) (outcome : Except E V),
    P c → P (c.finish key load outcome)
  withdraw : ∀ {c : Cache K V} (key : K) (load : Nat), P c → P (c.withdraw key load)

namespace Cache.Kept

variable {P : Cache K V → Prop}

/-- Asking keeps what a request keeps. -/
theorem ask (kept : Kept E P) {s s' : Session K V E} {key : K}
    {decided : Option (Except E V)} {result : V ⊕ Task K}
    (ask_eq : s.ask key decided = (s', result)) (h : P s.cache) : P s'.cache := by
  have cache_eq := s.cache_ask key decided
  rw [ask_eq] at cache_eq
  rw [cache_eq]
  exact kept.request key h

/-- Giving a task up keeps what a withdrawal keeps. -/
theorem drop (kept : Kept E P) {s : Session K V E} (name : String) (h : P s.cache) :
    P (s.drop name).1.cache := by
  rcases s.drop_cases name with ⟨-, drop_eq⟩ | ⟨t, -, drop_eq⟩ <;> rw [drop_eq]
  · exact h
  · exact kept.withdraw t.key t.load h

/-- What every operation of a cache keeps, every event keeps. An event about a task is up to
three operations in a row: a withdrawal, a request, and an outcome seen or a withdrawal. -/
theorem step (kept : Kept E P) {s : Session K V E} {e : Event K V E}
    (invalidate : ∀ key, e = .invalidate key → P (s.cache.invalidate key).1) (h : P s.cache) :
    P (s.step e).cache := by
  cases e with
  | insert key value => exact kept.insert key value h
  | get key => exact kept.get key h
  | invalidate key => exact invalidate key rfl
  | clear => exact kept.clear h
  | resetCounters => exact kept.resetCounters h
  | start name key =>
      show P (s.start name key).1.cache
      rcases s.start_cases name key with ⟨s', value, ask_eq, start_eq⟩
        | ⟨s', t, ask_eq, ⟨outcome, -, start_eq⟩ | ⟨-, start_eq⟩⟩ <;> rw [start_eq]
      -- In all three cases a task of the name was given up first, and the key was asked for.
      all_goals have asked : P s'.cache := kept.ask ask_eq (kept.drop name h)
      · exact asked
      · exact kept.finish t.key t.load outcome asked
      · exact asked
  | load key outcome =>
      show P (s.load key outcome).1.cache
      rcases s.load_cases key outcome with ⟨s', value, ask_eq, load_eq⟩
        | ⟨s', t, ask_eq, ⟨outcome', -, load_eq⟩ | ⟨-, load_eq⟩⟩ <;> rw [load_eq]
      all_goals have asked : P s'.cache := kept.ask ask_eq h
      · exact asked
      · exact kept.finish t.key t.load outcome' asked
      · exact kept.withdraw t.key t.load asked
  | poll name =>
      show P (s.poll name).1.cache
      rcases s.poll_cases name with ⟨-, poll_eq⟩
        | ⟨t, -, ⟨outcome, -, poll_eq⟩ | ⟨-, poll_eq⟩⟩ <;> rw [poll_eq]
      · exact h
      · exact kept.finish t.key t.load outcome h
      · exact h
  | drop name => exact kept.drop name h
  | resolve name outcome =>
      rcases s.resolve_cases name outcome with same | ⟨load, decided⟩
      · simp only [Session.step, same]
        exact h
      · simp only [Session.step, decided]
        exact h
  | decideLoad load outcome => exact h

/-- What every operation of a cache keeps holds after every history. -/
theorem run (kept : Kept E P) {s : Session K V E} {events : List (Event K V E)}
    (invalidate : ∀ {c : Cache K V} key, .invalidate key ∈ events → P c →
      P (c.invalidate key).1) (h : P s.cache) : P (s.run events).cache := by
  -- The session varies, because the rest of the events meets what the first one has left.
  induction events generalizing s with
  | nil => exact h
  | cons e events ih =>
      refine ih (fun key later => invalidate key (List.mem_cons_of_mem _ later))
        (kept.step ?_ h)
      rintro key rfl
      exact invalidate key List.mem_cons_self h

end Cache.Kept

end TileArchive
