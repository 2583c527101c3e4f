import TileArchive.Proofs.Cache.Waiters

/-!
# `TileArchive.Proofs.Cache.Sound`: every history keeps the account of waiters

A session is *sound* if its tasks have different names and the register of its cache accounts
for them. In the middle of an event there can be one more waiter, who has asked for its key
and has not looked yet: `ask_waits` makes room for it, and `seen` and `abandon` let it go. A task
that is kept waiting joins the others under its name. From these parts follows that every event
keeps a session sound (`Sound.step`), and that it is sound after every history (`sound_after`).

## How it is used

`sound_after` is the one induction over a history that speaks of the register. Everything else
about loads is read off a sound session: what a look finds, which waiter is the first, when a
request joins. A theorem that starts with an arbitrary history takes `sound_after` for the
session it leads to, and continues with a single event.

`ask_cases` is the inversion lemma of `ask`, as `request_cases` is that of a request. It names
the three ways in which someone may begin to wait, or not have to.

## Tasks and waiters

Tasks have names, and the account does not. `waiters` forgets the names. To take a task out one
brings it to the front (`waiters_perm`), which is where the operations of `Accounted` expect the
waiter who leaves.
-/

set_option autoImplicit false

namespace TileArchive.Session

variable {K V E : Type}

/-- The tasks that wait, without their names. Names are given by callers and may be used
again, and the register knows nothing of them. -/
def waiters (s : Session K V E) : List (Task K) := s.tasks.map Prod.snd

/-- The tasks have different names, and the register accounts for them. This is the
invariant of every session that is reached from a new one. It says nothing of values or
counters, which have invariants of their own beside it. -/
structure Sound (s : Session K V E) : Prop where
  named : Keyed Prod.fst s.tasks
  accounted : Accounted s.cache s.loads s.waiters

variable [DecidableEq K] {s s' : Session K V E}

/-- Someone who asks finds a value, or joins the load that is registered under the key, or
starts a load. -/
theorem ask_cases (s : Session K V E) (key : K) (decided : Option (Except E V)) :
    (∃ r, s.cache.resident? key = some r ∧
      s.ask key decided = (s.withCache (s.cache.request key).1, .inl r.value)) ∨
    (s.cache.resident? key = none ∧ ∃ f, s.cache.flight? key = some f ∧
      s.ask key decided =
        (s.withCache ((s.cache.countLookup false).setWaiters key (f.waiters + 1)),
          .inr ⟨key, f.load, false⟩)) ∨
    (s.cache.resident? key = none ∧ s.cache.flight? key = none ∧
      s.ask key decided =
        ({ s with
            cache := (s.cache.countLookup false).startFlight key
            loads := s.loads ++ [⟨decided, none⟩] },
          .inr ⟨key, s.cache.nextLoad, true⟩)) := by
  unfold ask
  rcases s.cache.request_cases key with ⟨r, held, request_eq⟩ | ⟨absent, f, found, request_eq⟩
    | ⟨absent, free, request_eq⟩ <;> rw [request_eq]
  · exact .inl ⟨r, held, rfl⟩
  · exact .inr (.inl ⟨absent, f, found, rfl⟩)
  · exact .inr (.inr ⟨absent, free, rfl⟩)

omit [DecidableEq K] in
/-- A task is found by its name, since no other task has it. -/
theorem task?_eq_some_iff (named : Keyed Prod.fst s.tasks) {name : String} {t : Task K} :
    s.task? name = some t ↔ (name, t) ∈ s.tasks := by
  have found_iff := fun x => named.find?_eq_some_iff (x := x) (k := name)
  rw [task?, Option.map_eq_some_iff]
  constructor
  · rintro ⟨⟨_, _⟩, found, rfl⟩
    obtain ⟨mem, rfl⟩ := (found_iff _).mp found
    exact mem
  · intro mem
    exact ⟨(name, t), (found_iff _).mpr ⟨mem, rfl⟩, rfl⟩

omit [DecidableEq K] in
/-- A task is one of those who wait, and the others are those who wait without it. -/
theorem waiters_perm (named : Keyed Prod.fst s.tasks) {name : String} {t : Task K}
    (found : s.task? name = some t) : s.waiters.Perm (t :: (s.removeTask name).waiters) :=
  (named.perm_cons_filter ((task?_eq_some_iff named).mp found)).map Prod.snd

/-- A name is free once its task was given up. -/
theorem task?_drop_self (s : Session K V E) (name : String) :
    (s.drop name).1.task? name = none := by
  rcases s.drop_cases name with ⟨absent, drop_eq⟩ | ⟨t, -, drop_eq⟩ <;> rw [drop_eq]
  · exact absent
  · simp [task?, abandon, withCache, removeTask, List.find?_eq_none]

namespace Sound

omit [DecidableEq K] in
/-- A session without a history is sound. -/
theorem new (config : CacheConfig) (weigh : K → V → UInt64) :
    (Session.new (.empty config weigh) : Session K V E).Sound :=
  ⟨Keyed.nil, Accounted.empty config weigh⟩

omit [DecidableEq K] in
/-- Only the register and the tasks matter. Events on values, and decisions about outcomes,
leave both alone. -/
theorem of_same (h : s.Sound) (tasks_eq : s'.tasks = s.tasks)
    (flights_eq : s'.cache.flights = s.cache.flights)
    (next_eq : s'.cache.nextLoad = s.cache.nextLoad)
    (length_eq : s'.loads.length = s.loads.length)
    (unseen_iff : ∀ load, Unseen s'.loads load ↔ Unseen s.loads load) : s'.Sound := by
  refine ⟨tasks_eq ▸ h.named, ?_⟩
  rw [waiters, tasks_eq]
  exact h.accounted.of_same flights_eq next_eq length_eq unseen_iff

omit [DecidableEq K] in
/-- The account with a task apart from the others. -/
theorem apart (h : s.Sound) {name : String} {t : Task K} (found : s.task? name = some t) :
    Accounted s.cache s.loads (t :: (s.removeTask name).waiters) :=
  h.accounted.perm (waiters_perm h.named found)

omit [DecidableEq K] in
/-- A task that is found is one of those who wait. -/
theorem mem_waiters (h : s.Sound) {name : String} {t : Task K} (found : s.task? name = some t) :
    t ∈ s.waiters :=
  (waiters_perm h.named found).mem_iff.mpr List.mem_cons_self

omit [DecidableEq K] in
/-- Forgetting a task gives no two tasks the same name. -/
theorem named_removeTask (h : s.Sound) (name : String) :
    Keyed Prod.fst (s.removeTask name).tasks :=
  h.named.filter _

/-! ### Parts of an event -/

/-- Who finds a value does not wait. -/
theorem ask_found (h : s.Sound) {key : K} {decided : Option (Except E V)} {value : V}
    (ask_eq : s.ask key decided = (s', .inl value)) : s'.Sound := by
  rcases s.ask_cases key decided with ⟨r, held, eq⟩ | ⟨-, f, -, eq⟩ | ⟨-, -, eq⟩ <;>
    rw [eq] at ask_eq <;> cases ask_eq
  -- Only the case of a value that is there agrees with what was found.
  rcases s.cache.request_cases key with ⟨_, _, request_eq⟩ | ⟨absent, -⟩ | ⟨absent, -⟩
  · refine h.of_same rfl ?_ ?_ rfl fun _ => Iff.rfl
    · simp [withCache, request_eq]
    · simp [withCache, request_eq]
  · cases absent ▸ held
  · cases absent ▸ held

/-- Who has asked and did not find a value is accounted for as one more waiter. -/
theorem ask_waits (h : s.Sound) {key : K} {decided : Option (Except E V)} {t : Task K}
    (ask_eq : s.ask key decided = (s', .inr t)) :
    s'.tasks = s.tasks ∧ t.key = key ∧ Accounted s'.cache s'.loads (t :: s.waiters) := by
  rcases s.ask_cases key decided with ⟨r, -, eq⟩ | ⟨-, f, found, eq⟩ | ⟨-, free, eq⟩ <;>
    rw [eq] at ask_eq <;> cases ask_eq
  · exact ⟨rfl, rfl, h.accounted.joined found false⟩
  · exact ⟨rfl, rfl, h.accounted.startFlight free decided⟩

/-- A waiter that has seen the outcome of its load, or has given up, is gone. -/
theorem seen {t : Task K} (named : Keyed Prod.fst s.tasks)
    (accounted : Accounted s.cache s.loads (t :: s.waiters)) (outcome : Except E V) :
    (s.seen t outcome).Sound :=
  ⟨named, accounted.seen outcome⟩

/-- A waiter that has given up is gone. As in `seen` it is counted beforehand, in front of
the others. -/
theorem abandon {t : Task K} (named : Keyed Prod.fst s.tasks)
    (accounted : Accounted s.cache s.loads (t :: s.waiters)) : (s.abandon t).Sound :=
  ⟨named, accounted.withdrawn⟩

/-- Giving up a task by its name keeps a session sound, whether or not there is such a task. -/
theorem drop (h : s.Sound) (name : String) : (s.drop name).1.Sound := by
  rcases s.drop_cases name with ⟨-, drop_eq⟩ | ⟨t, found, drop_eq⟩ <;> rw [drop_eq]
  · exact h
  · exact abandon (s := s.removeTask name) (h.named_removeTask name) (h.apart found)

/-! ### Events -/

/-- A task that begins keeps a session sound. It first gives up a task of the same name;
then it finds a value, or waits, or sees an outcome at once. -/
theorem start (h : s.Sound) (name : String) (key : K) : (s.start name key).1.Sound := by
  have dropped := h.drop name
  rcases s.start_cases name key with ⟨s', value, ask_eq, start_eq⟩
    | ⟨s', t, ask_eq, looked⟩
  · rw [start_eq]
    exact dropped.ask_found ask_eq
  · obtain ⟨tasks_eq, -, accounted⟩ := dropped.ask_waits ask_eq
    have named : Keyed Prod.fst s'.tasks := tasks_eq ▸ dropped.named
    rw [waiters, ← tasks_eq] at accounted
    rcases looked with ⟨outcome, -, start_eq⟩ | ⟨-, start_eq⟩ <;> rw [start_eq]
    · exact seen named accounted outcome
    · -- The name is free, because a task that had it was given up first.
      refine ⟨Keyed.cons_iff.mpr ⟨?_, named⟩, accounted⟩
      rintro ⟨_, t'⟩ mem rfl
      rw [tasks_eq] at mem
      have found := (task?_eq_some_iff dropped.named).mpr mem
      rw [s.task?_drop_self] at found
      cases found

/-- A task with its outcome at hand keeps a session sound: it looks once and is gone either
way. -/
theorem load (h : s.Sound) (key : K) (outcome : Except E V) : (s.load key outcome).1.Sound := by
  rcases s.load_cases key outcome with ⟨s', value, ask_eq, load_eq⟩ | ⟨s', t, ask_eq, looked⟩
  · rw [load_eq]
    exact h.ask_found ask_eq
  · obtain ⟨tasks_eq, -, accounted⟩ := h.ask_waits ask_eq
    have named : Keyed Prod.fst s'.tasks := tasks_eq ▸ h.named
    rw [waiters, ← tasks_eq] at accounted
    rcases looked with ⟨outcome', -, load_eq⟩ | ⟨-, load_eq⟩ <;> rw [load_eq]
    · exact seen named accounted outcome'
    · exact abandon named accounted

/-- A look at a task keeps a session sound. The task goes if the look shows an outcome. -/
theorem poll (h : s.Sound) (name : String) : (s.poll name).1.Sound := by
  rcases s.poll_cases name with ⟨-, poll_eq⟩ | ⟨t, found, ⟨outcome, -, poll_eq⟩ | ⟨-, poll_eq⟩⟩ <;>
    rw [poll_eq]
  · exact h
  · exact seen (s := s.removeTask name) (h.named_removeTask name) (h.apart found) outcome
  · exact h

omit [DecidableEq K] in
/-- Deciding an outcome keeps a session sound, since it shows to nobody yet. -/
theorem decideLoad (h : s.Sound) (load : Nat) (outcome : Except E V) :
    (s.decideLoad load outcome).Sound :=
  h.of_same rfl rfl rfl (List.length_modify _ _ _) fun _ => unseen_modify_decided_iff

/-- Every event keeps a session sound. An event is taken apart into a task that goes, a task
that asks and a task that looks, and each of the three parts keeps the register in step with
the waiters. -/
theorem step (h : s.Sound) (e : Event K V E) : (s.step e).Sound := by
  -- The first five events do not touch register and tasks. The next four are about one task
  -- each.
  cases e with
  | insert key value =>
      exact h.of_same rfl (s.cache.flights_insert key value) (s.cache.nextLoad_insert key value)
        rfl fun _ => Iff.rfl
  | get key =>
      exact h.of_same rfl (s.cache.flights_get key) (s.cache.nextLoad_get key) rfl
        fun _ => Iff.rfl
  | invalidate key =>
      exact h.of_same rfl (s.cache.flights_invalidate key) (s.cache.nextLoad_invalidate key) rfl
        fun _ => Iff.rfl
  | clear => exact h.of_same rfl rfl rfl rfl fun _ => Iff.rfl
  | resetCounters => exact h.of_same rfl rfl rfl rfl fun _ => Iff.rfl
  | start name key => exact h.start name key
  | load key outcome => exact h.load key outcome
  | poll name => exact h.poll name
  | drop name => exact h.drop name
  | resolve name outcome =>
      show (s.resolve name outcome).1.Sound
      rcases s.resolve_cases name outcome with same | ⟨load, decided⟩
      · rw [same]
        exact h
      · rw [decided]
        exact h.decideLoad load outcome
  | decideLoad load outcome => exact h.decideLoad load outcome

/-- What every event keeps, every sequence of events keeps. -/
theorem run (h : s.Sound) (events : List (Event K V E)) : (s.run events).Sound := by
  induction events generalizing s with
  | nil => exact h
  | cons e events ih => exact ih (h.step e)

end Sound

/-- A session is sound after every history. -/
theorem sound_after (config : CacheConfig) (weigh : K → V → UInt64)
    (past : List (Event K V E)) : (after config weigh past).Sound :=
  (Sound.new config weigh).run past

end TileArchive.Session
