import TileArchive.Proofs.Cache.FirstLooks

/-!
# `TileArchive.Proofs.Cache.Abandonment`: the register follows those who wait

`register_follows_waiters` says of every history what the register of loads holds after it:
an entry for each key that somebody waits for, counting exactly those who wait, as long as the
load has not finished. `FollowsWaiters` lists this together with what it means for tasks that
are given up:

* As long as one waiter is left, its load stays, and so does the outcome decided for it.
* The last waiter takes the entry along, and nothing else. The next task that asks for the key
  starts a new load, unless the key is held by then. A value may have been put in while the
  load was under way, as in `held_after_abandoned`.
* A waiter of a load that has finished may find an entry of a later load under its key. It
  leaves the entry and all values alone, whether it looks or gives up.

## How the parts are proved

All parts are read off a sound session (`sound_after`), where the account of waiters relates the
register to the tasks. `FollowsWaiters` does not mention the account. It speaks of finished loads,
which is what someone sees who watches the tasks, where the account speaks of unseen ones;
`unseen_iff_unfinished` translates.

Two parts are about more than one event. `left` gives up any number of other tasks, by induction
on their names (`run_drops`). `renewed` lets any events happen after the last waiter has left, as
long as none of them asks for the key: the key stays free through them
(`flight?_run_of_not_asked`), so that the next one who asks starts a load.
-/

set_option autoImplicit false

namespace TileArchive

variable {K V E : Type}

/-- The key that a first look asks for. -/
def Event.asked? : Event K V E → Option K
  | .start _ key => some key
  | .load key _ => some key
  | _ => none

namespace Session

variable [DecidableEq K]

/-- The register of a session in which loads have finished follows those who wait.
`finished` tells which loads have finished and with what; it is a parameter so that the
structure is about one session and not about the history behind it. -/
structure FollowsWaiters (s : Session K V E) (finished : Nat → Except E V → Prop) : Prop where
  /-- No key is registered twice. -/
  keyed : Keyed Flight.key s.cache.flights
  /-- A key is registered just if somebody waits for a load of it that has not finished. -/
  registered_iff : ∀ key, (s.cache.flight? key).isSome = true ↔
    ∃ load, (∃ t ∈ s.waiters, t.key = key ∧ t.load = load) ∧ ∀ outcome, ¬finished load outcome
  /-- An entry counts those who wait for its load. They are all who wait for a load of the key
  that has not finished. -/
  counted : ∀ key f, s.cache.flight? key = some f →
    0 < f.waiters ∧ f.waiters = waitersOf s.waiters f.load ∧
    ∀ t ∈ s.waiters, t.load = f.load ↔ t.key = key ∧ ∀ outcome, ¬finished t.load outcome
  /-- Also when a waiter gives up in the event in which it has asked, it was counted. -/
  counted_asked : ∀ e s' t f, s.look? e = some (s', t) → s'.cache.flight? t.key = some f →
    0 < f.waiters
  /-- A task and its load stay while others are given up. -/
  left : ∀ name t (names : List String), s.task? name = some t → name ∉ names →
    let s' := s.run (names.map .drop)
    s'.task? name = some t ∧ s'.loads = s.loads ∧ (s'.poll name).2 = (s.poll name).2 ∧
    ((∀ outcome, ¬finished t.load outcome) → ∃ f, s'.cache.flight? t.key = some f ∧
      f.load = t.load ∧ f.waiters = waitersOf s'.waiters t.load)
  /-- The last one who waits takes the entry along. -/
  last : ∀ name t, s.task? name = some t → (∀ outcome, ¬finished t.load outcome) →
    waitersOf s.waiters t.load = 1 → (s.step (.drop name)).cache = s.cache.dropFlight t.key
  /-- The next one who asks for the key starts a new load, unless the key is held by then. -/
  renewed : ∀ name t, s.task? name = some t → (∀ outcome, ¬finished t.load outcome) →
    waitersOf s.waiters t.load = 1 → ∀ events, (∀ e ∈ events, e.asked? ≠ some t.key) →
    let s' := (s.step (.drop name)).run events
    ∀ e asking, s'.firstLook? e = some (asking, t.key) → asking.cache.resident? t.key = none →
    (s'.step e).loads.length = s'.loads.length + 1 ∧
      ∃ looking t', s'.look? e = some (looking, t') ∧ t'.key = t.key ∧
        t'.load = s'.loads.length ∧ t'.owner = true
  /-- A waiter for a load other than the one registered under its key is late. -/
  late : ∀ name t f, s.task? name = some t → s.cache.flight? t.key = some f → f.load ≠ t.load →
    ∃ outcome, finished t.load outcome
  /-- A waiter of a load that has finished leaves the cache alone. -/
  harmless : ∀ name t outcome, s.task? name = some t → finished t.load outcome →
    (s.step (.poll name)).cache = s.cache ∧ (s.step (.drop name)).cache = s.cache
  idle : s.tasks = [] → s.cache.inFlight = 0

variable {s s' : Session K V E} {e : Event K V E} {t : Task K} {name : String}

/-! ### The register -/

namespace Sound

/-- Those who wait for a registered load are those who wait for an unseen load of its key. -/
theorem load_eq_iff (h : s.Sound) {key : K} {f : Flight K} (found : s.cache.flight? key = some f)
    (waiting : t ∈ s.waiters) : t.load = f.load ↔ t.key = key ∧ Unseen s.loads t.load := by
  obtain ⟨mem, key_eq⟩ := h.accounted.flight?_eq_some_iff.mp found
  constructor
  · intro load_eq
    exact ⟨(h.accounted.agree f mem t waiting load_eq).trans key_eq,
      load_eq ▸ (h.accounted.counted f mem).1⟩
  · rintro ⟨rfl, unseen⟩
    obtain ⟨f', found', load_eq⟩ := h.accounted.flight?_of_unseen waiting unseen
    cases found.symm.trans found'
    exact load_eq.symm

/-- A key is registered just if somebody waits for an unseen load of it. -/
theorem flight?_isSome_iff (h : s.Sound) (key : K) :
    (s.cache.flight? key).isSome = true ↔ ∃ t ∈ s.waiters, t.key = key ∧ Unseen s.loads t.load := by
  rw [Option.isSome_iff_exists]
  constructor
  · rintro ⟨f, found⟩
    obtain ⟨-, some_wait, count_eq⟩ := h.accounted.counted_of_flight? found
    obtain ⟨t, waiting, load_eq⟩ := waitersOf_pos_iff.mp (count_eq ▸ some_wait)
    exact ⟨t, waiting, (h.load_eq_iff found waiting).mp load_eq⟩
  · rintro ⟨t, waiting, rfl, unseen⟩
    obtain ⟨f, found, -⟩ := h.accounted.flight?_of_unseen waiting unseen
    exact ⟨f, found⟩

/-- Somebody who waits for an unseen load finds it registered and everybody counted. -/
theorem flight?_of_waiting (h : s.Sound) (waiting : t ∈ s.waiters)
    (unseen : Unseen s.loads t.load) :
    ∃ f, s.cache.flight? t.key = some f ∧ f.load = t.load ∧
      f.waiters = waitersOf s.waiters t.load := by
  obtain ⟨f, registered, load_eq⟩ := h.accounted.flight?_of_unseen waiting unseen
  exact ⟨f, registered, load_eq, load_eq ▸ (h.accounted.counted_of_flight? registered).2.2⟩

omit [DecidableEq K] in
/-- Where nobody waits nothing is registered. -/
theorem inFlight_eq_zero (h : s.Sound) (nobody : s.tasks = []) : s.cache.inFlight = 0 := by
  refine List.length_eq_zero_iff.mpr (List.eq_nil_iff_forall_not_mem.mpr fun f mem => ?_)
  obtain ⟨-, some_wait, count_eq⟩ := h.accounted.counted f mem
  rw [count_eq, waiters, nobody] at some_wait
  exact Nat.lt_irrefl 0 some_wait

/-! ### Giving up -/

/-- The last one who waits for an unseen load takes its entry along. -/
theorem cache_drop_last (h : s.Sound) (found : s.task? name = some t)
    (unseen : Unseen s.loads t.load) (alone : waitersOf s.waiters t.load = 1) :
    (s.drop name).1.cache = s.cache.dropFlight t.key := by
  obtain ⟨f, registered, load_eq, count_eq⟩ := h.flight?_of_waiting (h.mem_waiters found) unseen
  rw [cache_drop found]
  rcases s.cache.withdraw_cases t.key t.load with
    ⟨f', registered', -, ⟨-, withdraw_eq⟩ | ⟨more, -⟩⟩ | ⟨other, -⟩
  · exact withdraw_eq
  · cases registered.symm.trans registered'
    rw [count_eq, alone] at more
    cases Nat.lt_irrefl 1 more
  · exact absurd load_eq (other f registered)

/-- A waiter of a seen load gives up without a trace. -/
theorem cache_drop_of_seen (h : s.Sound) (found : s.task? name = some t)
    (seen : ¬Unseen s.loads t.load) : (s.drop name).1.cache = s.cache := by
  rw [cache_drop found]
  rcases s.cache.withdraw_cases t.key t.load with ⟨f, registered, load_eq, -⟩ | ⟨-, withdraw_eq⟩
  · have mem := (h.accounted.flight?_eq_some_iff.mp registered).1
    exact absurd load_eq (h.accounted.load_ne_of_not_unseen seen mem)
  · exact withdraw_eq

/-- Giving up one task leaves tasks of other names. -/
theorem task?_drop_of_ne (h : s.Sound) {other : String} (ne : name ≠ other) :
    (s.drop other).1.task? name = s.task? name := by
  rcases s.drop_cases other with ⟨-, drop_eq⟩ | ⟨t', -, drop_eq⟩ <;> rw [drop_eq]
  ext t
  rw [task?_eq_some_iff h.named]
  refine (task?_eq_some_iff (h.named_removeTask other)).trans ?_
  simp [removeTask, List.mem_filter, ne]

/-- A task and all loads stay while others are given up. -/
theorem run_drops (h : s.Sound) {names : List String} (others : name ∉ names) :
    (s.run (names.map .drop)).task? name = s.task? name ∧
      (s.run (names.map .drop)).loads = s.loads := by
  induction names generalizing s with
  | nil => exact ⟨rfl, rfl⟩
  | cons other names ih =>
      obtain ⟨ne, others⟩ := not_or.mp (mt List.mem_cons.mpr others)
      obtain ⟨task_eq, loads_eq⟩ := ih (h.drop other) others
      exact ⟨task_eq.trans (h.task?_drop_of_ne ne), loads_eq.trans (s.loads_drop other)⟩

/-! ### Asking again -/

/-- What is unseen after an event was unseen before. -/
theorem unseen_of_step (h : s.Sound) {load : Nat} (lt : load < s.loads.length)
    (unseen : Unseen (s.step e).loads load) : Unseen s.loads load := by
  refine ⟨lt, Option.eq_none_iff_forall_ne_some.mpr fun outcome settled => ?_⟩
  have settled' := h.settled?_step_iff (e := e) |>.mpr (.inl settled)
  rw [unseen.2] at settled'
  cases settled'

/-- A key that nobody asks for is not registered anew. -/
theorem flight?_step_of_not_asked (h : s.Sound) {key : K} (free : s.cache.flight? key = none)
    (silent : e.asked? ≠ some key) : (s.step e).cache.flight? key = none := by
  rw [← Option.not_isSome_iff_eq_none, (h.step e).flight?_isSome_iff]
  rintro ⟨t, waiting, rfl, unseen⟩
  obtain ⟨⟨name, _⟩, mem, rfl⟩ := List.mem_map.mp waiting
  rcases mem_tasks_step mem with before | ⟨key, s', rfl, looks⟩
  · -- Who waited before kept the key registered.
    have waiting := List.mem_map_of_mem (f := Prod.snd) before
    have registered := (h.flight?_isSome_iff _).mpr
      ⟨_, waiting, rfl, h.unseen_of_step (h.accounted.started _ waiting) unseen⟩
    rw [free] at registered
    cases registered
  · obtain ⟨key_eq, -⟩ := h.load_of_firstLook rfl looks
    exact silent (congrArg some key_eq.symm)

/-- A key that is free stays free as long as nobody asks for it. -/
theorem flight?_run_of_not_asked (h : s.Sound) {key : K} (free : s.cache.flight? key = none)
    {events : List (Event K V E)} (silent : ∀ e ∈ events, e.asked? ≠ some key) :
    (s.run events).cache.flight? key = none := by
  induction events generalizing s with
  | nil => exact free
  | cons e events ih =>
      refine ih (h.step e) (h.flight?_step_of_not_asked free (silent e List.mem_cons_self)) ?_
      exact fun e' later => silent e' (List.mem_cons_of_mem _ later)

/-- A first look that asks for a key that is neither registered nor held starts a load. The
task that looks owns this load, which has the next number and is the only one that the event
starts. -/
theorem starts_of_free (h : s.Sound) {key : K} (free : s.cache.flight? key = none)
    (first : s.firstLook? e = some (s', key)) (absent : s'.cache.resident? key = none) :
    (s.step e).loads.length = s.loads.length + 1 ∧
      ∃ looking t, s.look? e = some (looking, t) ∧ t.key = key ∧ t.load = s.loads.length ∧
        t.owner = true := by
  -- An event that asks may first give up a task of the same name, which registers nothing.
  have free' : s'.cache.flight? key = none := by
    cases e with
    | start name key =>
        cases first
        exact h.flight?_step_of_not_asked (e := .drop name) free nofun
    | load key outcome =>
        cases first
        exact free
    | _ => cases first
  have opens := (opens_iff first).mpr ⟨absent, free'⟩
  refine ⟨(s.length_step e).elim And.right fun closed => absurd opens closed.1, ?_⟩
  obtain ⟨decided, look_eq, -⟩ := firstLook_asks first
  rcases s'.ask_cases key decided with ⟨r, held, -⟩ | ⟨-, f, registered, -⟩ | ⟨-, -, ask_eq⟩
  · -- Of the three answers a question may get only a new load is possible.
    cases absent.symm.trans held
  · cases free'.symm.trans registered
  · have looks := look_eq.trans (waiter?_eq_some_iff.mpr ask_eq)
    obtain ⟨key_eq, ⟨-, owner, load_eq⟩ | ⟨-, f, registered, -⟩⟩ := h.load_of_firstLook first looks
    · exact ⟨_, _, looks, key_eq, load_eq, owner⟩
    · cases free'.symm.trans registered

end Sound

/-- What a look at a waiting task shows is a matter of its load. -/
theorem poll_report (s : Session K V E) (name : String) :
    (s.poll name).2 = (s.task? name).map fun t =>
      ⟨(s.outcome? t.load).elim .pending .done, t.owner⟩ := by
  rcases s.poll_cases name with ⟨absent, poll_eq⟩
    | ⟨t, found, ⟨outcome, finds, poll_eq⟩ | ⟨finds, poll_eq⟩⟩ <;> rw [poll_eq]
  · rw [absent]
    rfl
  · simp [found, finds]
  · simp [found, finds]

/-- A task, what it is shown and its entry stay while others are given up. Any number of
others may be, in one go, and the entry counts those that are left after each of them. -/
theorem Sound.left_by_drops (h : s.Sound) {names : List String} (found : s.task? name = some t)
    (others : name ∉ names) :
    let s' := s.run (names.map .drop)
    s'.task? name = some t ∧ s'.loads = s.loads ∧ (s'.poll name).2 = (s.poll name).2 ∧
    (Unseen s.loads t.load → ∃ f, s'.cache.flight? t.key = some f ∧ f.load = t.load ∧
      f.waiters = waitersOf s'.waiters t.load) := by
  obtain ⟨task_eq, loads_eq⟩ := h.run_drops others
  intro s'
  have h' : s'.Sound := h.run _
  -- The task waits in the session after the others have gone, which is sound as well.
  have found' : s'.task? name = some t := task_eq.trans found
  refine ⟨found', loads_eq, ?_, fun unseen => ?_⟩
  · rw [poll_report, poll_report, found', found]
    simp only [outcome?, loads_eq, s']
  · exact h'.flight?_of_waiting (h'.mem_waiters found') (loads_eq ▸ unseen)

variable {config : CacheConfig} {weigh : K → V → UInt64} {past : List (Event K V E)}

/-- A load that somebody waits for is unseen as long as it has not finished. -/
theorem unseen_iff_unfinished (waiting : t ∈ (after config weigh past).waiters) :
    Unseen (after config weigh past).loads t.load ↔
      ∀ outcome, ¬Finished config weigh past t.load outcome := by
  rw [unfinished_iff]
  exact and_iff_right ((sound_after config weigh past).accounted.started t waiting)

/-- A load that has finished was seen. -/
theorem not_unseen_of_finished {load : Nat} {outcome : Except E V}
    (finished : Finished config weigh past load outcome) :
    ¬Unseen (after config weigh past).loads load :=
  fun unseen => unfinished_iff.mpr unseen.2 outcome finished

/-- The register follows those who wait, after every history. Nothing is assumed of the
history: tasks may have been started and given up in any order, and outcomes may have come
for loads that nobody waited for any more. -/
theorem register_follows_waiters (config : CacheConfig) (weigh : K → V → UInt64)
    (past : List (Event K V E)) :
    FollowsWaiters (after config weigh past) (Finished config weigh past) := by
  have h := sound_after config weigh past
  have unseen_of : ∀ {name t}, (after config weigh past).task? name = some t →
      (∀ outcome, ¬Finished config weigh past t.load outcome) →
      Unseen (after config weigh past).loads t.load := fun found unfinished =>
    (unseen_iff_unfinished (h.mem_waiters found)).mpr unfinished
  refine
    { keyed := h.accounted.keyed
      registered_iff := ?registered_iff
      counted := ?counted
      counted_asked := ?counted_asked
      left := ?left
      last := ?last
      renewed := ?renewed
      late := ?late
      harmless := ?harmless
      idle := h.inFlight_eq_zero }
  case registered_iff =>
    intro key
    rw [h.flight?_isSome_iff]
    constructor
    · rintro ⟨t, waiting, key_eq, unseen⟩
      exact ⟨t.load, ⟨t, waiting, key_eq, rfl⟩, (unseen_iff_unfinished waiting).mp unseen⟩
    · rintro ⟨_, ⟨t, waiting, key_eq, rfl⟩, unfinished⟩
      exact ⟨t, waiting, key_eq, (unseen_iff_unfinished waiting).mpr unfinished⟩
  case counted =>
    intro key f found
    obtain ⟨-, some_wait, count_eq⟩ := h.accounted.counted_of_flight? found
    refine ⟨some_wait, count_eq, fun t waiting => ?_⟩
    rw [h.load_eq_iff found waiting, unseen_iff_unfinished waiting]
  case counted_asked =>
    intro e s' t f looks found
    obtain ⟨others, accounted⟩ := h.look looks
    exact (accounted.counted_of_flight? found).2.1
  case left =>
    intro name t names found others s'
    obtain ⟨found', loads_eq, report_eq, registered⟩ := h.left_by_drops found others
    exact ⟨found', loads_eq, report_eq, fun unfinished => registered (unseen_of found unfinished)⟩
  case last =>
    intro name t found unfinished alone
    exact h.cache_drop_last found (unseen_of found unfinished) alone
  -- The last waiter frees the key, and it stays free until somebody asks for it.
  case renewed =>
    intro name t found unfinished alone events silent s' e asking first absent
    refine ((h.step _).run events).starts_of_free ?_ first absent
    refine (h.step _).flight?_run_of_not_asked ?_ silent
    show (Session.drop _ name).1.cache.flight? t.key = none
    rw [h.cache_drop_last found (unseen_of found unfinished) alone]
    simp [Cache.flight?, Cache.dropFlight, List.find?_eq_none]
  -- A waiter whose load had not finished would find that load under its key.
  case late =>
    intro name t f found registered other
    by_contra unfinished
    have unseen := unseen_of found (not_exists.mp unfinished)
    exact other ((h.load_eq_iff registered (h.mem_waiters found)).mpr ⟨rfl, unseen⟩).symm
  case harmless =>
    intro name t outcome found finished
    exact ⟨(h.look_settled (look?_poll found) (finished_iff.mp finished)).2,
      h.cache_drop_of_seen found (not_unseen_of_finished finished)⟩

/-- A value is put in while its key is loaded, and then the only one who waits gives up. The
next task that asks for the key does not start a load, since the value is there. -/
theorem held_after_abandoned :
    let past : List (Event Nat Nat Unit) := [.start "a" 1, .insert 1 7]
    let s := after ⟨100, 90⟩ (fun _ _ => 1) past
    let s' := s.step (.drop "a")
    s.task? "a" = some ⟨1, 0, true⟩ ∧
    (∀ outcome, ¬Finished ⟨100, 90⟩ (fun _ _ => 1) past 0 outcome) ∧
    waitersOf s.waiters 0 = 1 ∧
    s'.report? (.start "b" 1) = some ⟨.done (.ok 7), false⟩ ∧
    ¬(s'.step (.start "b" 1)).loads.length = s'.loads.length + 1 :=
  ⟨rfl, unfinished_iff.mpr rfl, rfl, rfl, by decide⟩

end Session

end TileArchive
