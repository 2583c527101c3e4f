import TileArchive.Proofs.Cache.Undisturbed

/-!
# `TileArchive.Proofs.Cache.SingleFlight`: one load at a time, with one outcome

`single_flight` is the promise of a cache that shares loads, for every history of the cache
and its tasks. `SingleFlight` lists its parts. It speaks of one session and of the loads that have
finished by then, and says what any event that comes next does:

* where loads come from, and for which of them a task waits (`started`, `asked`, `kept`,
  `one_load`);
* what a waiter is shown (`one_outcome`, `late`, `first`, `early`);
* what becomes of an outcome (`first`, `before`, `quiet`). The event in which a waiter is the first
  to be shown an outcome processes it. A value is put in as by an insertion, or one failure is
  counted. No other event does this, whatever it is: a later look, a task that is given up, an
  outcome that is decided. From the first showing on the load is finished, so its outcome is
  processed once at most.

That every waiter of a load is shown the same outcome comes from `Looks.lean`: what a load
finished with is its settled outcome, and that does not change. That only the first waiter has
the outcome processed comes from the account of `Waiters.lean`: before that look the load is
unseen and so registered under the key of its waiters, and afterwards whatever is registered
there is another load. That nothing else touches the values comes from `Undisturbed.lean`.
-/

set_option autoImplicit false

namespace TileArchive.Session

variable {K V E : Type} [DecidableEq K]

/-- In an event a waiter looks at a load of which an outcome is decided but was not shown
yet. This is the one event in the life of a load that processes its outcome. -/
def ShowsFirst (s : Session K V E) (finished : Nat → Except E V → Prop) (e : Event K V E) : Prop :=
  ∃ s' t outcome, s.look? e = some (s', t) ∧ (∀ o, ¬finished t.load o) ∧
    s'.decided? t.load = some outcome

/-- What holds of a session in which loads have finished, whatever event comes next.
`finished` says which loads have shown which outcomes so far. The fields say what a caller
can see and what becomes of the cache, one after another for an event: who starts a load,
who waits for which, what a look shows, and when an outcome is processed. -/
structure SingleFlight (s : Session K V E) (finished : Nat → Except E V → Prop) : Prop where
  /-- One load is started by a first look that opens one, and none by any other event. -/
  started : ∀ e, (s.Opens e ∧ (s.step e).loads.length = s.loads.length + 1) ∨
    (¬s.Opens e ∧ (s.step e).loads.length = s.loads.length)
  /-- A task that asks for a key waits for the load that this opens, which it owns, or for the
  one that was registered. -/
  asked : ∀ e s' key s'' t, s.firstLook? e = some (s', key) → s.look? e = some (s'', t) →
    t.key = key ∧ ((s.Opens e ∧ t.owner = true ∧ t.load = s.loads.length) ∨
      (t.owner = false ∧ ∃ f, s'.cache.flight? key = some f ∧ t.load = f.load))
  /-- A waiting task waits for the load that it got at its first look. -/
  kept : ∀ e name t, (s.step e).task? name = some t →
    s.task? name = some t ∨ ∃ key s', e = .start name key ∧ s.look? e = some (s', t)
  /-- No key has two loads that are waited for and have not finished. -/
  one_load : ∀ t ∈ s.waiters, ∀ t' ∈ s.waiters, t.key = t'.key →
    (∀ outcome, ¬finished t.load outcome) → (∀ outcome, ¬finished t'.load outcome) →
    t.load = t'.load
  /-- All outcomes that waiters of a load were shown are the same. -/
  one_outcome : ∀ load outcome outcome', finished load outcome → finished load outcome' →
    outcome = outcome'
  /-- A waiter of a load that has finished is shown the outcome. -/
  late : ∀ e s' t outcome, s.look? e = some (s', t) → finished t.load outcome →
    s.report? e = some ⟨.done outcome, t.owner⟩ ∧ (s.step e).cache = s'.cache
  /-- A waiter of a load that has not finished is shown the outcome decided for it. This is
  processed. -/
  first : ∀ e s' t outcome, s.look? e = some (s', t) → (∀ o, ¬finished t.load o) →
    s'.decided? t.load = some outcome →
    s.report? e = some ⟨.done outcome, t.owner⟩ ∧
      (s.step e).cache = s'.cache.processed t.key outcome
  /-- As long as nothing is decided the waiter has to wait. -/
  early : ∀ e s' t, s.look? e = some (s', t) → (∀ o, ¬finished t.load o) →
    s'.decided? t.load = none → s.report? e = some ⟨.pending, t.owner⟩
  /-- Until a waiter looks, the event has put no value in, taken none out and counted no
  failure. -/
  before : ∀ e s' t, s.look? e = some (s', t) → s.cache.Undisturbed s'.cache
  /-- An event that is not the first to show an outcome processes none. It leaves the values and
  the count of failures as its own operation on the cache does, and as they were if it is about a
  task. -/
  quiet : ∀ e, ¬s.ShowsFirst finished e → (e.operate s.cache).Undisturbed (s.step e).cache

/-- An outcome settles in an event only if the event is the first to show it. -/
theorem settles?_eq_none_of_not_showsFirst {config : CacheConfig} {weigh : K → V → UInt64}
    {past : List (Event K V E)} {e : Event K V E}
    (other : ¬(after config weigh past).ShowsFirst (Finished config weigh past) e) :
    (after config weigh past).settles? e = none := by
  refine Option.eq_none_iff_forall_ne_some.mpr fun (t, outcome) settles => other ?_
  obtain ⟨s', looks, unsettled, finds⟩ := settles?_eq_some_iff.mp settles
  refine ⟨s', t, outcome, looks, unfinished_iff.mpr unsettled, ?_⟩
  rw [← outcome?_of_unsettled ((settled?_look looks t.load).trans unsettled)]
  exact finds

/-- Requests for one key share one load at a time, and all who wait for a load are shown the
one outcome that the first of them has processed. Nothing else processes an outcome. This holds of
every session that a history leads to. -/
theorem single_flight (config : CacheConfig) (weigh : K → V → UInt64)
    (past : List (Event K V E)) :
    SingleFlight (after config weigh past) (Finished config weigh past) := by
  have h := sound_after config weigh past
  exact
    { started := length_step _
      asked := fun _ _ _ _ _ first looks => h.load_of_firstLook first looks
      kept := by
        intro e name t found
        have mem := (task?_eq_some_iff (h.step e).named).mp found
        exact (mem_tasks_step mem).imp_left (task?_eq_some_iff h.named).mpr
      -- Two loads that nobody has seen the end of, under one key, are the same entry of the
      -- register.
      one_load := by
        intro t waiting t' waiting' same unfinished unfinished'
        exact h.load_eq_of_unseen waiting waiting' same
          ⟨h.accounted.started t waiting, unfinished_iff.mp unfinished⟩
          ⟨h.accounted.started t' waiting', unfinished_iff.mp unfinished'⟩
      one_outcome := by
        intro load outcome outcome' finished finished'
        exact Option.some.inj ((finished_iff.mp finished).symm.trans (finished_iff.mp finished'))
      late := fun _ _ _ _ looks finished => h.look_settled looks (finished_iff.mp finished)
      first := fun _ _ _ _ looks unfinished decided =>
        h.look_decided looks (unfinished_iff.mp unfinished) decided
      early := fun _ _ _ looks unfinished undecided =>
        look_undecided looks (unfinished_iff.mp unfinished) undecided
      before := fun _ _ _ looks => undisturbed_of_look looks
      quiet := fun _ other => h.undisturbed_of_quiet (settles?_eq_none_of_not_showsFirst other) }

end TileArchive.Session
