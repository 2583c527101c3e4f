import TileArchive.Proofs.Cache.Accounting

/-!
# `TileArchive.Proofs.Cache.Failure`: loads that fail or are abandoned

An *episode* begins with a task that starts a load of a key. After that nothing happens but what
concerns this load: tasks join it, look at it or are given up, and its outcome is decided. The
episode may go on after the load has ended, as long as no task starts the next one.

`ended_load_leaves_as_before` says what an episode leaves in the cache when the load fails, or is
given up by all who waited for it. Apart from the counts of misses, loads and failures there is
nothing: the values, the register and all else are as they were.

The proof follows the load through the episode (`Phase`). It is registered until it ends, and the
register holds nothing else that was not there before. What an event does to the cache is taken
from the parts of the event.

## Phases

`Phase` has one constructor per stage of the load. *Unseen*: the load is registered with some
waiters, or all of them were given up; no value has changed and the counters tell how many have
asked. *Failed*: the register is as it was before the episode, and one failure is counted.
*Stored*: the load settled with a value, and nothing more is said, because the theorem is not
about this case. `Phase.step` takes one event from phase to phase, and `Phase.run` the rest of
the episode.

## The register during an episode

`withLoad` writes the register as what was there before with at most one entry in front. That the
entry can be told from the others is `Apart`: neither its key nor its number occurs among them.
Each part of an event then does something definite to this form (`GivesUp.flights`,
`AsksFor.flights`, `Looks.flights`), and in the end the entry is gone and the form says that the
register is what it was.
-/

set_option autoImplicit false

namespace TileArchive

variable {K V E : Type}

namespace Session

/-- An event concerns a load of a key. A task that waits for the load is looked at or given up, a
task asks for the key, or the outcome of the load is decided. -/
def Concerns (s : Session K V E) (load : Nat) (key : K) : Event K V E → Prop
  | .start name key' => key' = key ∧ ∀ t ∈ s.task? name, t.load = load
  | .load key' _ => key' = key
  | .poll name | .drop name | .resolve name _ => ∀ t ∈ s.task? name, t.load = load
  | .decideLoad load' _ => load' = load
  | _ => False

variable [DecidableEq K]

/-- A load of a key is started, and nothing happens after that but what concerns it: others
may ask for the key and wait, any of them may look or give up, and the outcome may be
decided or replaced. -/
structure Episode (s : Session K V E) (key : K) (e : Event K V E) (later : List (Event K V E)) :
    Prop where
  opens : s.Opens e
  first : s.Concerns s.loads.length key e
  /-- No task starts another load of the key. -/
  rest : ∀ d ∈ (s.step e).trace later, d.1.Concerns s.loads.length key d.2 ∧ ¬d.1.Opens d.2

/-- A cache is as it was before, apart from what its counters say about look-ups and loads.
That it is so in what a request can see is the last field: the next one loads again. -/
structure LeftAsBefore (s s' : Session K V E) (key : K) (asked failures : Nat) : Prop where
  /-- All values are held as they were, with weights and stamps, and none was dropped. -/
  values : s.cache.SameValues s'.cache
  register : s'.cache.flights = s.cache.flights
  /-- Each task that has asked has missed, and one load was started. -/
  counts : CountsOn s.cache s'.cache 0 asked 1 failures
  /-- The next task that asks for the key calls its loader. -/
  next : ∀ e, e.asked? = some key → s'.invokes e = true

variable {s s' : Session K V E} {e : Event K V E} {t : Task K} {key : K} {load : Nat}
  {c c' : Cache K V}

/-! ### Events that concern a load -/

namespace Concerns

omit [DecidableEq K] in
/-- What concerns a load is about tasks. -/
theorem isTask (concerns : s.Concerns load key e) : e.isTask = true := by
  cases e <;> first | rfl | cases concerns

omit [DecidableEq K] in
/-- Who asks in an event that concerns a load asks for its key. -/
theorem asked_eq (concerns : s.Concerns load key e) {key' : K} (asks : e.asked? = some key') :
    key' = key := by
  cases e with
  | start name key =>
      cases asks
      exact concerns.1
  | load key outcome =>
      cases asks
      exact concerns
  | _ => cases asks

omit [DecidableEq K] in
/-- Who is given up in an event that concerns a load waits for it. -/
theorem leaving_eq (concerns : s.Concerns load key e) (leaves : s.leaving? e = some t) :
    t.load = load := by
  cases e with
  | start name key => exact concerns.2 t leaves
  | drop name => exact concerns t leaves
  | _ => cases leaves

/-- Who looks waits for the load, or has just asked for the key. These are the two ways in
which an event that concerns a load can come to a look. -/
theorem look_eq (concerns : s.Concerns load key e) (h : s.Sound)
    (looks : s.look? e = some (s', t)) : t.load = load ∨ t.key = key := by
  cases e with
  | start name key' =>
      -- Only an event that asks can look at a load that was not waited for before, and it
      -- asks for the key.
      obtain ⟨-, key_eq, -⟩ := (h.drop name).ask_waits (waiter?_eq_some_iff.mp looks)
      exact .inr (key_eq.trans concerns.1)
  | load key' outcome =>
      obtain ⟨-, key_eq, -⟩ := h.ask_waits (waiter?_eq_some_iff.mp looks)
      exact .inr (key_eq.trans concerns)
  | poll name =>
      obtain ⟨t', found, pair_eq⟩ := Option.map_eq_some_iff.mp looks
      cases pair_eq
      exact .inl (concerns t found)
  | _ => cases looks

end Concerns

/-- An event opens a load just if it starts one. -/
theorem Sound.opens_iff_opened? (h : s.Sound) : s.Opens e ↔ s.opened? e = some s.loads.length := by
  rcases h.opened_cases e with ⟨opens, length_eq⟩ | ⟨closed, length_eq⟩ <;>
    rcases s.length_step e with ⟨opens', length_eq'⟩ | ⟨closed', length_eq'⟩
  · exact iff_of_true opens' opens
  · omega
  · omega
  · exact iff_of_false closed' fun opens => by cases closed.symm.trans opens

/-- An event that opens no load has nobody start one. -/
theorem Sound.starts?_of_not_opens (h : s.Sound) (closed : ¬s.Opens e) : s.starts? e = none := by
  rcases h.opened_cases e with ⟨opens, -⟩ | ⟨unopened, -⟩
  · exact absurd (h.opens_iff_opened?.mpr opens) closed
  · exact Option.map_eq_none_iff.mp unopened

/-! ### The register with one more load -/

/-- A register to which a load may have been added, with the given number of waiters. While
a load has waiters it is in front of all that was registered before. -/
def withLoad (base : List (Flight K)) (key : K) (load : Nat) : Option Nat → List (Flight K)
  | none => base
  | some waiters => ⟨key, load, waiters⟩ :: base

/-- Nothing in a register is of the given key or has the given number. A load that is added
to such a register can be told from all others by either. -/
def Apart (base : List (Flight K)) (key : K) (load : Nat) : Prop :=
  ∀ f ∈ base, f.key ≠ key ∧ f.load ≠ load

section

variable {base : List (Flight K)} {waiting waiting' : Option Nat}

/-- What is found of the key or with the number is the load that was added. The register
before had neither, as the key was free and numbers are not used twice. -/
theorem Apart.found (apart : Apart base key load)
    (flights_eq : c.flights = withLoad base key load waiting) {key' : K} {f : Flight K}
    (found : c.flight? key' = some f) (about : f.load = load ∨ key' = key) :
    key' = key ∧ f.load = load ∧ waiting ≠ none := by
  -- An entry that was there before has another key and another number.
  have member : f ∈ withLoad base key load waiting := flights_eq ▸ List.mem_of_find?_eq_some found
  have key_eq : f.key = key' := by simpa using List.find?_some found
  have other : f ∉ base := by
    intro mem
    rcases about with load_eq | key_eq'
    · exact (apart f mem).2 load_eq
    · exact (apart f mem).1 (key_eq.trans key_eq')
  cases waiting with
  | none => exact absurd member other
  | some waiters =>
      rcases List.mem_cons.mp member with rfl | mem
      · exact ⟨key_eq.symm, rfl, Option.some_ne_none _⟩
      · exact absurd mem other

/-- Dropping the load of the key leaves what was there before. -/
theorem Apart.flights_dropFlight (apart : Apart base key load)
    (flights_eq : c.flights = withLoad base key load waiting) :
    (c.dropFlight key).flights = base := by
  have kept : (base.filter fun f => f.key ≠ key) = base :=
    List.filter_eq_self.mpr fun f mem => by simpa using (apart f mem).1
  rw [Cache.dropFlight, flights_eq]
  cases waiting with
  | none => exact kept
  | some waiters => simpa [withLoad] using kept

/-- Changing the number of waiters of the key changes the added entry alone. -/
theorem Apart.flights_setWaiters (apart : Apart base key load)
    (flights_eq : c.flights = withLoad base key load waiting) (registered : waiting ≠ none)
    (waiters : Nat) :
    (c.setWaiters key waiters).flights = withLoad base key load (some waiters) := by
  have kept : (base.map fun f => if f.key = key then { f with waiters } else f) = base :=
    (List.map_congr_left fun f mem => if_neg (apart f mem).1).trans (List.map_id base)
  obtain ⟨old, rfl⟩ := Option.ne_none_iff_exists'.mp registered
  rw [Cache.setWaiters, flights_eq, withLoad, List.map_cons, kept, if_pos rfl, withLoad]

/-- Who is given up waits for the load. The register is that of before with at most this one
load added, so whatever the withdrawal does to the register it does to this load's entry.
Once the entry has gone it does not come back. -/
theorem GivesUp.flights (gives : s.GivesUp e c) (concerns : s.Concerns load key e)
    (apart : Apart base key load) (flights_eq : s.cache.flights = withLoad base key load waiting) :
    ∃ waiting', c.flights = withLoad base key load waiting' ∧
      (waiting = none → waiting' = none) := by
  cases gives with
  | unnoticed => exact ⟨waiting, flights_eq, id⟩
  -- The entry that is found is the one of the load, since no other has its number.
  | fewer leaves _ found load_eq =>
      obtain ⟨key_eq, -, registered⟩ :=
        apart.found flights_eq found (.inl (load_eq.trans (concerns.leaving_eq leaves)))
      rw [key_eq]
      exact ⟨_, apart.flights_setWaiters flights_eq registered _,
        fun gone => absurd gone registered⟩
  | last leaves _ found load_eq =>
      obtain ⟨key_eq, -, registered⟩ :=
        apart.found flights_eq found (.inl (load_eq.trans (concerns.leaving_eq leaves)))
      rw [key_eq]
      exact ⟨none, apart.flights_dropFlight flights_eq, fun _ => rfl⟩

/-- Who asks joins the load. An event that concerns the load and starts none cannot find a
value, since none is held under the key, so the only thing left to do is to join. -/
theorem AsksFor.flights (asks : s.AsksFor e c c') (concerns : s.Concerns load key e)
    (closed : s.starts? e = none) (absent : c.resident? key = none) (apart : Apart base key load)
    (flights_eq : c.flights = withLoad base key load waiting) :
    ∃ waiting', c'.flights = withLoad base key load waiting' ∧
      (waiting = none → waiting' = none) := by
  cases asks with
  | nobody => exact ⟨waiting, flights_eq, id⟩
  | hit asks held =>
      rw [concerns.asked_eq asks, absent] at held
      -- A hit is excluded because nothing is held under the key.
      cases held
  | @joins _ f _ _ asks _ found =>
      obtain ⟨key_eq, -, registered⟩ := apart.found flights_eq found (.inr (concerns.asked_eq asks))
      rw [key_eq]
      exact ⟨some (f.waiters + 1), apart.flights_setWaiters (c := c.countLookup false) flights_eq
        registered _, fun gone => absurd gone registered⟩
  | starts _ _ _ _ _ _ starts => cases closed.symm.trans starts

/-- Who starts the load adds it, with one waiter. This is the one event of an episode in
which the load is not in the register before. -/
theorem AsksFor.flights_of_opened (asks : s.AsksFor e c c') (concerns : s.Concerns load key e)
    (opened : s.opened? e = some load) (flights_eq : c.flights = base) :
    c'.flights = withLoad base key load (some 1) := by
  have not_closed : s.starts? e ≠ none := by
    intro closed
    rw [opened?, closed] at opened
    cases opened
  cases asks with
  | nobody _ closed => exact absurd closed not_closed
  | hit _ _ _ closed => exact absurd closed not_closed
  | joins _ _ _ _ _ _ closed => exact absurd closed not_closed
  | starts asks _ _ _ _ load_eq starts =>
      rw [opened?, starts, Option.map_some, load_eq] at opened
      cases opened
      rw [concerns.asked_eq asks, ← flights_eq]
      rfl

/-- Who looks waits for the load. The load stays, with as many waiters or one fewer, or it
settles and leaves the register as it was before the load. -/
theorem Looks.flights (looks : s.Looks e c c')
    (about : ∀ s' t, s.look? e = some (s', t) → t.load = load ∨ t.key = key)
    (apart : Apart base key load) (flights_eq : c.flights = withLoad base key load waiting) :
    (s.settles? e = none ∧ ∃ waiting', c'.flights = withLoad base key load waiting' ∧
      (waiting = none → waiting' = none)) ∨
    (∃ t outcome, s.settles? e = some (t, outcome) ∧ t.load = load ∧ waiting ≠ none ∧
      c'.flights = base) := by
  cases looks with
  | unnoticed quiet => exact .inl ⟨quiet, waiting, flights_eq, id⟩
  | leaves looks quiet found load_eq =>
      obtain ⟨key_eq, -, registered⟩ :=
        apart.found flights_eq found ((about _ _ looks).imp_left load_eq.trans)
      rw [key_eq]
      exact .inl ⟨quiet, _, apart.flights_setWaiters flights_eq registered _,
        fun gone => absurd gone registered⟩
  | settles looks settles found load_eq =>
      obtain ⟨key_eq, load_eq', registered⟩ :=
        apart.found flights_eq found ((about _ _ looks).imp_left load_eq.trans)
      -- Processing an outcome may put a value in, but as to the register it only takes the
      -- entry off.
      refine .inr ⟨_, _, settles, load_eq.symm.trans load_eq', registered, ?_⟩
      rw [Cache.flights_processed, key_eq]
      exact apart.flights_dropFlight flights_eq

end

/-! ### What an event leaves of the cache -/

/-- Where nobody is the first to see an outcome nothing is settled. A late look shows an
outcome too, but one that was settled before. -/
theorem Sound.settled?_step_of_quiet (h : s.Sound) (quiet : s.settles? e = none) (load : Nat) :
    settled? (s.step e).loads load = settled? s.loads load := by
  ext outcome
  rw [h.settled?_step_iff, or_iff_left_iff_imp]
  -- If the load were settled by the event, then either the look was the first, which is
  -- excluded, or it was late and the load had been settled before.
  rintro ⟨s', t, looks, rfl, shown⟩
  cases settled : settled? s.loads t.load with
  | none =>
      rcases look_cases looks with ⟨_, finds, -⟩ | ⟨-, report_eq, -⟩
      · cases quiet.symm.trans (settles?_eq_some_iff.mpr ⟨s', looks, settled, finds⟩)
      · cases report_eq.symm.trans shown
  | some seen =>
      cases (h.look_settled looks settled).1.symm.trans shown
      rfl

/-- The outcome that a waiter is the first to be shown settles its load. -/
theorem Sound.settled?_step_of_settles (h : s.Sound) {outcome : Except E V}
    (settles : s.settles? e = some (t, outcome)) :
    settled? (s.step e).loads t.load = some outcome := by
  obtain ⟨s', looks, -, finds⟩ := settles?_eq_some_iff.mp settles
  refine h.settled?_step_iff.mpr (.inr ⟨s', t, looks, rfl, ?_⟩)
  rcases look_cases looks with ⟨_, finds', report_eq, -⟩ | ⟨finds', -⟩ <;>
    cases finds.symm.trans finds'
  exact report_eq

namespace Concerns

/-- Who asks for a key that is not held misses. An event of an episode counts this look-up,
the load if it is the first event, and a failure if it is the one that shows it. -/
theorem counts (concerns : s.Concerns load key e) (h : s.Sound)
    (absent : s.cache.resident? key = none) :
    CountsOn s.cache (s.step e).cache 0 e.asked?.isSome.toNat (s.opened? e).toList.length
      (s.failed? e).toList.length := by
  have about := concerns.isTask
  have counts := h.counts_step (e := e) (by rintro rfl; cases about)
  -- No look-up of the event can hit, since nothing is held under the key it asks for.
  have missed : ∀ key', e.asked? = some key' → s.cache.contains key' = false := by
    intro key' asks
    rw [concerns.asked_eq asks]
    exact Cache.contains_of_none absent
  rw [finds, sought?_of_isTask about] at counts
  cases asks : e.asked? with
  | none => simpa [asks] using counts
  | some key' => simpa [asks, missed key' asks] using counts

/-- Nothing happens to values as long as no value settles. An event that concerns the load
neither inserts nor takes out, and it uses no value, as none is held under the key. -/
theorem sameValues (concerns : s.Concerns load key e) (h : s.Sound)
    (absent : s.cache.resident? key = none)
    (unstored : ∀ t value, s.settles? e ≠ some (t, .ok value)) :
    s.cache.SameValues (s.step e).cache := by
  have about := concerns.isTask
  have unwritten := written?_of_not_settles_ok about unstored
  -- Of the six kinds of events only one without a write and without a hit is left.
  cases h.handles e with
  | writes written => cases unwritten.symm.trans written
  | uses _ sought held =>
      rw [sought?_of_isTask about] at sought
      rw [concerns.asked_eq sought, absent] at held
      cases held
  | leaves _ _ same => exact same
  | invalidates event_eq => cases event_eq ▸ about
  | clears event_eq => cases event_eq ▸ about
  | resets event_eq => cases event_eq ▸ about

end Concerns

/-- What an event that starts no load does to the register. Either the load is still unseen,
with other waiters or none, or its outcome was shown and the register is the one from before
the episode. -/
theorem Sound.flights_step (h : s.Sound) (concerns : s.Concerns load key e) (closed : ¬s.Opens e)
    (absent : s.cache.resident? key = none) {base : List (Flight K)}
    (apart : Apart base key load) {waiting : Option Nat}
    (flights_eq : s.cache.flights = withLoad base key load waiting) :
    (s.settles? e = none ∧ ∃ waiting', (s.step e).cache.flights = withLoad base key load waiting' ∧
      (waiting = none → waiting' = none)) ∨
    (∃ t outcome, s.settles? e = some (t, outcome) ∧ t.load = load ∧ waiting ≠ none ∧
      (s.step e).cache.flights = base) := by
  obtain ⟨c, c', gives, asks, looks⟩ := h.acts concerns.isTask
  obtain ⟨given, given_eq, given_none⟩ := gives.flights concerns apart flights_eq
  obtain ⟨asked, asked_eq, asked_none⟩ := asks.flights concerns (h.starts?_of_not_opens closed)
    ((gives.sameValues.resident?_eq key).trans absent) apart given_eq
  rcases looks.flights (fun _ _ => concerns.look_eq h) apart asked_eq with
    ⟨quiet, looked, looked_eq, looked_none⟩ | ⟨t, outcome, settles, load_eq, registered, looked_eq⟩
  · exact .inl ⟨quiet, looked, looked_eq, looked_none ∘ asked_none ∘ given_none⟩
  · exact .inr ⟨t, outcome, settles, load_eq, mt (asked_none ∘ given_none) registered, looked_eq⟩

/-! ### The phases of a load -/

/-- How far a load has come that was the next to be started in a session, with the number of
tasks that have asked for its key since. The first session is that before the episode. -/
inductive Phase (s s' : Session K V E) (key : K) (asked : Nat) : Prop where
  /-- The load is registered, or everybody who waited for it was given up. -/
  | unseen (waiting : Option Nat) (unsettled : settled? s'.loads s.loads.length = none)
      (flights_eq : s'.cache.flights = withLoad s.cache.flights key s.loads.length waiting)
      (same : s.cache.SameValues s'.cache) (counts : CountsOn s.cache s'.cache 0 asked 1 0)
  | failed (error : E) (settled : settled? s'.loads s.loads.length = some (.error error))
      (flights_eq : s'.cache.flights = s.cache.flights)
      (same : s.cache.SameValues s'.cache) (counts : CountsOn s.cache s'.cache 0 asked 1 1)
  | stored (value : V) (settled : settled? s'.loads s.loads.length = some (.ok value))

variable {s₁ : Session K V E} {asked : Nat}

/-- An unseen load stays so in an event, or it settles. Both first and later events of an
episode come down to this, once it is known what they do to the register. -/
theorem Phase.of_unseen (h : s₁.Sound) (concerns : s₁.Concerns s.loads.length key e)
    (absent : s₁.cache.resident? key = none)
    (unsettled : settled? s₁.loads s.loads.length = none) (same : s.cache.SameValues s₁.cache)
    (counts : CountsOn s.cache (s₁.step e).cache 0 asked 1 (s₁.failed? e).toList.length)
    (flights : (s₁.settles? e = none ∧ ∃ waiting, (s₁.step e).cache.flights
        = withLoad s.cache.flights key s.loads.length waiting) ∨
      (∃ t outcome, s₁.settles? e = some (t, outcome) ∧ t.load = s.loads.length ∧
        (s₁.step e).cache.flights = s.cache.flights)) :
    Phase s (s₁.step e) key asked := by
  rw [failed?] at counts
  -- What the register has become says whether the load was settled.
  rcases flights with ⟨quiet, waiting, flights_eq⟩ | ⟨t, outcome, settles, load_eq, flights_eq⟩
  · rw [quiet] at counts
    refine .unseen waiting ((h.settled?_step_of_quiet quiet _).trans unsettled) flights_eq ?_ counts
    exact same.trans (concerns.sameValues h absent (by simp [quiet]))
  · have settled := h.settled?_step_of_settles settles
    rw [load_eq] at settled
    rw [settles] at counts
    cases outcome with
    | ok value => exact .stored value settled
    | error failure =>
        refine .failed failure settled flights_eq ?_ counts
        exact same.trans (concerns.sameValues h absent (by simp [settles]))

/-- An event that concerns a load takes it on by a phase at most. A load that has failed
stays so, because its late waiters find nothing to do. -/
theorem Phase.step (phase : Phase s s₁ key asked) (h : s₁.Sound)
    (concerns : s₁.Concerns s.loads.length key e) (closed : ¬s₁.Opens e)
    (absent : s.cache.resident? key = none)
    (apart : Apart s.cache.flights key s.loads.length) :
    Phase s (s₁.step e) key (asked + e.asked?.isSome.toNat) := by
  have unopened : s₁.opened? e = none := Option.map_eq_none_iff.mpr (h.starts?_of_not_opens closed)
  -- The load is unseen and may settle now, or it has failed and the event cannot touch it any
  -- more, or it was stored and stays so.
  cases phase with
  | unseen waiting unsettled flights_eq same counts =>
      have absent' := (same.resident?_eq key).trans absent
      have counts' := concerns.counts h absent'
      rw [unopened] at counts'
      refine .of_unseen h concerns absent' unsettled same ?_ ?_
      · simpa using counts.trans counts'
      · rcases h.flights_step concerns closed absent' apart flights_eq with
          ⟨quiet, waiting', flights_eq', -⟩ | ⟨t, outcome, settles, load_eq, -, flights_eq'⟩
        · exact .inl ⟨quiet, waiting', flights_eq'⟩
        · exact .inr ⟨t, outcome, settles, load_eq, flights_eq'⟩
  | failed error settled flights_eq same counts =>
      have absent' := (same.resident?_eq key).trans absent
      have counts' := concerns.counts h absent'
      have gone : s₁.cache.flights = withLoad s.cache.flights key s.loads.length none := flights_eq
      rcases h.flights_step concerns closed absent' apart gone with
        ⟨quiet, waiting', flights_eq', still_gone⟩ | ⟨t, outcome, -, -, registered, -⟩
      · rw [unopened, failed?, quiet] at counts'
        rw [still_gone rfl] at flights_eq'
        refine .failed error ((h.settled?_step_of_quiet quiet _).trans settled) flights_eq' ?_ ?_
        · exact same.trans (concerns.sameValues h absent' (by simp [quiet]))
        · simpa using counts.trans counts'
      · exact absurd rfl registered
  | stored value settled => exact .stored value (h.settled?_step_iff.mpr (.inl settled))

/-- Events that concern a load take it through its phases. The look-ups of the events add
up, and this is the only number in a phase that depends on how many there are. -/
theorem Phase.run {later : List (Event K V E)} (phase : Phase s s₁ key asked) (h : s₁.Sound)
    (rest : ∀ d ∈ s₁.trace later, d.1.Concerns s.loads.length key d.2 ∧ ¬d.1.Opens d.2)
    (absent : s.cache.resident? key = none)
    (apart : Apart s.cache.flights key s.loads.length) :
    Phase s (s₁.run later) key (asked + later.countP fun d => d.asked?.isSome) := by
  induction later generalizing s₁ asked with
  | nil => exact phase
  | cons e later ih =>
      obtain ⟨concerns, closed⟩ : s₁.Concerns s.loads.length key e ∧ ¬s₁.Opens e :=
        rest (s₁, e) List.mem_cons_self
      -- The hypothesis is used at the session after the event, which has reached a phase of
      -- its own.
      have next := ih (phase.step h concerns closed absent apart) (h.step e)
        fun d mem => rest d (List.mem_cons_of_mem _ mem)
      rw [Nat.add_assoc, Nat.add_comm e.asked?.isSome.toNat] at next
      rw [run_cons, List.countP_cons]
      cases asks : e.asked? <;> rw [asks] at next <;> exact next

/-! ### Episodes -/

/-- Who opens a load asks in the session as it is. A task that is given up because its name
is used again had waited for the load, which has not been started yet, so there is none. -/
theorem Concerns.firstLook_eq (concerns : s.Concerns s.loads.length key e) (h : s.Sound)
    {key' : K} (first : s.firstLook? e = some (s', key')) : s' = s ∧ key' = key := by
  cases e with
  | start name key' =>
      cases first
      refine ⟨?_, concerns.1⟩
      rcases s.drop_cases name with ⟨-, drop_eq⟩ | ⟨t, found, -⟩
      · rw [drop_eq]
      · -- A task that waits already waits for an earlier load.
        have earlier := h.accounted.started t (h.mem_waiters found)
        exact absurd (concerns.2 t found) (Nat.ne_of_lt earlier)
  | load key' outcome =>
      cases first
      exact ⟨rfl, concerns⟩
  | _ => cases first

namespace Episode

variable {later : List (Event K V E)}

/-- The key is neither held nor registered. -/
theorem free (episode : Episode s key e later) (h : s.Sound) :
    s.cache.resident? key = none ∧ s.cache.flight? key = none := by
  obtain ⟨s', key', first, open_key⟩ := episode.opens
  obtain ⟨rfl, rfl⟩ := episode.first.firstLook_eq h first
  exact open_key

/-- The number of the load is new, and so is its key. -/
theorem apart (episode : Episode s key e later) (h : s.Sound) :
    Apart s.cache.flights key s.loads.length := by
  intro f mem
  have free := List.find?_eq_none.mp (episode.free h).2 f mem
  exact ⟨by simpa using free, Nat.ne_of_lt (h.accounted.counted f mem).1.1⟩

/-- The first event starts the load. It may also be the last one, if the loader comes to its
outcome without keeping its caller waiting. -/
theorem phase_first (episode : Episode s key e later) (h : s.Sound) :
    Phase s (s.step e) key e.asked?.isSome.toNat := by
  have concerns := episode.first
  have absent := (episode.free h).1
  have opened := h.opens_iff_opened?.mp episode.opens
  have counts := concerns.counts h absent
  rw [opened] at counts
  refine .of_unseen h concerns absent (settled?_of_length_le (Nat.le_refl _)) (.refl _) counts ?_
  obtain ⟨c, c', gives, asks, looks⟩ := h.acts concerns.isTask
  -- Whoever is given up by the event waits for another load. Then the task asks.
  have without : s.cache.flights = withLoad s.cache.flights key s.loads.length none := rfl
  obtain ⟨given, given_eq, still_gone⟩ := gives.flights concerns (episode.apart h) without
  rw [still_gone rfl] at given_eq
  have registered := asks.flights_of_opened concerns opened given_eq
  rcases looks.flights (fun _ _ => concerns.look_eq h) (episode.apart h) registered with
    ⟨quiet, waiting, flights_eq, -⟩ | ⟨t, outcome, settles, load_eq, -, flights_eq⟩
  · exact .inl ⟨quiet, waiting, flights_eq⟩
  · exact .inr ⟨t, outcome, settles, load_eq, flights_eq⟩

/-- An episode takes the load that it is about through its phases. -/
theorem phase (episode : Episode s key e later) (h : s.Sound) :
    Phase s (s.run (e :: later)) key ((e :: later).countP fun d => d.asked?.isSome) := by
  have phase := (episode.phase_first h).run (h.step e) episode.rest (episode.free h).1
    (episode.apart h)
  rw [run_cons, List.countP_cons, Nat.add_comm]
  cases asks : e.asked? <;> rw [asks] at phase <;> exact phase

end Episode

/-- The key is free after the load, so the next task that asks for it calls its loader. -/
theorem Sound.invokes_of_free (h : s.Sound) (absent : s.cache.resident? key = none)
    (free : s.cache.flight? key = none) (asks : e.asked? = some key) : s.invokes e = true := by
  obtain ⟨s', first, absent'⟩ : ∃ s', s.firstLook? e = some (s', key) ∧
      s'.cache.resident? key = none := by
    cases e with
    | start name key =>
        cases asks
        have gives := h.givesUp (e := .start name key) rfl
        exact ⟨_, rfl, (gives.sameValues.resident?_eq key).trans absent⟩
    | load key outcome =>
        cases asks
        exact ⟨s, rfl, absent⟩
    | _ => cases asks
  -- A load was started, so the event opened one, and opening is calling the loader.
  have length_eq := (h.starts_of_free free first absent').1
  rw [invokes_eq]
  rcases h.opened_cases e with ⟨opens, -⟩ | ⟨-, closed⟩
  · rw [opens]
    rfl
  · omega

/-- A load that has ended without a value leaves nothing but counts. -/
theorem Sound.leftAsBefore {failures : Nat} (h' : s'.Sound) (same : s.cache.SameValues s'.cache)
    (flights_eq : s'.cache.flights = s.cache.flights)
    (counts : CountsOn s.cache s'.cache 0 asked 1 failures)
    (free : s.cache.resident? key = none ∧ s.cache.flight? key = none) :
    LeftAsBefore s s' key asked failures where
  values := same
  register := flights_eq
  counts := counts
  next e asks := by
    refine h'.invokes_of_free ((same.resident?_eq key).trans free.1) ?_ asks
    rw [Cache.flight?, flights_eq]
    exact free.2

/-- A load that fails, or that is given up by all who waited for it, leaves the cache as it was
before, apart from the counts of misses, loads and failures. Any number of tasks may have joined,
and they may have been looked at and given up in any order. -/
theorem ended_load_leaves_as_before (config : CacheConfig) (weigh : K → V → UInt64)
    (past : List (Event K V E)) {key : K} {e : Event K V E} {later : List (Event K V E)}
    (episode : Episode (after config weigh past) key e later) :
    let s := after config weigh past
    let s' := after config weigh (past ++ e :: later)
    let asked := (e :: later).countP fun d => d.asked?.isSome
    let finished := Finished config weigh (past ++ e :: later) s.loads.length
    ((∃ error, finished (.error error)) → LeftAsBefore s s' key asked 1) ∧
    ((∀ outcome, ¬finished outcome) → (∀ t ∈ s'.waiters, t.load ≠ s.loads.length) →
      LeftAsBefore s s' key asked 0) := by
  intro s s' asked finished
  have h : s.Sound := sound_after config weigh past
  have h' : s'.Sound := sound_after config weigh (past ++ e :: later)
  have phase : Phase s s' key asked := by
    have run_eq : s' = s.run (e :: later) := run_append _ past (e :: later)
    rw [run_eq]
    exact episode.phase h
  constructor
  · rintro ⟨error, failed⟩
    have settled : settled? s'.loads s.loads.length = some (.error error) := finished_iff.mp failed
    -- The load has failed, so of the three phases only the second is possible.
    cases phase with
    | unseen _ unsettled => cases settled.symm.trans unsettled
    | failed _ _ flights_eq same counts =>
        exact h'.leftAsBefore same flights_eq counts (episode.free h)
    | stored _ stored => cases settled.symm.trans stored
  · intro unfinished nobody
    have unsettled : settled? s'.loads s.loads.length = none := unfinished_iff.mp unfinished
    -- Nobody was shown an outcome, so the load is unseen, and the register tells that nobody
    -- waits.
    cases phase with
    | unseen waiting _ flights_eq same counts =>
        refine h'.leftAsBefore same ?_ counts (episode.free h)
        cases waiting with
        | none => exact flights_eq
        | some waiters =>
            -- As long as the load is registered somebody waits for it.
            have mem : ⟨key, s.loads.length, waiters⟩ ∈ s'.cache.flights :=
              flights_eq ▸ List.mem_cons_self
            obtain ⟨-, some_wait, count_eq⟩ := h'.accounted.counted _ mem
            obtain ⟨t, waiting, load_eq⟩ := waitersOf_pos_iff.mp (count_eq ▸ some_wait)
            exact absurd load_eq (nobody t waiting)
    | failed _ settled => cases unsettled.symm.trans settled
    | stored _ settled => cases unsettled.symm.trans settled

/-- Two tasks wait for a load that fails. One of them sees the failure, and the other is given up.
A value of another key, and a load under way, stay as they are. -/
theorem ended_load_leaves_as_before_joined :
    let past : List (Event Nat UInt64 Unit) := [.insert 2 60, .start "c" 3]
    let later : List (Event Nat UInt64 Unit) :=
      [.start "b" 1, .resolve "a" (.error ()), .poll "b", .drop "a"]
    let s := after ⟨100, 90⟩ (fun _ weight => weight) past
    Episode s 1 (.start "a" 1) later ∧
      LeftAsBefore s (after ⟨100, 90⟩ (fun _ weight => weight) (past ++ .start "a" 1 :: later)) 1 2
        1 := by
  intro past later
  have episode :
      Episode (after ⟨100, 90⟩ (fun _ weight => weight) past) 1 (.start "a" 1) later := by
    refine ⟨⟨_, _, rfl, rfl, rfl⟩, ⟨rfl, nofun⟩, ?_⟩
    intro d mem
    simp only [later, trace, List.mem_cons, List.not_mem_nil, or_false] at mem
    rcases mem with rfl | rfl | rfl | rfl
    · refine ⟨⟨rfl, nofun⟩, ?_⟩
      rintro ⟨_, _, first, -, free⟩
      cases first
      exact absurd free (by decide +kernel)
    all_goals
      refine ⟨?_, fun ⟨_, _, first, _⟩ => by cases first⟩
      unfold Concerns
      decide +kernel
  refine ⟨episode, (ended_load_leaves_as_before _ _ past episode).1 ⟨(), ?_⟩⟩
  exact finished_iff.mpr rfl

end Session

end TileArchive
