import TileArchive.Proofs.Cache.Dropping
import TileArchive.Proofs.Cache.Undisturbed

/-!
# `TileArchive.Proofs.Cache.Accounting`: every look-up and every load is counted once

A history tells which look-ups found their key, which loads were started and what became of each,
and which values were dropped. `lookups_and_loads_counted` says that the counters of the cache
count exactly this, after every history in which they are not reset. `CountsAll` lists the parts.

For loads this is a law of conservation. A load leaves the register when it settles or when its
last waiter is given up, and an event cannot do more than one of this to it. So the loads that
are registered, that failed, that were stored and that were abandoned are together those that
were started, each of them once. `Sound.loads_step` is the step of this for one event, proved
part by part.

## How the law is stated and proved

`CountsAll.fates` is a permutation: the four lists of loads together are a reordering of
`0, 1, …, n - 1`, where `n` is the number of loads started. No load is missing and none is there
twice, in one list or in two.

The proof counts. For a given number the equation of `Sound.loads_step` relates how often it is
registered before and after an event to how often the event opens, fails, stores or abandons it.
Summed over a history this gives the counts of the whole lists (`fates_history`), and lists with
equal counts are permutations of each other. No invariant of the lists is needed beside the one
that no key is registered twice, and that is carried along part by part.

The counters go the same way with four numbers at once (`CountsOn`), each the sum of what single
events add.

## What is counted how

Numbers of look-ups and loads are natural numbers. The weight of what was dropped is a word, so
`CountsAll.evictedWeight` is an equation modulo `2 ^ 64`. `unreset` keeps the counters from being
set to zero in between; a history after the last reset could be counted in the same way.
-/

set_option autoImplicit false

namespace TileArchive

variable {K V E : Type}

namespace Session

variable [DecidableEq K]

/-- An event looks up a key that is there. It is counted as a hit. -/
def finds (s : Session K V E) (e : Event K V E) : Bool := e.sought?.any s.cache.contains

/-- A task asks in an event, and its loader is called. This is seen from outside, in what
the task is shown. -/
def invokes (s : Session K V E) (e : Event K V E) : Bool :=
  e.asked?.isSome && (s.report? e).any Report.loaded

/-- The number of the load that an event starts. -/
def opened? (s : Session K V E) (e : Event K V E) : Option Nat := (s.starts? e).map Task.load

/-- The number of the load that settles with a failure in an event. -/
def failed? (s : Session K V E) (e : Event K V E) : Option Nat :=
  (s.settles? e).bind fun
    | (t, .error _) => some t.load
    | (_, .ok _) => none

/-- The number of the load that settles with a value in an event. -/
def stored? (s : Session K V E) (e : Event K V E) : Option Nat :=
  (s.settles? e).bind fun
    | (t, .ok _) => some t.load
    | (_, .error _) => none

/-- The number of the load whose last waiter is given up in an event, before its outcome was
seen. -/
def abandoned? (s : Session K V E) (e : Event K V E) : Option Nat :=
  (s.abandons? e).map Task.load

variable {s s' : Session K V E} {e : Event K V E} {t : Task K} {c c' : Cache K V}

/-! ### Counts -/

/-- Two caches differ in the counts of look-ups, loads and failures by what is given.
Evictions are counted with the values that are dropped. -/
structure CountsOn (c c' : Cache K V) (hits misses loads failures : Nat) : Prop where
  hits_eq : c'.counters.hits = c.counters.hits + hits
  misses_eq : c'.counters.misses = c.counters.misses + misses
  loads_eq : c'.counters.loads = c.counters.loads + loads
  failures_eq : c'.counters.failures = c.counters.failures + failures

omit [DecidableEq K] in
/-- What leaves the counters alone adds nothing. -/
theorem CountsOn.of_counters_eq (same : c'.counters = c.counters) : CountsOn c c' 0 0 0 0 := by
  constructor <;> rw [same] <;> rfl

omit [DecidableEq K] in
/-- Parts of an event add up. -/
theorem CountsOn.trans {c'' : Cache K V} {hits misses loads failures hits' misses' loads'
    failures' : Nat} (h : CountsOn c c' hits misses loads failures)
    (h' : CountsOn c' c'' hits' misses' loads' failures') :
    CountsOn c c'' (hits + hits') (misses + misses') (loads + loads') (failures + failures') where
  hits_eq := by rw [h'.hits_eq, h.hits_eq, Nat.add_assoc]
  misses_eq := by rw [h'.misses_eq, h.misses_eq, Nat.add_assoc]
  loads_eq := by rw [h'.loads_eq, h.loads_eq, Nat.add_assoc]
  failures_eq := by rw [h'.failures_eq, h.failures_eq, Nat.add_assoc]

omit [DecidableEq K] in
/-- A look-up adds a hit or a miss. -/
theorem countsOn_countLookup (c : Cache K V) (hit : Bool) :
    CountsOn c (c.countLookup hit) hit.toNat (!hit).toNat 0 0 := by
  cases hit <;> exact ⟨rfl, rfl, rfl, rfl⟩

/-- A plain look-up adds a hit where the key is held and a miss where it is not. -/
theorem countsOn_get (c : Cache K V) (key : K) :
    CountsOn c (c.get key).1 (c.contains key).toNat (!c.contains key).toNat 0 0 := by
  have used : (c.touch key).2.isSome = c.contains key := by
    unfold Cache.touch Cache.contains
    split <;> next held => rw [held]; rfl
  have counts := (CountsOn.of_counters_eq (c.counters_touch key)).trans
    (countsOn_countLookup (c.touch key).1 (c.touch key).2.isSome)
  rw [used] at counts
  simp only [Nat.zero_add] at counts
  rw [← used] at counts ⊢
  exact counts

/-- Dropping values counts nothing else. -/
theorem countsOn_evictInOrder (rs : List (Resident K V)) (c : Cache K V) :
    CountsOn c (c.evictInOrder rs) 0 0 0 0 := by
  induction rs generalizing c with
  | nil => exact .of_counters_eq rfl
  | cons r rs ih =>
      rw [Cache.evictInOrder]
      split
      · exact .of_counters_eq rfl
      · exact ⟨(ih (c.evict r)).hits_eq, (ih (c.evict r)).misses_eq, (ih (c.evict r)).loads_eq,
          (ih (c.evict r)).failures_eq⟩

/-- An insertion adds to none of the four counts; what it drops is counted apart. -/
theorem countsOn_insert (c : Cache K V) (key : K) (value : V) :
    CountsOn c (c.insert key value) 0 0 0 0 := by
  unfold Cache.insert Cache.shrink
  simp only
  split
  · exact .of_counters_eq rfl
  · split
    · exact .of_counters_eq rfl
    · have dropped := countsOn_evictInOrder
        (c.put key value (c.weigh key value)).byLastUse (c.put key value (c.weigh key value))
      exact ⟨dropped.hits_eq, dropped.misses_eq, dropped.loads_eq, dropped.failures_eq⟩

/-- Giving a task up is not counted. -/
theorem GivesUp.countsOn (gives : s.GivesUp e c) : CountsOn s.cache c 0 0 0 0 := by
  cases gives <;> exact .of_counters_eq rfl

/-- A look-up is a hit if the key is there, and otherwise a miss, which may start a load. A
miss that joins a load is counted as a miss all the same, and only one that starts a load is
counted as a load, too. -/
theorem AsksFor.countsOn (asks : s.AsksFor e c c') :
    CountsOn c c' (e.asked?.any c.contains).toNat (e.asked?.any fun key => !c.contains key).toNat
      (s.opened? e).toList.length 0 := by
  cases asks with
  | nobody silent closed =>
      rw [silent, opened?, closed]
      exact .of_counters_eq rfl
  -- Using a value gives it a new stamp, which is no counter.
  | hit asks held _ closed =>
      rw [asks, opened?, closed, Option.any_some, Option.any_some, Cache.contains_of_some held]
      exact (CountsOn.of_counters_eq (c.counters_touch _)).trans (countsOn_countLookup _ true)
  | joins asks absent _ _ _ _ closed =>
      rw [asks, opened?, closed, Option.any_some, Option.any_some, Cache.contains_of_none absent]
      exact ⟨rfl, rfl, rfl, rfl⟩
  | starts asks absent _ _ _ _ starts =>
      rw [asks, opened?, starts, Option.any_some, Option.any_some, Cache.contains_of_none absent]
      exact ⟨rfl, rfl, rfl, rfl⟩

/-- A look adds a failure where a load settles with one, however many wait for it. The
others are late when they look, and a late look counts nothing. -/
theorem Looks.countsOn (looks : s.Looks e c c') :
    CountsOn c c' 0 0 0 (s.failed? e).toList.length := by
  cases looks with
  | unnoticed quiet =>
      rw [failed?, quiet]
      exact .of_counters_eq rfl
  | leaves _ quiet =>
      rw [failed?, quiet]
      exact .of_counters_eq rfl
  | @settles _ t outcome _ _ settles =>
      rw [failed?, settles]
      cases outcome with
      -- The insertion may drop values and count these, which is no matter of the four
      -- counters here.
      | ok value =>
          have inserted := countsOn_insert c t.key value
          exact ⟨inserted.hits_eq, inserted.misses_eq, inserted.loads_eq, inserted.failures_eq⟩
      | error failure => exact ⟨rfl, rfl, rfl, rfl⟩

/-- What an event adds to the counts of look-ups, loads and failures. The counts are read
off the event and the session that it finds, and setting the counters to nothing is left
out. -/
theorem Sound.counts_step (h : s.Sound) (counted : e ≠ .resetCounters) :
    CountsOn s.cache (s.step e).cache (s.finds e).toNat
      (e.sought?.any fun key => !s.cache.contains key).toNat
      (s.opened? e).toList.length (s.failed? e).toList.length := by
  have of_task (about : e.isTask = true) : CountsOn s.cache (s.step e).cache (s.finds e).toNat
      (e.sought?.any fun key => !s.cache.contains key).toNat
      (s.opened? e).toList.length (s.failed? e).toList.length := by
    obtain ⟨c, c', gives, asks, looks⟩ := h.acts about
    have counts := gives.countsOn.trans (asks.countsOn.trans looks.countsOn)
    have same : c.contains = s.cache.contains := funext gives.sameValues.contains_eq
    simp only [same, Nat.zero_add, Nat.add_zero] at counts
    rw [finds, sought?_of_isTask about]
    exact counts
  -- Operations on values count by themselves; all other events are made of the three parts.
  cases e with
  | insert key value => exact countsOn_insert s.cache key value
  | get key => exact countsOn_get s.cache key
  | invalidate key => exact .of_counters_eq (s.cache.counters_invalidate key)
  | clear => exact .of_counters_eq rfl
  | resetCounters => exact absurd rfl counted
  | _ => exact of_task rfl

/-! ### Loads -/

omit [DecidableEq K] in
/-- The loads that are registered in a cache, by number. Each of them has somebody who waits
for it and has not been shown an outcome. -/
def registered (c : Cache K V) : List Nat := c.flights.map Flight.load

/-- A change to the number of waiters leaves the same loads registered. -/
theorem registered_setWaiters (c : Cache K V) (key : K) (waiters : Nat) :
    registered (c.setWaiters key waiters) = registered c := by
  rw [registered, Cache.setWaiters, List.map_map]
  refine List.map_congr_left fun f _ => ?_
  simp only [Function.comp_apply]
  split <;> rfl

/-- The load of a key leaves the register. -/
theorem count_registered_dropFlight (keyed : Keyed Flight.key c.flights) {key : K} {f : Flight K}
    (found : c.flight? key = some f) (load : Nat) :
    (registered c).count load
      = (registered (c.dropFlight key)).count load + [f.load].count load := by
  obtain ⟨mem, rfl⟩ := keyed.find?_eq_some_iff.mp found
  have perm := (keyed.perm_cons_filter mem).map Flight.load
  rw [registered, perm.count_eq, List.map_cons, List.count_cons, List.count_singleton]
  rfl

/-- Taking a load off registers no key twice. -/
theorem keyed_dropFlight (keyed : Keyed Flight.key c.flights) (key : K) :
    Keyed Flight.key (c.dropFlight key).flights :=
  keyed.filter _

/-- Giving a task up takes the load off that is abandoned with it, and no other. The
register as a multiset of load numbers is what counts; numbers of waiters do not show in it. -/
theorem GivesUp.loads (gives : s.GivesUp e c) (keyed : Keyed Flight.key s.cache.flights) :
    Keyed Flight.key c.flights ∧ ∀ load, (registered s.cache).count load
      = (registered c).count load + (s.abandoned? e).toList.count load := by
  cases gives with
  | unnoticed kept =>
      rw [abandoned?, kept]
      exact ⟨keyed, fun _ => rfl⟩
  | fewer _ kept =>
      rw [abandoned?, kept]
      refine ⟨Cache.keyed_setWaiters keyed _ _, fun load => ?_⟩
      rw [registered_setWaiters]
      rfl
  -- Only where the last waiter goes an entry is taken off.
  | last _ abandons found load_eq =>
      rw [abandoned?, abandons]
      refine ⟨keyed_dropFlight keyed _, fun load => ?_⟩
      rw [count_registered_dropFlight keyed found, load_eq]
      rfl

/-- Asking for a key registers the load that is opened, and no other. That it keeps the
register without repetition is needed by the part that comes next. -/
theorem AsksFor.loads (asks : s.AsksFor e c c') (keyed : Keyed Flight.key c.flights) :
    Keyed Flight.key c'.flights ∧ ∀ load, (registered c').count load
      = (registered c).count load + (s.opened? e).toList.count load := by
  cases asks with
  | nobody _ closed =>
      rw [opened?, closed]
      exact ⟨keyed, fun _ => rfl⟩
  | hit _ _ _ closed =>
      rw [opened?, closed, registered, Cache.flights_countLookup, Cache.flights_touch]
      exact ⟨keyed, fun _ => rfl⟩
  | joins _ _ _ _ _ _ closed =>
      rw [opened?, closed, registered_setWaiters]
      exact ⟨Cache.keyed_setWaiters keyed _ _, fun _ => rfl⟩
  | @starts key _ t _ _ free _ _ load_eq starts =>
      rw [opened?, starts]
      -- The new entry is under a key that no other has, because none was found under it.
      have unregistered : ∀ f ∈ c.flights, f.key ≠ key := by
        intro f mem
        simpa using List.find?_eq_none.mp free f mem
      refine ⟨Keyed.cons_iff.mpr ⟨unregistered, keyed⟩, fun load => ?_⟩
      simp [registered, Cache.startFlight, List.count_cons, load_eq]

/-- A look takes the load off that it settles. This has failed or is stored. Stated with
counts of numbers, this is what a permutation of all loads is put together from. -/
theorem Looks.loads (looks : s.Looks e c c') (keyed : Keyed Flight.key c.flights) (load : Nat) :
    (registered c).count load = (registered c').count load + (s.failed? e).toList.count load
      + (s.stored? e).toList.count load := by
  cases looks with
  | unnoticed quiet =>
      rw [failed?, stored?, quiet]
      rfl
  | leaves _ quiet =>
      rw [failed?, stored?, quiet, registered_setWaiters]
      rfl
  -- An outcome is a value or a failure, so the load is in exactly one of the two lists.
  | @settles _ _ outcome _ _ settles found load_eq =>
      rw [failed?, stored?, settles, count_registered_dropFlight keyed found, load_eq, registered,
        registered, c.flights_processed]
      cases outcome <;> rfl

/-- Every load that is registered or started in an event is registered after it, or it leaves the
register on exactly one of three ways. -/
theorem Sound.loads_step (h : s.Sound) (e : Event K V E) (load : Nat) :
    (registered s.cache).count load + (s.opened? e).toList.count load
      = (registered (s.step e).cache).count load + (s.failed? e).toList.count load
        + (s.stored? e).toList.count load + (s.abandoned? e).toList.count load := by
  have of_task (about : e.isTask = true) : (registered s.cache).count load
      + (s.opened? e).toList.count load
      = (registered (s.step e).cache).count load + (s.failed? e).toList.count load
        + (s.stored? e).toList.count load + (s.abandoned? e).toList.count load := by
    obtain ⟨c, c', gives, asks, looks⟩ := h.acts about
    obtain ⟨keyed, given⟩ := gives.loads h.accounted.keyed
    obtain ⟨keyed', asked⟩ := asks.loads keyed
    have looked := looks.loads keyed' load
    rw [given load]
    rw [asked load] at looked
    omega
  -- The operations on values leave the register alone.
  have same {c : Cache K V} (flights_eq : c.flights = s.cache.flights) :
      (registered s.cache).count load = (registered c).count load := by
    rw [registered, registered, flights_eq]
  cases e with
  | insert key value => exact same (s.cache.flights_insert key value)
  | get key => exact same (s.cache.flights_get key)
  | invalidate key => exact same (s.cache.flights_invalidate key)
  | clear | resetCounters => exact same rfl
  | _ => exact of_task rfl

/-- The load that an event opens has the next number, and the list of loads grows by it. So
numbers are given out in order, without gaps. -/
theorem Sound.opened_cases (h : s.Sound) (e : Event K V E) :
    (s.opened? e = some s.loads.length ∧ (s.step e).loads.length = s.loads.length + 1) ∨
      (s.opened? e = none ∧ (s.step e).loads.length = s.loads.length) := by
  rcases s.length_step e with ⟨opens, length_eq⟩ | ⟨closed, length_eq⟩
  · -- The number that the cache gives out is the length of the list of loads, by the
    -- account.
    obtain ⟨s', key, first, absent, free⟩ := opens
    obtain ⟨decided, look_eq, loads_eq, -⟩ := firstLook_asks first
    rcases s'.ask_cases key decided with ⟨r, held, -⟩ | ⟨-, f, found, -⟩ | ⟨-, -, ask_eq⟩
    · cases absent.symm.trans held
    · cases free.symm.trans found
    · rw [ask_eq] at look_eq
      refine .inl ⟨?_, length_eq⟩
      rw [opened?, starts?_of_firstLook first look_eq, ← loads_eq,
        ← (h.firstLook first).accounted.numbered]
      rfl
  · refine .inr ⟨?_, length_eq⟩
    cases first : s.firstLook? e with
    | none => rw [opened?, starts?_of_no_firstLook first, Option.map_none]
    | some pair =>
        obtain ⟨s', key⟩ := pair
        cases looks : s.look? e with
        | none => rw [opened?, starts?_of_no_look looks, Option.map_none]
        | some pair =>
            obtain ⟨s'', t⟩ := pair
            -- A first look that opens no load has joined one that another task owns.
            obtain ⟨-, ⟨opens, -⟩ | ⟨owner, -⟩⟩ := h.load_of_firstLook first looks
            · exact absurd opens closed
            · rw [opened?, starts?_of_firstLook first looks, owner]
              rfl

/-- A loader is called where a load is started. -/
theorem invokes_eq (s : Session K V E) (e : Event K V E) :
    s.invokes e = (s.opened? e).isSome := by
  have of_first {s' : Session K V E} {key : K} (first : s.firstLook? e = some (s', key))
      (quiet : s.look? e = none → (s.report? e).any Report.loaded = false) :
      (s.report? e).any Report.loaded = (s.opened? e).isSome := by
    cases looks : s.look? e with
    | none =>
        rw [quiet looks, opened?, starts?_of_no_look looks]
        rfl
    | some pair =>
        obtain ⟨s'', t⟩ := pair
        rw [opened?, starts?_of_firstLook first looks]
        -- Whether an outcome is shown or not, the report says who owns the load.
        rcases look_cases looks with ⟨_, -, report_eq, -⟩ | ⟨-, report_eq, -⟩ <;>
          rw [report_eq, Option.any_some] <;> cases t.owner <;> rfl
  cases e with
  | start name key =>
      refine of_first rfl fun nobody => ?_
      obtain ⟨s', value, -, start_eq⟩ := start_of_no_look nobody
      rw [report?, start_eq]
      rfl
  | load key outcome =>
      refine of_first rfl fun nobody => ?_
      obtain ⟨s', value, -, load_eq⟩ := load_of_no_look nobody
      rw [report?, load_eq]
      rfl
  | _ => rfl

/-! ### Histories -/

/-- The counters of a cache count all that happened in a history. `past` are the events of
the history, and `done` has each of them with the session that it found. What the counters
are compared with is read off these alone. -/
structure CountsAll (c : Cache K V) (past : List (Event K V E))
    (done : List (Session K V E × Event K V E)) : Prop where
  /-- Every look-up is a hit or a miss, and the first look of a task is a look-up. -/
  lookups : c.counters.hits + c.counters.misses = past.countP fun e => e.sought?.isSome
  /-- The hits are the look-ups that find their key. -/
  hits : c.counters.hits = done.countP fun d => d.1.finds d.2
  /-- The loads are the calls of a loader. -/
  loads : c.counters.loads = done.countP fun d => d.1.invokes d.2
  /-- They are numbered in their order. -/
  numbered : (done.filterMap fun d => d.1.opened? d.2) = List.range c.counters.loads
  /-- Each of them is registered, or it failed, or it was stored, or it was abandoned, and only
  one of this and only once. -/
  fates : (registered c ++ (done.filterMap fun d => d.1.failed? d.2)
    ++ (done.filterMap fun d => d.1.stored? d.2)
    ++ (done.filterMap fun d => d.1.abandoned? d.2)).Perm (List.range c.counters.loads)
  inFlight : c.inFlight = (registered c).length
  failures : c.counters.failures = (done.filterMap fun d => d.1.failed? d.2).length
  /-- The value of a load that is stored is put in. -/
  put_in : ∀ s e t value, (s, e) ∈ done → s.settles? e = some (t, .ok value) →
    ∃ s', s.look? e = some (s', t) ∧
      (s.step e).cache = (s'.cache.insert t.key value).dropFlight t.key
  /-- In any other look no value is put in. -/
  not_put_in : ∀ s e s' t, (s, e) ∈ done → s.look? e = some (s', t) → s.stored? e = none →
    s'.cache.SameValues (s.step e).cache
  /-- An event in which no load settles does to the values what its own operation does, and
  nothing if it is about a task. -/
  undisturbed : ∀ s e, (s, e) ∈ done → s.settles? e = none →
    (e.operate s.cache).Undisturbed (s.step e).cache
  evictions : c.counters.evictions = (done.flatMap fun d => d.1.evicted d.2).length
  evictedWeight :
    c.counters.evictedWeight = UInt64.ofNat (totalWeight (done.flatMap fun d => d.1.evicted d.2))

variable {config : CacheConfig} {weigh : K → V → UInt64} {past : List (Event K V E)}

/-- The four counts after a history are what its events add up to, starting from a cache in
which nothing has happened. The induction is on the history, with `Sound.counts_step` for
its last event. -/
theorem countsOn_after (unreset : .resetCounters ∉ past) :
    CountsOn (.empty config weigh) (after config weigh past).cache
      ((history config weigh past).countP fun d => d.1.finds d.2)
      ((history config weigh past).countP fun d =>
        d.2.sought?.any fun key => !d.1.cache.contains key)
      ((history config weigh past).filterMap fun d => d.1.opened? d.2).length
      ((history config weigh past).filterMap fun d => d.1.failed? d.2).length := by
  induction past using List.reverseRecOn with
  | nil => exact .of_counters_eq rfl
  | append_singleton past e ih =>
      obtain ⟨before, last⟩ := not_or.mp (mt List.mem_append.mpr unreset)
      have counts := (ih before).trans ((sound_after config weigh past).counts_step
        fun reset => last (List.mem_singleton.mpr reset.symm))
      rw [after_concat]
      simp only [countP_history_concat, filterMap_history_concat, List.length_append]
      exact counts

/-- A history counts its look-ups: each is a hit or a miss, and which of the two is decided
by what the cache holds at this moment. -/
theorem lookups_history (config : CacheConfig) (weigh : K → V → UInt64)
    (past : List (Event K V E)) :
    ((history config weigh past).countP fun d => d.1.finds d.2)
      + ((history config weigh past).countP fun d =>
        d.2.sought?.any fun key => !d.1.cache.contains key)
      = past.countP fun e => e.sought?.isSome := by
  induction past using List.reverseRecOn with
  | nil => rfl
  | append_singleton past e ih =>
      -- Each event adds the same to both sides: one if it looks for a key, and none
      -- otherwise.
      have one_of_two : (Session.finds (after config weigh past) e).toNat
          + (e.sought?.any fun key => !(after config weigh past).cache.contains key).toNat
          = if e.sought?.isSome then 1 else 0 := by
        rw [finds]
        cases e.sought? with
        | none => rfl
        | some key =>
            rw [Option.any_some, Option.any_some]
            cases (after config weigh past).cache.contains key <;> rfl
      rw [List.countP_append, List.countP_singleton, ← ih, ← one_of_two]
      simp only [countP_history_concat]
      omega

/-- The loads that a history opens are all loads there are, in the order of their numbers.
So the number of a load is also how many were opened before it. -/
theorem opened_history (config : CacheConfig) (weigh : K → V → UInt64)
    (past : List (Event K V E)) :
    ((history config weigh past).filterMap fun d => d.1.opened? d.2)
      = List.range (after config weigh past).loads.length := by
  induction past using List.reverseRecOn with
  | nil => rfl
  | append_singleton past e ih =>
      rw [filterMap_history_concat, ih, after_concat]
      -- The range grows by its end, with the number that the event opens.
      rcases (sound_after config weigh past).opened_cases e with ⟨opens, length_eq⟩
        | ⟨closed, length_eq⟩
      · rw [length_eq, List.range_succ]
        exact congrArg _ (congrArg Option.toList opens)
      · rw [length_eq]
        exact (congrArg _ (congrArg Option.toList closed)).trans (List.append_nil _)

/-- What became of the loads that a history has started. -/
theorem fates_history (config : CacheConfig) (weigh : K → V → UInt64)
    (past : List (Event K V E)) (load : Nat) :
    ((history config weigh past).filterMap fun d => d.1.opened? d.2).count load
      = (registered (after config weigh past).cache).count load
        + ((history config weigh past).filterMap fun d => d.1.failed? d.2).count load
        + ((history config weigh past).filterMap fun d => d.1.stored? d.2).count load
        + ((history config weigh past).filterMap fun d => d.1.abandoned? d.2).count load := by
  induction past using List.reverseRecOn with
  | nil => rfl
  | append_singleton past e ih =>
      have step := (sound_after config weigh past).loads_step e load
      rw [after_concat]
      simp only [filterMap_history_concat, List.count_append]
      omega

/-- The values that a history drops are counted, and their weights add up as words do: the
counter of weights may wrap, and is then the sum of the weights up to a multiple of the
words. -/
theorem evictions_history (unreset : .resetCounters ∉ past) :
    let dropped := (history config weigh past).flatMap fun d => d.1.evicted d.2
    (after config weigh past).cache.counters.evictions = dropped.length ∧
      (after config weigh past).cache.counters.evictedWeight
        = UInt64.ofNat (totalWeight dropped) := by
  induction past using List.reverseRecOn with
  | nil => exact ⟨rfl, rfl⟩
  | append_singleton past e ih =>
      -- The counters were not reset before, nor are they by the last event.
      obtain ⟨before, last⟩ := not_or.mp (mt List.mem_append.mpr unreset)
      obtain ⟨evictions_eq, weight_eq⟩ := ih before
      obtain ⟨evictions_step, weight_step⟩ := (sound_after config weigh past).evictions_step
        (ceiling_after config weigh past) fun reset => last (List.mem_singleton.mpr reset.symm)
      simp only [after_concat, flatMap_history_concat, evictions_step, weight_step, evictions_eq,
        weight_eq, List.length_append, totalWeight_append, UInt64.ofNat_add, and_self]

/-- The counters of a cache count every look-up and every load once, and every value that is
dropped, after every history in which they are not reset. -/
theorem lookups_and_loads_counted (config : CacheConfig) (weigh : K → V → UInt64)
    (past : List (Event K V E)) (unreset : .resetCounters ∉ past) :
    CountsAll (after config weigh past).cache past (history config weigh past) := by
  have counts : CountsOn (.empty config weigh) (after config weigh past).cache _ _ _ _ :=
    countsOn_after unreset
  have opened_eq := opened_history config weigh past
  have loads_eq : (after config weigh past).cache.counters.loads
      = (after config weigh past).loads.length := by
    rw [counts.loads_eq, opened_eq, List.length_range]
    exact Nat.zero_add _
  refine
    { lookups := ?lookups
      hits := ?hits
      loads := ?loads
      numbered := loads_eq ▸ opened_eq
      fates := ?fates
      inFlight := (List.length_map _).symm
      failures := ?failures
      put_in := ?put_in
      not_put_in := ?not_put_in
      undisturbed := fun _ _ mem quiet => (sound_of_mem_history mem).undisturbed_of_quiet quiet
      evictions := (evictions_history unreset).1
      evictedWeight := (evictions_history unreset).2 }
  case lookups =>
    rw [counts.hits_eq, counts.misses_eq, ← lookups_history config weigh past]
    exact congrArg₂ _ (Nat.zero_add _) (Nat.zero_add _)
  case hits => exact counts.hits_eq.trans (Nat.zero_add _)
  case loads =>
    simp only [counts.loads_eq, invokes_eq, List.length_filterMap_eq_countP]
    exact Nat.zero_add _
  case fates =>
    -- Two lists are permutations of each other if every number occurs in them equally often.
    rw [loads_eq, ← opened_eq, List.perm_iff_count]
    intro load
    rw [fates_history, List.count_append, List.count_append, List.count_append]
  case failures => exact counts.failures_eq.trans (Nat.zero_add _)
  -- A load that is stored is one whose first waiter was shown a value.
  case put_in =>
    intro s e t value mem settles
    have h := sound_of_mem_history mem
    obtain ⟨s', looks, unsettled, finds⟩ := settles?_eq_some_iff.mp settles
    refine ⟨s', looks, ?_⟩
    rcases look_cases looks with ⟨_, finds', -, cache_eq, -⟩ | ⟨finds', -⟩ <;>
      cases finds.symm.trans finds'
    rw [cache_eq, h.finish_of_unseen looks unsettled]
    rfl
  case not_put_in =>
    intro s e s' t mem looks unstored
    rcases ((sound_of_mem_history mem).looks looks).values_cases with ⟨t', value, settles, -⟩
      | ⟨-, same⟩
    · rw [stored?, settles] at unstored
      cases unstored
    · exact same

/-- Two tasks see one failure, and a load is abandoned by its only waiter. The value of another
load is put in, and dropped when a second value lifts the weight above the ceiling. -/
theorem lookups_and_loads_counted_mixed :
    let past : List (Event Nat UInt64 Unit) :=
      [.start "a" 1, .start "b" 1, .resolve "a" (.error ()), .poll "b", .poll "a", .start "c" 2,
        .drop "c", .load 3 (.ok 60), .get 3, .insert 4 50, .start "d" 3]
    .resetCounters ∉ past ∧
      CountsAll (after ⟨100, 90⟩ (fun _ weight => weight) past).cache past
        (history ⟨100, 90⟩ (fun _ weight => weight) past) := by
  intro past
  have unreset : .resetCounters ∉ past := by simp [past]
  exact ⟨unreset, lookups_and_loads_counted _ _ past unreset⟩

end Session

end TileArchive
