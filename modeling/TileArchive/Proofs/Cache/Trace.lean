import TileArchive.Proofs.Cache.Abandonment
import TileArchive.Proofs.Cache.Writes

/-!
# `TileArchive.Proofs.Cache.Trace`: what the events of a history do

`Session.trace` pairs the events of a history with the sessions in which they happen. What an
event does is told by what can be seen of the session: which task it gives up for good
(`abandons?`), which task it has start a load (`starts?`), which outcome it shows for the first
time (`settles?`), and which value it gives to which key (`written?`).

`Sound.acts` says what this comes to for the cache. An event about a task has up to three parts:
a task withdraws (`GivesUp`), a task asks for a key (`AsksFor`), and a waiter looks (`Looks`).
Each part lists all that can happen in it. What a history does to the cache is proved part by
part from these lists.

## Seen from outside and done to the cache

The functions with a question mark do not look at the register of the cache. They speak of tasks,
of the outcomes that tasks were shown, and of the values that are held, which is what someone can
tell who watches a session. The constructors of the three inductive types speak of the cache: a
count changes, an entry goes, a value is put in. Each constructor has both sides as fields, and
the theorems `Sound.givesUp`, `asksFor` and `Sound.looks` say that they go together. This is
where the account of waiters is used for the last time. Statements about counters, weights and
the fate of loads are by cases on the three types from here on.

## Traces

A statement about a history collects something over its trace: a count, a list of loads, a list
of keys. All of these grow at the end with the history (`filterMap_history_concat` and the two
after it), so a proof goes by induction from the end, and its step is about the last event and
the session that all others have led to.
-/

set_option autoImplicit false

namespace TileArchive

variable {K V E : Type}

namespace Event

/-- The key that is looked up, by a plain look-up or by the first look of a task. -/
def sought? : Event K V E → Option K
  | .get key => some key
  | e => e.asked?

/-- The name of the task that an event gives up. -/
def givenUp? : Event K V E → Option String
  | .start name _ => some name
  | .drop name => some name
  | _ => none

/-- The event is about a task or a load, and not an operation on the values of the cache.
Such events have three parts, which `Sound.acts` names. -/
def isTask : Event K V E → Bool
  | .start .. | .load .. | .poll _ | .drop _ | .resolve .. | .decideLoad .. => true
  | _ => false

end Event

namespace Session

variable [DecidableEq K]

/-! ### Traces -/

/-- The events of a history, each with the session in which it happens. What an event does
depends on that session, so sums and lists over a history are taken over this. -/
def trace (s : Session K V E) : List (Event K V E) → List (Session K V E × Event K V E)
  | [] => []
  | e :: events => (s, e) :: (s.step e).trace events

/-- The trace of two histories in a row is the one after the other, where the second begins
with the session that the first has led to. -/
theorem trace_append (s : Session K V E) (events events' : List (Event K V E)) :
    s.trace (events ++ events') = s.trace events ++ (s.run events).trace events' := by
  induction events generalizing s with
  | nil => rfl
  | cons e events ih => exact congrArg ((s, e) :: ·) (ih (s.step e))

/-- The trace of a history that began with an empty cache. -/
def history (config : CacheConfig) (weigh : K → V → UInt64) (past : List (Event K V E)) :
    List (Session K V E × Event K V E) :=
  (new (.empty config weigh)).trace past

/-- The trace grows by the last event and the session it meets. -/
theorem history_concat (config : CacheConfig) (weigh : K → V → UInt64)
    (past : List (Event K V E)) (e : Event K V E) :
    history config weigh (past ++ [e])
      = history config weigh past ++ [(after config weigh past, e)] := by
  rw [history, trace_append]
  rfl

section

variable {α : Type} (config : CacheConfig) (weigh : K → V → UInt64) (past : List (Event K V E))
  (e : Event K V E)

/-- What is read off a history grows by what is read off its last event. -/
theorem filterMap_history_concat (f : Session K V E × Event K V E → Option α) :
    (history config weigh (past ++ [e])).filterMap f
      = (history config weigh past).filterMap f ++ (f (after config weigh past, e)).toList := by
  rw [history_concat, List.filterMap_append]
  cases found : f (after config weigh past, e) <;> simp [found]

/-- What is counted along a history grows by one if the last event counts. -/
theorem countP_history_concat (p : Session K V E × Event K V E → Bool) :
    (history config weigh (past ++ [e])).countP p
      = (history config weigh past).countP p + (p (after config weigh past, e)).toNat := by
  rw [history_concat, List.countP_append, List.countP_singleton]
  cases p (after config weigh past, e) <;> rfl

/-- What is collected along a history grows by what the last event gives. -/
theorem flatMap_history_concat (f : Session K V E × Event K V E → List α) :
    (history config weigh (past ++ [e])).flatMap f
      = (history config weigh past).flatMap f ++ f (after config weigh past, e) := by
  rw [history_concat, List.flatMap_append, List.flatMap_singleton]

end

/-- What is in the trace of a history happened after some beginning of it. This is the way
from statements about all events of a history to statements about one event after any
history. -/
theorem mem_history_iff {config : CacheConfig} {weigh : K → V → UInt64}
    {past : List (Event K V E)} {s : Session K V E} {e : Event K V E} :
    (s, e) ∈ history config weigh past ↔
      ∃ before, before ++ [e] <+: past ∧ s = after config weigh before := by
  -- By induction on the history from its end, like everything about traces.
  induction past using List.reverseRecOn with
  | nil =>
      constructor
      · intro mem
        cases mem
      · rintro ⟨before, here, -⟩
        exact absurd (List.prefix_nil.mp here) (List.append_ne_nil_of_right_ne_nil _ nofun)
  | append_singleton past last ih =>
      rw [history_concat, List.mem_append, ih, List.mem_singleton]
      constructor
      · rintro (⟨before, here, rfl⟩ | here)
        · exact ⟨before, here.trans (List.prefix_append past [last]), rfl⟩
        · cases here
          exact ⟨past, List.prefix_rfl, rfl⟩
      · rintro ⟨before, here, rfl⟩
        rcases List.prefix_concat_iff.mp here with same | earlier
        · obtain ⟨rfl, last_eq⟩ := List.append_inj' same rfl
          cases last_eq
          exact .inr rfl
        · exact .inl ⟨before, earlier, rfl⟩

/-- The sessions of a history are sound. -/
theorem sound_of_mem_history {config : CacheConfig} {weigh : K → V → UInt64}
    {past : List (Event K V E)} {s : Session K V E} {e : Event K V E}
    (mem : (s, e) ∈ history config weigh past) : s.Sound := by
  obtain ⟨before, -, rfl⟩ := mem_history_iff.mp mem
  exact sound_after config weigh before

/-! ### What can be seen of an event -/

/-- The waiting task that an event gives up. -/
def leaving? (s : Session K V E) (e : Event K V E) : Option (Task K) :=
  e.givenUp?.bind s.task?

/-- The task that an event gives up as the last one who waits for its load, of which no outcome
was seen. -/
def abandons? (s : Session K V E) (e : Event K V E) : Option (Task K) :=
  (s.leaving? e).filter fun t =>
    (settled? s.loads t.load).isNone && waitersOf s.waiters t.load == 1

/-- The task that starts a load at its first look. -/
def starts? (s : Session K V E) (e : Event K V E) : Option (Task K) :=
  (s.firstLook? e).bind fun _ => ((s.look? e).map Prod.snd).filter Task.owner

/-- The waiter that is shown an outcome, where none was shown of its load before. A load
settles at most once in a history. -/
def settles? (s : Session K V E) (e : Event K V E) : Option (Task K × Except E V) :=
  (s.look? e).bind fun (s', t) =>
    if (settled? s.loads t.load).isNone then (s'.outcome? t.load).map (t, ·) else none

/-- The key that is given a value in an event, and the value. It is an insertion, or a load
that settles with a value. -/
def written? (s : Session K V E) : Event K V E → Option (K × V)
  | .insert key value => some (key, value)
  | e => (s.settles? e).bind fun (t, outcome) => outcome.toOption.map (t.key, ·)

variable {s s' : Session K V E} {e : Event K V E} {t : Task K} {key : K} {value : V}

/-- Nothing is settled where nobody looks. -/
theorem settles?_of_no_look (nobody : s.look? e = none) : s.settles? e = none := by
  rw [settles?, nobody]
  rfl

/-- A look settles its load with what it finds, unless the load was settled before. -/
theorem settles?_of_look (looks : s.look? e = some (s', t)) :
    s.settles? e
      = if (settled? s.loads t.load).isNone then (s'.outcome? t.load).map (t, ·) else none := by
  rw [settles?, looks]
  rfl

/-- A waiter is the first to be shown an outcome if its load was not settled and its look
finds the outcome. -/
theorem settles?_eq_some_iff {outcome : Except E V} :
    s.settles? e = some (t, outcome) ↔
      ∃ s', s.look? e = some (s', t) ∧ settled? s.loads t.load = none ∧
        s'.outcome? t.load = some outcome := by
  cases looks : s.look? e with
  | none => simp [settles?_of_no_look looks]
  | some pair =>
      obtain ⟨s', t'⟩ := pair
      rw [settles?_of_look looks]
      constructor
      · intro settles
        split at settles
        · next unsettled =>
          obtain ⟨_, finds, pair_eq⟩ := Option.map_eq_some_iff.mp settles
          cases pair_eq
          exact ⟨s', rfl, Option.isNone_iff_eq_none.mp unsettled, finds⟩
        · cases settles
      · -- There is only one look of an event, so the one given is the one found.
        rintro ⟨_, pair_eq, unsettled, finds⟩
        cases pair_eq
        rw [unsettled, finds]
        rfl

/-- Only a first look starts a load. -/
theorem starts?_of_no_firstLook (none_first : s.firstLook? e = none) : s.starts? e = none := by
  rw [starts?, none_first]
  rfl

/-- Who finds a value starts no load. -/
theorem starts?_of_no_look (nobody : s.look? e = none) : s.starts? e = none := by
  rw [starts?, nobody]
  cases s.firstLook? e <;> rfl

/-- A first look that has to wait starts a load where it owns it. -/
theorem starts?_of_firstLook (first : s.firstLook? e = some (s', key)) {s'' : Session K V E}
    (looks : s.look? e = some (s'', t)) : s.starts? e = if t.owner then some t else none := by
  rw [starts?, first, looks]
  rfl

/-- A key gets a value from an event that writes the value: an insertion of it, or the first
look at a load that has it as its outcome. -/
theorem written?_eq_some_iff : s.written? e = some (key, value) ↔ s.Writes e key value := by
  have settled_iff (other : ∀ key value, e ≠ .insert key value) :
      ((s.settles? e).bind fun (t, outcome) => outcome.toOption.map (t.key, ·)) = some (key, value)
        ↔ s.Writes e key value := by
    rw [Writes, or_iff_right (other key value), Option.bind_eq_some_iff]
    constructor
    · rintro ⟨⟨t, outcome⟩, settles, written⟩
      obtain ⟨s', looks, unsettled, finds⟩ := settles?_eq_some_iff.mp settles
      cases outcome with
      | error failure => cases written
      | ok value' =>
          cases written
          refine ⟨s', t, looks, rfl, unsettled, ?_⟩
          rcases look_cases looks with ⟨_, finds', report_eq, -⟩ | ⟨finds', -⟩ <;>
            cases finds.symm.trans finds'
          exact report_eq
    · rintro ⟨s', t, looks, rfl, unsettled, shown⟩
      rcases look_cases looks with ⟨_, finds, report_eq, -⟩ | ⟨-, report_eq, -⟩ <;>
        cases report_eq.symm.trans shown
      exact ⟨_, settles?_eq_some_iff.mpr ⟨s', looks, unsettled, finds⟩, rfl⟩
  -- An insertion writes by itself, and every other event by what it settles.
  cases e with
  | insert key' value' => simp [written?, Writes, look?]
  | _ => exact settled_iff (by rintro _ _ ⟨⟩)

/-! ### The parts of an event -/

/-- What the cache is once the task that an event gives up has withdrawn. A start gives up
the task that had the name before, and a drop gives up the one that has it. -/
inductive GivesUp (s : Session K V E) (e : Event K V E) : Cache K V → Prop where
  /-- Nobody is given up, or a waiter of a load that was seen. -/
  | unnoticed (kept : s.abandons? e = none) : GivesUp s e s.cache
  /-- One of several waiters is given up. -/
  | fewer {t : Task K} {f : Flight K} (leaves : s.leaving? e = some t)
      (kept : s.abandons? e = none) (found : s.cache.flight? t.key = some f)
      (load_eq : f.load = t.load) : GivesUp s e (s.cache.setWaiters t.key (f.waiters - 1))
  /-- The last waiter is given up. -/
  | last {t : Task K} {f : Flight K} (leaves : s.leaving? e = some t)
      (abandons : s.abandons? e = some t) (found : s.cache.flight? t.key = some f)
      (load_eq : f.load = t.load) : GivesUp s e (s.cache.dropFlight t.key)

/-- What a cache is once the task that asks in an event has asked. The cases are those of a
request, together with what the event shows of them. Every event comes under one of them,
since an event without a task that asks is the first one. -/
inductive AsksFor (s : Session K V E) (e : Event K V E) (c : Cache K V) : Cache K V → Prop where
  | nobody (silent : e.asked? = none) (closed : s.starts? e = none) : AsksFor s e c c
  | hit {key : K} {r : Resident K V} (asks : e.asked? = some key)
      (held : c.resident? key = some r) (nobody : s.look? e = none) (closed : s.starts? e = none) :
      AsksFor s e c ((c.touch key).1.countLookup true)
  | joins {key : K} {f : Flight K} {s' : Session K V E} {t : Task K}
      (asks : e.asked? = some key) (absent : c.resident? key = none)
      (found : c.flight? key = some f) (looks : s.look? e = some (s', t)) (key_eq : t.key = key)
      (load_eq : t.load = f.load) (closed : s.starts? e = none) :
      AsksFor s e c ((c.countLookup false).setWaiters key (f.waiters + 1))
  | starts {key : K} {s' : Session K V E} {t : Task K} (asks : e.asked? = some key)
      (absent : c.resident? key = none) (free : c.flight? key = none)
      (looks : s.look? e = some (s', t)) (key_eq : t.key = key) (load_eq : t.load = c.nextLoad)
      (starts : s.starts? e = some t) : AsksFor s e c ((c.countLookup false).startFlight key)

/-- What a cache is once the waiter that looks in an event has looked. Together with
`GivesUp` and `AsksFor` this takes an event apart: one after another a task is given up, a
task asks, and a waiter looks. -/
inductive Looks (s : Session K V E) (e : Event K V E) (c : Cache K V) : Cache K V → Prop where
  /-- Nobody looks, or a waiter that has to wait or is late. -/
  | unnoticed (quiet : s.settles? e = none) : Looks s e c c
  /-- A waiter that has joined others does not wait with them. -/
  | leaves {s' : Session K V E} {t : Task K} {f : Flight K} (looks : s.look? e = some (s', t))
      (quiet : s.settles? e = none) (found : c.flight? t.key = some f)
      (load_eq : f.load = t.load) : Looks s e c (c.setWaiters t.key (f.waiters - 1))
  /-- A waiter is the first to see the outcome of its load. -/
  | settles {s' : Session K V E} {t : Task K} {outcome : Except E V} {f : Flight K}
      (looks : s.look? e = some (s', t)) (settles : s.settles? e = some (t, outcome))
      (found : c.flight? t.key = some f) (load_eq : f.load = t.load) :
      Looks s e c (c.processed t.key outcome)

omit [DecidableEq K] in
/-- The task that leaves is the one with the name that is given up, if there is one. -/
theorem leaving?_of_givenUp {name : String} (gives_up : e.givenUp? = some name) :
    s.leaving? e = s.task? name := by
  rw [leaving?, gives_up]
  rfl

omit [DecidableEq K] in
/-- Where nobody leaves no load is abandoned. -/
theorem abandons?_of_none (nobody : s.leaving? e = none) : s.abandons? e = none := by
  rw [abandons?, nobody]
  rfl

omit [DecidableEq K] in
/-- A load is abandoned by the one waiter it has, as long as no outcome of it was seen. -/
theorem abandons?_of_some (leaves : s.leaving? e = some t) :
    s.abandons? e = if settled? s.loads t.load = none ∧ waitersOf s.waiters t.load = 1
      then some t else none := by
  simp [abandons?, leaves, Option.filter]

/-- A task is given up. Its load is registered where it is unseen, and then the count of the
register tells whether others wait for it. -/
theorem Sound.givesUp (h : s.Sound) {name : String} (gives_up : e.givenUp? = some name) :
    s.GivesUp e (s.drop name).1.cache := by
  have leaving_eq : s.leaving? e = s.task? name := leaving?_of_givenUp gives_up
  cases found : s.task? name with
  | none =>
      rcases s.drop_cases name with ⟨-, drop_eq⟩ | ⟨t, found', -⟩
      · rw [drop_eq]
        exact .unnoticed (abandons?_of_none (leaving_eq.trans found))
      · cases found.symm.trans found'
  | some t =>
      have leaves := leaving_eq.trans found
      have waiting := h.mem_waiters found
      rw [cache_drop found]
      rcases s.cache.withdraw_cases t.key t.load with ⟨f, registered, load_eq, withdrawn⟩
        | ⟨other, withdraw_eq⟩
      · obtain ⟨⟨-, unsettled⟩, some_wait, count_eq⟩ := h.accounted.counted_of_flight? registered
        rw [load_eq] at unsettled count_eq
        rcases withdrawn with ⟨few, withdraw_eq⟩ | ⟨many, withdraw_eq⟩ <;> rw [withdraw_eq]
        · refine .last leaves ?_ registered load_eq
          rw [abandons?_of_some leaves, if_pos ⟨unsettled, by omega⟩]
        · refine .fewer leaves ?_ registered load_eq
          rw [abandons?_of_some leaves, if_neg (fun alone => by omega)]
      · -- An unseen load would be registered.
        rw [withdraw_eq]
        refine .unnoticed ?_
        rw [abandons?_of_some leaves, if_neg]
        rintro ⟨unsettled, -⟩
        obtain ⟨f, registered, load_eq⟩ :=
          h.accounted.flight?_of_unseen waiting ⟨h.accounted.started t waiting, unsettled⟩
        exact other f registered load_eq

/-- A task asks for a key. Which of the three answers it gets shows in whether it has to
look and whether it owns its load. -/
theorem asksFor {decided : Option (Except E V)} (first : s.firstLook? e = some (s', key))
    (asks : e.asked? = some key) (look_eq : s.look? e = waiter? (s'.ask key decided)) :
    s.AsksFor e s'.cache (s'.ask key decided).1.cache := by
  rcases s'.ask_cases key decided with ⟨r, held, ask_eq⟩ | ⟨absent, f, found, ask_eq⟩
    | ⟨absent, free, ask_eq⟩ <;> rw [ask_eq] at look_eq ⊢
  · -- The value is held, so of the three things a request may do it hands the value out.
    have request_eq : (s'.cache.request key).1 = (s'.cache.touch key).1.countLookup true := by
      rcases s'.cache.request_cases key with ⟨_, -, eq⟩ | ⟨absent, -⟩ | ⟨absent, -⟩
      · rw [eq]
      · cases held.symm.trans absent
      · cases held.symm.trans absent
    rw [withCache, request_eq]
    exact .hit asks held look_eq (starts?_of_no_look look_eq)
  · exact .joins asks absent found look_eq rfl rfl (starts?_of_firstLook first look_eq)
  · exact .starts asks absent free look_eq rfl rfl (starts?_of_firstLook first look_eq)

/-- A waiter that does not wait on has joined others: had it started a load of its own, the
outcome of that load would be at hand. So others are left, and the load is not abandoned. -/
theorem Sound.withdraw_of_load (h : s.Sound) {decided : Except E V}
    (looks : s.look? (.load key decided) = some (s', t)) (undecided : s'.outcome? t.load = none) :
    ∃ f, s'.cache.flight? t.key = some f ∧ f.load = t.load ∧
      s'.cache.withdraw t.key t.load = s'.cache.setWaiters t.key (f.waiters - 1) := by
  have ask_eq := waiter?_eq_some_iff.mp looks
  obtain ⟨-, -, accounted⟩ := h.ask_waits ask_eq
  rcases s.ask_cases key (some decided) with ⟨r, -, eq⟩ | ⟨-, f, found, eq⟩ | ⟨-, -, eq⟩ <;>
    cases ask_eq.symm.trans eq
  · obtain ⟨mem, key_eq⟩ := h.accounted.flight?_eq_some_iff.mp found
    obtain ⟨f', registered, load_eq⟩ :=
      accounted.flight?_of_unseen List.mem_cons_self (h.accounted.counted f mem).1
    refine ⟨f', registered, load_eq, ?_⟩
    have count_eq := (accounted.counted_of_flight? registered).2.2
    rw [load_eq, waitersOf_cons_self, ← (h.accounted.counted f mem).2.2] at count_eq
    have some_wait := (h.accounted.counted f mem).2.1
    rcases (Cache.withdraw_cases _ key f.load) with
      ⟨f'', registered', -, ⟨few, -⟩ | ⟨-, withdraw_eq⟩⟩ | ⟨other, -⟩
    · cases registered.symm.trans registered'
      omega
    · cases registered.symm.trans registered'
      exact withdraw_eq
    · exact absurd load_eq (other f' registered)
  · -- The outcome of a load that was just started is at hand.
    have numbered : s.cache.nextLoad = s.loads.length := h.accounted.numbered
    simp [outcome?, numbered] at undecided

/-- A waiter looks. It settles its load, or finds it settled, or finds nothing and may
withdraw. -/
theorem Sound.looks (h : s.Sound) (looks : s.look? e = some (s', t)) :
    s.Looks e s'.cache (s.step e).cache := by
  -- The look finds an outcome, for the first time or not, or it finds none.
  rcases look_cases looks with ⟨outcome, finds, -, cache_eq, -⟩ | ⟨undecided, -, cache_eq, -⟩
  · rw [cache_eq]
    cases settled : settled? s.loads t.load with
    | some seen =>
        rw [h.finish_of_seen looks settled]
        refine .unnoticed ?_
        rw [settles?_of_look looks, settled]
        rfl
    | none =>
        obtain ⟨others, accounted⟩ := h.look looks
        have unseen : Unseen s'.loads t.load :=
          ⟨accounted.started t List.mem_cons_self, (settled?_look looks _).trans settled⟩
        obtain ⟨f, found, load_eq⟩ := accounted.flight?_of_unseen List.mem_cons_self unseen
        rw [h.finish_of_unseen looks settled]
        exact .settles looks (settles?_eq_some_iff.mpr ⟨s', looks, settled, finds⟩) found load_eq
  · have quiet : s.settles? e = none := by
      rw [settles?_of_look looks, undecided]
      split <;> rfl
    rcases cache_eq with same | ⟨key, decided, rfl, withdrawn⟩
    · rw [same]
      exact .unnoticed quiet
    · obtain ⟨f, found, load_eq, withdraw_eq⟩ := h.withdraw_of_load looks undecided
      rw [withdrawn, withdraw_eq]
      exact .leaves looks quiet found load_eq

/-- Who does not find a value looks, and then the cache is as the question has left it. -/
theorem Sound.looks_of_asked (h : s.Sound) {asked : Session K V E × (V ⊕ Task K)}
    (look_eq : s.look? e = waiter? asked)
    (found : s.look? e = none → (s.step e).cache = asked.1.cache) :
    s.Looks e asked.1.cache (s.step e).cache := by
  obtain ⟨s', value | t⟩ := asked
  · rw [found look_eq]
    exact .unnoticed (settles?_of_no_look look_eq)
  · exact h.looks look_eq

/-- What an event about a task does to the cache. Somebody withdraws, somebody asks, and
somebody looks. Where one of the three does not happen the cache is the same before and
after it; so all events about tasks have the same three parts, and a fact about such an
event is one fact about each part. -/
theorem Sound.acts (h : s.Sound) (about : e.isTask = true) :
    ∃ c c', s.GivesUp e c ∧ s.AsksFor e c c' ∧ s.Looks e c' (s.step e).cache := by
  -- An event without a look leaves the last part out.
  have idle (nobody : s.look? e = none) {c : Cache K V} (same : (s.step e).cache = c) :
      s.Looks e c (s.step e).cache :=
    same ▸ .unnoticed (settles?_of_no_look nobody)
  cases e with
  | start name key =>
      refine ⟨_, _, h.givesUp rfl, asksFor rfl rfl rfl, h.looks_of_asked rfl fun nobody => ?_⟩
      obtain ⟨s', value, ask_eq, start_eq⟩ := start_of_no_look nobody
      rw [Session.step, start_eq, ask_eq]
  | load key outcome =>
      refine ⟨_, _, .unnoticed rfl, asksFor rfl rfl rfl, h.looks_of_asked rfl fun nobody => ?_⟩
      obtain ⟨s', value, ask_eq, load_eq⟩ := load_of_no_look nobody
      rw [Session.step, load_eq, ask_eq]
  | poll name =>
      refine ⟨_, _, .unnoticed rfl, .nobody rfl rfl, ?_⟩
      cases looks : s.look? (.poll name : Event K V E) with
      | none => exact idle looks (congrArg cache (congrArg Prod.fst (poll_of_no_look looks)))
      | some pair =>
          obtain ⟨t, -, pair_eq⟩ := Option.map_eq_some_iff.mp looks
          cases pair_eq
          exact h.looks looks
  | drop name => exact ⟨_, _, h.givesUp rfl, .nobody rfl rfl, idle rfl rfl⟩
  | resolve name outcome =>
      refine ⟨_, _, .unnoticed rfl, .nobody rfl rfl, idle rfl ?_⟩
      rcases s.resolve_cases name outcome with same | ⟨load, decided⟩
      · rw [Session.step, same]
      · rw [Session.step, decided]
        rfl
  | decideLoad load outcome => exact ⟨_, _, .unnoticed rfl, .nobody rfl rfl, idle rfl rfl⟩
  | _ => cases about

end Session

end TileArchive
