import Mathlib.Data.List.Induction
import TileArchive.Proofs.Cache.Sound

/-!
# `TileArchive.Proofs.Cache.Looks`: waiters that look, and loads that finish

`Session.look?` says which waiter looks at its load in an event, if any, and `report?` what it
is shown. For a first look this is the waiter that comes of asking for the key. A load is
*finished* in a history when one of its waiters was shown an outcome (`Session.Finished`).

* `look_cases` says what a look shows and what it does to the loads and the cache.
* `Sound.look_settled`, `Sound.look_decided` and `look_undecided` say what a waiter is shown, and
  that an outcome is processed by the first look that finds it and by no other.
* `finished_iff` says that the settled outcome of a load is the one it finished with. So the
  history need not be searched for it.

## Settled and decided

A load may have two outcomes at a time. The one that is *decided* comes from outside and may
still be replaced. The one that is *settled* was shown to a waiter and stays. A look finds the
settled outcome if there is one and the decided one otherwise (`outcome?_of_settled`,
`outcome?_of_unsettled`), and by finding it settles it.

Only looks settle anything. `settled?_look` and `settled?_step_of_no_look` say so for the part of
an event before the look and for events without one, and `Sound.settled?_step_iff` sums up: the
outcomes that are settled after an event are those from before and the one that it shows.

## First look and later looks

`Sound.finish_of_unseen` and `finish_of_seen` are where the account of waiters pays off. A waiter
whose load is unseen finds it registered, so its report is processed. A waiter whose load was
seen finds at most a later load under its key, so its report goes unnoticed. That a load is
processed once, and by the first waiter who sees it, follows without counting anything.
-/

set_option autoImplicit false

namespace TileArchive.Session

variable {K V E : Type}

/-- The outcome decided for a load. A load may have been decided long before a waiter looks
at it. -/
def decided? (s : Session K V E) (load : Nat) : Option (Except E V) :=
  s.loads[load]? >>= SharedLoad.decided

/-- A look at a settled load finds its settled outcome, whatever was decided since. -/
theorem outcome?_of_settled {s : Session K V E} {load : Nat} {outcome : Except E V}
    (settled : settled? s.loads load = some outcome) : s.outcome? load = some outcome := by
  rw [settled?, Option.bind_eq_bind, Option.bind_eq_some_iff] at settled
  obtain ⟨l, found, settled⟩ := settled
  simp [outcome?, found, settled]

/-- A look at a load that nobody has seen finds what was decided last, if anything was. -/
theorem outcome?_of_unsettled {s : Session K V E} {load : Nat}
    (unsettled : settled? s.loads load = none) : s.outcome? load = s.decided? load := by
  rw [settled?] at unsettled
  rw [outcome?, decided?]
  cases found : s.loads[load]? with
  | none => rfl
  | some l =>
      have none_seen : l.settled = none := by simpa [found] using unsettled
      simp [none_seen]

variable [DecidableEq K]

/-! ### Looks -/

/-- The first look of a task: the session in which it asks, and the key it asks for. -/
def firstLook? (s : Session K V E) : Event K V E → Option (Session K V E × K)
  | .start name key => some ((s.drop name).1, key)
  | .load key _ => some (s, key)
  | _ => none

/-- Who has asked and did not find a value. -/
def waiter? : Session K V E × (V ⊕ Task K) → Option (Session K V E × Task K)
  | (_, .inl _) => none
  | (s, .inr t) => some (s, t)

/-- The waiter that looks at its load in an event, and the session in which it looks. In a
first look this is the session after the question, in which the waiter is accounted for and
no outcome was seen yet. -/
def look? (s : Session K V E) : Event K V E → Option (Session K V E × Task K)
  | .start name key => waiter? ((s.drop name).1.ask key none)
  | .load key outcome => waiter? (s.ask key (some outcome))
  | .poll name => (s.task? name).map fun t => (s, t)
  | _ => none

/-- What the task of an event is shown. -/
def report? (s : Session K V E) : Event K V E → Option (Report V E)
  | .start name key => some (s.start name key).2
  | .load key outcome => some (s.load key outcome).2
  | .poll name => (s.poll name).2
  | _ => none

omit [DecidableEq K] in
/-- Who has to wait is who got no value. -/
theorem waiter?_eq_some_iff {asked : Session K V E × (V ⊕ Task K)} {s : Session K V E}
    {t : Task K} : waiter? asked = some (s, t) ↔ asked = (s, .inr t) := by
  rcases asked with ⟨s', value | t'⟩ <;> simp [waiter?]

variable {s s' : Session K V E} {e : Event K V E} {t : Task K}

/-- A later look is a look of the task with that name. -/
theorem look?_poll {name : String} (found : s.task? name = some t) :
    s.look? (.poll name) = some (s, t) := by
  rw [look?, found, Option.map_some]

/-- A first look at which nobody waits finds the value there. -/
theorem start_of_no_look {name : String} {key : K} (nobody : s.look? (.start name key) = none) :
    ∃ s' value, (s.drop name).1.ask key none = (s', .inl value) ∧
      s.start name key = (s', ⟨.done (.ok value), false⟩) := by
  rcases s.start_cases name key with found | ⟨s', t, ask_eq, -⟩
  · exact found
  · rw [look?, ask_eq] at nobody
    cases nobody

/-- The same of a task that is not kept waiting. -/
theorem load_of_no_look {key : K} {outcome : Except E V}
    (nobody : s.look? (.load key outcome) = none) :
    ∃ s' value, s.ask key (some outcome) = (s', .inl value) ∧
      s.load key outcome = (s', ⟨.done (.ok value), false⟩) := by
  rcases s.load_cases key outcome with found | ⟨s', t, ask_eq, -⟩
  · exact found
  · rw [look?, ask_eq] at nobody
    cases nobody

/-- A later look at which nobody looks is one of a name without a task. -/
theorem poll_of_no_look {name : String} (nobody : s.look? (.poll name : Event K V E) = none) :
    s.poll name = (s, none) := by
  rcases s.poll_cases name with ⟨-, poll_eq⟩ | ⟨t, found, -⟩
  · exact poll_eq
  · rw [look?, found] at nobody
    cases nobody

/-- A waiter that looks is shown the outcome of its load, which is settled by that, or has to
wait. If it is not kept waiting then, it withdraws. -/
theorem look_cases (looks : s.look? e = some (s', t)) :
    (∃ outcome, s'.outcome? t.load = some outcome ∧
      s.report? e = some ⟨.done outcome, t.owner⟩ ∧
      (s.step e).cache = s'.cache.finish t.key t.load outcome ∧
      (s.step e).loads = (s'.settle t.load outcome).loads) ∨
    (s'.outcome? t.load = none ∧ s.report? e = some ⟨.pending, t.owner⟩ ∧
      ((s.step e).cache = s'.cache ∨ ∃ key decided, e = .load key decided ∧
        (s.step e).cache = s'.cache.withdraw t.key t.load) ∧
      (s.step e).loads = s'.loads) := by
  -- The three events with a look differ in who looks and in what becomes of a waiter that has
  -- to wait on.
  cases e with
  | start name key =>
      have ask_eq := waiter?_eq_some_iff.mp looks
      rcases s.start_cases name key with ⟨_, _, ask_eq', -⟩ | ⟨_, _, ask_eq', looked⟩ <;>
        cases ask_eq.symm.trans ask_eq'
      rcases looked with ⟨outcome, outcome_eq, start_eq⟩ | ⟨outcome_eq, start_eq⟩
      · refine .inl ⟨outcome, outcome_eq, ?_⟩
        rw [report?, step, start_eq]
        exact ⟨rfl, rfl, rfl⟩
      · refine .inr ⟨outcome_eq, ?_⟩
        rw [report?, step, start_eq]
        exact ⟨rfl, .inl rfl, rfl⟩
  | load key decided =>
      have ask_eq := waiter?_eq_some_iff.mp looks
      rcases s.load_cases key decided with ⟨_, _, ask_eq', -⟩ | ⟨_, _, ask_eq', looked⟩ <;>
        cases ask_eq.symm.trans ask_eq'
      rcases looked with ⟨outcome, outcome_eq, load_eq⟩ | ⟨outcome_eq, load_eq⟩
      · refine .inl ⟨outcome, outcome_eq, ?_⟩
        rw [report?, step, load_eq]
        exact ⟨rfl, rfl, rfl⟩
      · refine .inr ⟨outcome_eq, ?_⟩
        rw [report?, step, load_eq]
        exact ⟨rfl, .inr ⟨key, decided, rfl, rfl⟩, rfl⟩
  | poll name =>
      obtain ⟨t', found, pair_eq⟩ := Option.map_eq_some_iff.mp looks
      cases pair_eq
      rcases s.poll_cases name with ⟨absent, -⟩ | ⟨t', found', looked⟩
      · cases absent.symm.trans found
      cases found'.symm.trans found
      rcases looked with ⟨outcome, outcome_eq, poll_eq⟩ | ⟨outcome_eq, poll_eq⟩
      · refine .inl ⟨outcome, outcome_eq, ?_⟩
        rw [report?, step, poll_eq]
        exact ⟨rfl, rfl, rfl⟩
      · refine .inr ⟨outcome_eq, ?_⟩
        rw [report?, step, poll_eq]
        exact ⟨rfl, .inl rfl, rfl⟩
  | _ => cases looks

/-- A waiter that looks is accounted for. -/
theorem Sound.look (h : s.Sound) (looks : s.look? e = some (s', t)) :
    ∃ others, Accounted s'.cache s'.loads (t :: others) := by
  cases e with
  | start name key =>
      obtain ⟨-, -, accounted⟩ := (h.drop name).ask_waits (waiter?_eq_some_iff.mp looks)
      exact ⟨_, accounted⟩
  | load key outcome =>
      obtain ⟨-, -, accounted⟩ := h.ask_waits (waiter?_eq_some_iff.mp looks)
      exact ⟨_, accounted⟩
  -- A task that is polled has waited before; the other two have just begun to.
  | poll name =>
      obtain ⟨t', found, pair_eq⟩ := Option.map_eq_some_iff.mp looks
      cases pair_eq
      exact ⟨_, h.apart found⟩
  | _ => cases looks

/-! ### Settled outcomes -/

/-- Asking settles nothing, even where it starts a load whose outcome is at hand. -/
theorem settled?_ask {key : K} {decided : Option (Except E V)} {result : V ⊕ Task K}
    (ask_eq : s.ask key decided = (s', result)) (load : Nat) :
    settled? s'.loads load = settled? s.loads load := by
  rcases s.ask_cases key decided with ⟨r, -, eq⟩ | ⟨-, f, -, eq⟩ | ⟨-, -, eq⟩ <;>
    rw [eq] at ask_eq <;> cases ask_eq
  · rfl
  · rfl
  · exact settled?_concat s.loads decided load

/-- Giving a task up leaves all loads as they are. -/
theorem loads_drop (s : Session K V E) (name : String) : (s.drop name).1.loads = s.loads := by
  rcases s.drop_cases name with ⟨-, drop_eq⟩ | ⟨t, -, drop_eq⟩ <;> rw [drop_eq]
  rfl

/-- Before a waiter looks nothing is settled. -/
theorem settled?_look (looks : s.look? e = some (s', t)) (load : Nat) :
    settled? s'.loads load = settled? s.loads load := by
  cases e with
  | start name key =>
      rw [settled?_ask (waiter?_eq_some_iff.mp looks), loads_drop]
  | load key outcome => exact settled?_ask (waiter?_eq_some_iff.mp looks) load
  | poll name =>
      obtain ⟨t', -, pair_eq⟩ := Option.map_eq_some_iff.mp looks
      cases pair_eq
      rfl
  | _ => cases looks

/-- Where nobody looks nothing is settled. -/
theorem settled?_step_of_no_look (nobody : s.look? e = none) (load : Nat) :
    settled? (s.step e).loads load = settled? s.loads load := by
  cases e with
  | start name key =>
      obtain ⟨_, _, ask_eq, start_eq⟩ := start_of_no_look nobody
      rw [step, start_eq, settled?_ask ask_eq, loads_drop]
  | load key outcome =>
      obtain ⟨_, _, ask_eq, load_eq⟩ := load_of_no_look nobody
      rw [step, load_eq, settled?_ask ask_eq]
  | poll name => rw [step, poll_of_no_look nobody]
  | drop name => rw [step, loads_drop]
  -- What has been decided is not settled before somebody looks at it.
  | resolve name outcome =>
      rw [step]
      rcases s.resolve_cases name outcome with same | ⟨decided, resolve_eq⟩
      · rw [same]
      · rw [resolve_eq]
        exact settled?_modify_decided
  | decideLoad decided outcome => exact settled?_modify_decided
  | _ => rfl

/-- A waiter is shown an outcome of a load. An event shows an outcome of one load at most,
since it is about one task. -/
def Returns (s : Session K V E) (e : Event K V E) (load : Nat) (outcome : Except E V) : Prop :=
  ∃ s' t, s.look? e = some (s', t) ∧ t.load = load ∧
    s.report? e = some ⟨.done outcome, t.owner⟩

/-- The outcomes that an event settles are those that it shows, and what is settled stays.
So whether a load has finished can be seen from outside. -/
theorem Sound.settled?_step_iff (h : s.Sound) {load : Nat} {outcome : Except E V} :
    settled? (s.step e).loads load = some outcome ↔
      settled? s.loads load = some outcome ∨ s.Returns e load outcome := by
  cases looks : s.look? e with
  | none =>
      have shows_none : ¬s.Returns e load outcome := by
        rintro ⟨s', t, looks', -⟩
        cases looks.symm.trans looks'
      rw [settled?_step_of_no_look looks, or_iff_left shows_none]
  | some pair =>
      obtain ⟨s', t⟩ := pair
      obtain ⟨others, accounted⟩ := h.look looks
      have returns_iff : s.Returns e load outcome ↔
          t.load = load ∧ s.report? e = some ⟨.done outcome, t.owner⟩ := by
        constructor
        · rintro ⟨_, _, looks', shown⟩
          cases looks.symm.trans looks'
          exact shown
        · exact fun shown => ⟨s', t, looks, shown⟩
      rw [returns_iff, ← settled?_look looks load]
      rcases look_cases looks with ⟨seen, outcome_eq, report_eq, -, loads_eq⟩
        | ⟨outcome_eq, report_eq, -, loads_eq⟩
      · rw [loads_eq, report_eq, settle]
        -- Only the load that was looked at can change.
        by_cases same : load = t.load
        · subst same
          rw [settled?_modify_settled_self (accounted.started t List.mem_cons_self)]
          constructor
          · rintro ⟨⟩
            exact .inr ⟨rfl, rfl⟩
          · rintro (settled | ⟨-, shown⟩)
            · -- What was settled before is what the look finds.
              rw [← outcome_eq, outcome?_of_settled settled]
            · cases shown
              rfl
        · rw [settled?_modify_settled_of_ne same]
          exact (or_iff_left fun shown => same shown.1.symm).symm
      · rw [loads_eq, report_eq]
        exact (or_iff_left (by rintro ⟨-, ⟨⟩⟩)).symm

/-! ### Processed outcomes -/

/-- Two waiters for one key with unseen loads wait for the load that is registered. -/
theorem Sound.load_eq_of_unseen (h : s.Sound) {t t' : Task K} (waiting : t ∈ s.waiters)
    (waiting' : t' ∈ s.waiters) (same : t.key = t'.key) (unseen : Unseen s.loads t.load)
    (unseen' : Unseen s.loads t'.load) : t.load = t'.load := by
  obtain ⟨f, found, load_eq⟩ := h.accounted.flight?_of_unseen waiting unseen
  obtain ⟨f', found', load_eq'⟩ := h.accounted.flight?_of_unseen waiting' unseen'
  rw [← same] at found'
  cases found.symm.trans found'
  exact load_eq.symm.trans load_eq'

/-- The outcome of an unseen load is processed by the look that finds it. -/
theorem Sound.finish_of_unseen (h : s.Sound) (looks : s.look? e = some (s', t))
    (unsettled : settled? s.loads t.load = none) (outcome : Except E V) :
    s'.cache.finish t.key t.load outcome = s'.cache.processed t.key outcome := by
  obtain ⟨others, accounted⟩ := h.look looks
  have unseen : Unseen s'.loads t.load :=
    ⟨accounted.started t List.mem_cons_self, (settled?_look looks _).trans unsettled⟩
  obtain ⟨f, found, load_eq⟩ := accounted.flight?_of_unseen List.mem_cons_self unseen
  rcases s'.cache.finish_cases t.key t.load outcome with ⟨-, -, -, eq⟩ | ⟨other, -⟩
  · exact eq
  · exact absurd load_eq (other f found)

/-- The outcome of a seen load is not processed again. -/
theorem Sound.finish_of_seen (h : s.Sound) (looks : s.look? e = some (s', t))
    {seen : Except E V} (settled : settled? s.loads t.load = some seen) (outcome : Except E V) :
    s'.cache.finish t.key t.load outcome = s'.cache := by
  obtain ⟨others, accounted⟩ := h.look looks
  have not_unseen : ¬Unseen s'.loads t.load := by
    rintro ⟨-, unsettled⟩
    rw [settled?_look looks, settled] at unsettled
    cases unsettled
  rcases s'.cache.finish_cases t.key t.load outcome with ⟨f, found, load_eq, -⟩ | ⟨-, eq⟩
  · have mem := (accounted.flight?_eq_some_iff.mp found).1
    exact absurd load_eq (accounted.load_ne_of_not_unseen not_unseen mem)
  · exact eq

/-- A waiter of a settled load is shown its outcome, and the cache stays. -/
theorem Sound.look_settled (h : s.Sound) (looks : s.look? e = some (s', t))
    {outcome : Except E V} (settled : settled? s.loads t.load = some outcome) :
    s.report? e = some ⟨.done outcome, t.owner⟩ ∧ (s.step e).cache = s'.cache := by
  have finds := outcome?_of_settled ((settled?_look looks t.load).trans settled)
  rcases look_cases looks with ⟨_, finds', report_eq, cache_eq, -⟩ | ⟨finds', -⟩ <;>
    cases finds.symm.trans finds'
  exact ⟨report_eq, cache_eq.trans (h.finish_of_seen looks settled outcome)⟩

/-- A waiter of a load that is decided but not settled is shown the decided outcome, which is
processed. -/
theorem Sound.look_decided (h : s.Sound) (looks : s.look? e = some (s', t))
    {outcome : Except E V} (unsettled : settled? s.loads t.load = none)
    (decided : s'.decided? t.load = some outcome) :
    s.report? e = some ⟨.done outcome, t.owner⟩ ∧
      (s.step e).cache = s'.cache.processed t.key outcome := by
  have finds := outcome?_of_unsettled ((settled?_look looks t.load).trans unsettled)
  rcases look_cases looks with ⟨_, finds', report_eq, cache_eq, -⟩ | ⟨finds', -⟩ <;>
    cases (finds.trans decided).symm.trans finds'
  exact ⟨report_eq, cache_eq.trans (h.finish_of_unseen looks unsettled outcome)⟩

/-- A waiter of a load that is neither settled nor decided has to wait. -/
theorem look_undecided (looks : s.look? e = some (s', t))
    (unsettled : settled? s.loads t.load = none) (undecided : s'.decided? t.load = none) :
    s.report? e = some ⟨.pending, t.owner⟩ := by
  have finds := outcome?_of_unsettled ((settled?_look looks t.load).trans unsettled)
  rcases look_cases looks with ⟨_, finds', -⟩ | ⟨-, report_eq, -⟩
  · cases (finds.trans undecided).symm.trans finds'
  · exact report_eq

/-! ### Finished loads -/

/-- A load has finished with an outcome in a history: one of its waiters was shown it. That
an outcome is decided is not enough, as nobody has seen it and nothing has come of it. -/
def Finished (config : CacheConfig) (weigh : K → V → UInt64) (past : List (Event K V E))
    (load : Nat) (outcome : Except E V) : Prop :=
  ∃ before e, before ++ [e] <+: past ∧ (after config weigh before).Returns e load outcome

variable {config : CacheConfig} {weigh : K → V → UInt64} {past : List (Event K V E)}
variable {load : Nat} {outcome : Except E V}

/-- What has finished after one more event had finished before, or is shown in that event.
The induction over a history uses it to carry `Finished` on. -/
theorem finished_concat_iff :
    Finished config weigh (past ++ [e]) load outcome ↔
      Finished config weigh past load outcome ∨
        (after config weigh past).Returns e load outcome := by
  constructor
  · rintro ⟨before, e', here, shown⟩
    -- The outcome was shown in the last event or in an earlier one.
    rcases List.prefix_concat_iff.mp here with same | earlier
    · obtain ⟨rfl, last⟩ := List.append_inj' same rfl
      cases last
      exact .inr shown
    · exact .inl ⟨before, e', earlier, shown⟩
  · rintro (⟨before, e', here, shown⟩ | shown)
    · exact ⟨before, e', here.trans (List.prefix_append past [e]), shown⟩
    · exact ⟨past, e, List.prefix_rfl, shown⟩

/-- What a load finished with is its settled outcome. -/
theorem finished_iff :
    Finished config weigh past load outcome ↔
      settled? (after config weigh past).loads load = some outcome := by
  -- By induction on the history from its end: the last event shows what it settles.
  induction past using List.reverseRecOn with
  | nil =>
      constructor
      · rintro ⟨before, e, here, -⟩
        exact absurd (List.prefix_nil.mp here) (List.append_ne_nil_of_right_ne_nil _ nofun)
      · intro settled
        simp [settled?, after, new] at settled
  | append_singleton past e ih =>
      rw [finished_concat_iff, ih, after_concat, (sound_after config weigh past).settled?_step_iff]

-- A load that is joined, outlives its owner and a cleared cache, and finishes.
example : Finished ⟨100, 90⟩ (fun (_ _ : Nat) => 1)
    [.start "a" 1, .start "b" 1, .resolve "a" (.ok 7), .drop "a", .clear, .poll "b"] 0
    (.ok 7 : Except Unit Nat) :=
  finished_iff.mpr rfl

/-- A load that finished with nothing is not settled. -/
theorem unfinished_iff :
    (∀ outcome, ¬Finished config weigh past load outcome) ↔
      settled? (after config weigh past).loads load = none := by
  simp only [finished_iff, Option.eq_none_iff_forall_ne_some, ne_eq]

end TileArchive.Session
