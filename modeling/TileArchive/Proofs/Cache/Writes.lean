import TileArchive.Proofs.Cache.Looks
import TileArchive.Proofs.Cache.Weight

/-!
# `TileArchive.Proofs.Cache.Writes`: values that are written, removed and handed out

A key gets a value when the value is inserted, or when a load of the key settles with it
(`Session.Writes`). It loses its value when it is invalidated or the cache is cleared
(`Removes`). A value is handed out to a plain look-up, or to a task that finds it at its first
look and needs no load (`HandsOut`).

The cache keeps what it holds under a key through every other event, as long as it does not drop
it. A value that is heavier than the ceiling is refused, and what was held under its key stays.
`Sound.holds_step` puts this into one statement about any event.

## Reading backwards

The direction is that of `Proofs/Cache/Holds.lean`: from what is held after an event back to the
event or to the session before it. `Sound.holds_step` says that a value under a key was stored by
the event (`Stores`) or was there before, and in the second case that the event let the key alone
(`LeavesAlone`): it did not remove the key, and if it wrote to it the written value was refused.
The refusal is part of the statement because it is the one way in which a key can be written to
and yet keep its older value. `Proofs/Cache/Latest.lean` goes back through a history with it.

An event with a look is treated apart from one without (`Sound.holds_step_of_look`,
`holds_step_of_no_look`). Only with a look can a value come from a load, and only then does it
matter whether the load was settled before.
-/

set_option autoImplicit false

namespace TileArchive

variable {K V E : Type} [DecidableEq K]

namespace Cache

/-! ### What operations leave in the cache -/

/-- A request keeps all values: it stamps one, or counts, or registers a load. -/
theorem holds_request (c : Cache K V) (key key' : K) (value : V) :
    (c.request key).1.Holds key' value ↔ c.Holds key' value := by
  rcases c.request_cases key with ⟨r, -, request_eq⟩ | ⟨-, f, -, request_eq⟩
    | ⟨-, -, request_eq⟩ <;> rw [request_eq]
  · exact c.holds_touch key key' value
  · rfl
  · rfl

/-- A withdrawal keeps all values. -/
theorem holds_withdraw (c : Cache K V) (key : K) (load : Nat) (key' : K) (value : V) :
    (c.withdraw key load).Holds key' value ↔ c.Holds key' value := by
  rcases c.withdraw_cases key load with ⟨f, -, -, ⟨-, withdraw_eq⟩ | ⟨-, withdraw_eq⟩⟩
    | ⟨-, withdraw_eq⟩ <;> rw [withdraw_eq] <;> rfl

/-! ### What stays the same throughout -/

omit [DecidableEq K] in
/-- Caches that differ in values only have the same bounds and weigh alike. -/
theorem OnlyValuesDiffer.bounds {c c' : Cache K V} (same : c.OnlyValuesDiffer c')
    {config : CacheConfig} {weigh : K → V → UInt64} (h : c.config = config ∧ c.weigh = weigh) :
    c'.config = config ∧ c'.weigh = weigh :=
  ⟨same.config_eq.trans h.1, same.weigh_eq.trans h.2⟩

/-- No operation changes the bounds of a cache or how it weighs, so they are those it was
made with. -/
theorem kept_bounds (config : CacheConfig) (weigh : K → V → UInt64) :
    Kept E fun c : Cache K V => c.config = config ∧ c.weigh = weigh where
  insert key value h := (onlyValuesDiffer_insert _ key value).bounds h
  get key h := (onlyValuesDiffer_touch _ key).bounds h
  clear h := h
  resetCounters h := h
  request {c} key h := by
    rcases c.request_cases key with ⟨r, -, request_eq⟩ | ⟨-, f, -, request_eq⟩
      | ⟨-, -, request_eq⟩ <;> rw [request_eq]
    · exact (c.onlyValuesDiffer_touch key).bounds h
    · exact h
    · exact h
  -- Of the operations on loads only a processed outcome comes near the values.
  finish {c} key load outcome h := by
    rcases c.finish_cases key load outcome with ⟨f, -, -, finish_eq⟩ | ⟨-, finish_eq⟩ <;>
      rw [finish_eq]
    · cases outcome with
      | ok value => exact (c.onlyValuesDiffer_insert key value).bounds h
      | error e => exact h
    · exact h
  withdraw {c} key load h := by
    rcases c.withdraw_cases key load with ⟨f, -, -, ⟨-, withdraw_eq⟩ | ⟨-, withdraw_eq⟩⟩
      | ⟨-, withdraw_eq⟩ <;> rw [withdraw_eq] <;> exact h

/-- What every operation keeps still holds when a waiter looks. -/
theorem Kept.look {P : Cache K V → Prop} (kept : Kept E P) {s s' : Session K V E}
    {e : Event K V E} {t : Task K} (looks : s.look? e = some (s', t)) (h : P s.cache) :
    P s'.cache := by
  cases e with
  | start name key => exact kept.ask (Session.waiter?_eq_some_iff.mp looks) (kept.drop name h)
  | load key outcome => exact kept.ask (Session.waiter?_eq_some_iff.mp looks) h
  | poll name =>
      obtain ⟨t', -, pair_eq⟩ := Option.map_eq_some_iff.mp looks
      cases pair_eq
      exact h
  | _ => cases looks

end Cache

namespace Session

variable {s s' : Session K V E} {e : Event K V E} {t : Task K}

/-- The bounds of a cache are the same after every history. -/
theorem bounds_after (config : CacheConfig) (weigh : K → V → UInt64) (past : List (Event K V E)) :
    (after config weigh past).cache.config = config ∧
      (after config weigh past).cache.weigh = weigh := by
  refine (Cache.kept_bounds config weigh).run ?_ ⟨rfl, rfl⟩
  intro c key _ h
  exact (c.onlyValuesDiffer_invalidate key).bounds h

/-! ### Values in events -/

/-- An event gives a key a value. The value is inserted, or it is the outcome that a load of the
key settles with. -/
def Writes (s : Session K V E) (e : Event K V E) (key : K) (value : V) : Prop :=
  e = .insert key value ∨
    ∃ s' t, s.look? e = some (s', t) ∧ t.key = key ∧ settled? s.loads t.load = none ∧
      s.report? e = some ⟨.done (.ok value), t.owner⟩

/-- An event takes what is held under a key away. Dropping does so too, but it is not asked
for by an event. -/
def Removes (e : Event K V E) (key : K) : Prop := e = .invalidate key ∨ e = .clear

/-- An event hands out the value that is held under a key, to a look-up or to a task that needs
no load. -/
def HandsOut (s : Session K V E) (e : Event K V E) (key : K) (value : V) : Prop :=
  (e = .get key ∧ (s.cache.get key).2 = some value) ∨
    ∃ s', s.firstLook? e = some (s', key) ∧ s.look? e = none ∧
      s.report? e = some ⟨.done (.ok value), false⟩

/-- Giving a task up keeps all values. -/
theorem holds_drop (s : Session K V E) (name : String) (key : K) (value : V) :
    (s.drop name).1.cache.Holds key value ↔ s.cache.Holds key value := by
  rcases s.drop_cases name with ⟨-, drop_eq⟩ | ⟨t, -, drop_eq⟩ <;> rw [drop_eq]
  exact s.cache.holds_withdraw t.key t.load key value

/-- Asking keeps all values, whether or not one is found. -/
theorem holds_ask {key : K} {decided : Option (Except E V)} {result : V ⊕ Task K}
    (ask_eq : s.ask key decided = (s', result)) (key' : K) (value : V) :
    s'.cache.Holds key' value ↔ s.cache.Holds key' value := by
  have cache_eq := s.cache_ask key decided
  rw [ask_eq] at cache_eq
  rw [cache_eq, Cache.holds_request]

/-- Who is given a value when asking for a key is given the one that is held. -/
theorem holds_of_ask {key : K} {decided : Option (Except E V)} {value : V}
    (ask_eq : s.ask key decided = (s', .inl value)) : s.cache.Holds key value := by
  rcases s.ask_cases key decided with ⟨r, held, eq⟩ | ⟨-, f, -, eq⟩ | ⟨-, -, eq⟩ <;>
    rw [eq] at ask_eq <;> cases ask_eq
  exact Cache.holds_of_resident? held

/-- A value that is handed out is held when the event begins. This is about hits: the value
of a load is shown to its waiters whether or not it has been put in. -/
theorem HandsOut.holds {key : K} {value : V} (handed : s.HandsOut e key value) :
    s.cache.Holds key value := by
  rcases handed with ⟨rfl, found⟩ | ⟨s', first, nobody, shown⟩
  · exact Cache.holds_of_touch found
  -- Asking comes after another task may have been given up, and neither changes a value.
  cases e with
  | start name key =>
      cases first
      obtain ⟨_, _, ask_eq, start_eq⟩ := start_of_no_look nobody
      rw [report?, start_eq] at shown
      cases shown
      exact (s.holds_drop name key value).mp (holds_of_ask ask_eq)
  | load key outcome =>
      cases first
      obtain ⟨_, _, ask_eq, load_eq⟩ := load_of_no_look nobody
      rw [report?, load_eq] at shown
      cases shown
      exact holds_of_ask ask_eq
  | _ => cases first

/-! ### What an event leaves in the cache -/

/-- When a waiter looks, the values are those from before the event. -/
theorem holds_look (looks : s.look? e = some (s', t)) (key : K) (value : V) :
    s'.cache.Holds key value ↔ s.cache.Holds key value := by
  cases e with
  | start name key' =>
      rw [holds_ask (waiter?_eq_some_iff.mp looks), holds_drop]
  | load key' outcome => exact holds_ask (waiter?_eq_some_iff.mp looks) key value
  | poll name =>
      obtain ⟨t', -, pair_eq⟩ := Option.map_eq_some_iff.mp looks
      cases pair_eq
      rfl
  | _ => cases looks

/-- An event without a look, insertions apart, adds no value. -/
theorem holds_of_holds_step (nobody : s.look? e = none) (other : ∀ key value, e ≠ .insert key value)
    {key : K} {value : V} (held : (s.step e).cache.Holds key value) : s.cache.Holds key value := by
  cases e with
  | insert key' value' => exact absurd rfl (other key' value')
  | get key' => exact (s.cache.holds_touch key' key value).mp held
  | invalidate key' => exact held.of_invalidate.2
  | clear =>
      obtain ⟨r, mem, -⟩ := held
      cases mem
  | resetCounters => exact held
  -- Without a look a task that is started was handed a value that is held, after a task of
  -- its name was given up.
  | start name key' =>
      obtain ⟨_, _, ask_eq, start_eq⟩ := start_of_no_look nobody
      rw [step, start_eq, holds_ask ask_eq, holds_drop] at held
      exact held
  | load key' outcome =>
      obtain ⟨_, _, ask_eq, load_eq⟩ := load_of_no_look nobody
      rw [step, load_eq, holds_ask ask_eq] at held
      exact held
  | poll name =>
      rw [step, poll_of_no_look nobody] at held
      exact held
  | drop name => exact (s.holds_drop name key value).mp held
  | resolve name outcome =>
      rw [step] at held
      rcases s.resolve_cases name outcome with same | ⟨decided, resolve_eq⟩
      · rwa [same] at held
      · rw [resolve_eq] at held
        exact held
  | decideLoad decided outcome => exact held

/-- An event stores a value: it gives the value to the key, and the value is not refused. It
may be dropped at once all the same. -/
def Stores (s : Session K V E) (e : Event K V E) (key : K) (value : V) : Prop :=
  s.Writes e key value ∧ s.cache.weigh key value ≤ s.cache.config.maxWeight

/-- An event leaves what is held under a key alone: it does not take it away, and a value that it
gives to the key is refused. -/
def LeavesAlone (s : Session K V E) (e : Event K V E) (key : K) : Prop :=
  ¬Removes e key ∧
    ∀ value, s.Writes e key value → s.cache.config.maxWeight < s.cache.weigh key value

/-- Where nobody looks only an insertion writes. -/
theorem writes_of_no_look (nobody : s.look? e = none) {key : K} {value : V}
    (writes : s.Writes e key value) : e = .insert key value := by
  rcases writes with rfl | ⟨_, _, looks, -⟩
  · rfl
  · cases nobody.symm.trans looks

/-- A look writes the value that it shows, if its load was not settled before. -/
theorem writes_iff_of_look (looks : s.look? e = some (s', t)) {key : K} {value : V} :
    s.Writes e key value ↔ t.key = key ∧ settled? s.loads t.load = none ∧
      s.report? e = some ⟨.done (.ok value), t.owner⟩ := by
  constructor
  · rintro (rfl | ⟨_, _, looks', rest⟩)
    · cases looks
    · cases looks.symm.trans looks'
      exact rest
  · exact fun rest => .inr ⟨s', t, looks, rest⟩

/-- A look removes nothing. -/
theorem not_removes_of_look (looks : s.look? e = some (s', t)) (key : K) : ¬Removes e key := by
  rintro (rfl | rfl) <;> cases looks

/-- What is held after an event without a look was put in by it, or was left alone. Dropping
may have taken other values out, which is why the other direction is missing. -/
theorem holds_step_of_no_look (nobody : s.look? e = none) {key : K} {value : V}
    (held : (s.step e).cache.Holds key value) :
    s.Stores e key value ∨ (s.cache.Holds key value ∧ s.LeavesAlone e key) := by
  have inserted {value' : V} (writes : s.Writes e key value') : e = .insert key value' :=
    writes_of_no_look nobody writes
  -- Three events without a look say something about a key: insertion, invalidation and
  -- clearing.
  cases e with
  | insert key' value' =>
      rcases held.insert_cases with ⟨rfl, rfl, light⟩ | ⟨held, heavy⟩
      · exact .inl ⟨.inl rfl, light⟩
      · refine .inr ⟨held, by simp [Removes], ?_⟩
        intro value'' writes
        cases inserted writes
        exact heavy rfl
  | invalidate key' =>
      obtain ⟨other, held⟩ := held.of_invalidate
      have stays : ¬Removes (.invalidate key' : Event K V E) key := by
        simpa [Removes] using other.symm
      exact .inr ⟨held, stays, fun _ writes => nomatch inserted writes⟩
  | clear =>
      obtain ⟨r, mem, -⟩ := held
      cases mem
  | _ =>
      exact .inr ⟨holds_of_holds_step nobody nofun held, by simp [Removes],
        fun _ writes => nomatch inserted writes⟩

/-- An event with a look: a value that is held after it was stored by it, or was held before
and is left alone. -/
theorem Sound.holds_step_of_look (h : s.Sound) (looks : s.look? e = some (s', t)) {key : K}
    {value : V} (held : (s.step e).cache.Holds key value) :
    s.Stores e key value ∨ (s.cache.Holds key value ∧ s.LeavesAlone e key) := by
  -- Asking for a key does not change the ceiling against which the outcome is weighed.
  have bounds := (Cache.kept_bounds s.cache.config s.cache.weigh).look looks ⟨rfl, rfl⟩
  have stays := not_removes_of_look looks key
  simp only [Stores, LeavesAlone, writes_iff_of_look looks]
  rcases look_cases looks with ⟨outcome, outcome_eq, report_eq, cache_eq, -⟩
    | ⟨-, report_eq, cache_eq, -⟩
  · rw [cache_eq] at held
    cases settled : settled? s.loads t.load with
    | some seen =>
        -- The outcome was stored, or refused, when the load settled.
        rw [h.finish_of_seen looks settled, holds_look looks] at held
        exact .inr ⟨held, stays, by simp⟩
    | none =>
        rw [h.finish_of_unseen looks settled] at held
        cases outcome with
        | error failure =>
            have held : s'.cache.Holds key value := held
            rw [holds_look looks] at held
            exact .inr ⟨held, stays, by simp [report_eq]⟩
        | ok value' =>
            have held : (s'.cache.insert t.key value').Holds key value := held
            rcases held.insert_cases with ⟨rfl, rfl, light⟩ | ⟨held, heavy⟩
            · rw [bounds.1, bounds.2] at light
              exact .inl ⟨⟨rfl, rfl, report_eq⟩, light⟩
            · rw [bounds.1, bounds.2] at heavy
              rw [holds_look looks] at held
              refine .inr ⟨held, stays, ?_⟩
              rintro value'' ⟨rfl, -, shown⟩
              cases report_eq.symm.trans shown
              exact heavy rfl
  · have held : s'.cache.Holds key value := by
      rcases cache_eq with same | ⟨_, _, -, withdrawn⟩
      · rwa [same] at held
      · rwa [withdrawn, Cache.holds_withdraw] at held
    rw [holds_look looks] at held
    exact .inr ⟨held, stays, by simp [report_eq]⟩

/-- What is held under a key after an event was stored by it, or it was held before and the event
left it alone. -/
theorem Sound.holds_step (h : s.Sound) {key : K} {value : V}
    (held : (s.step e).cache.Holds key value) :
    s.Stores e key value ∨ (s.cache.Holds key value ∧ s.LeavesAlone e key) := by
  cases looks : s.look? e with
  | none => exact holds_step_of_no_look looks held
  | some pair => exact h.holds_step_of_look looks held

end Session

end TileArchive
