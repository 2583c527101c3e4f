import TileArchive.Proofs.Cache.Trace

/-!
# `TileArchive.Proofs.Cache.Values`: what events do to the values of a cache

Most of what happens to a cache concerns its register of loads and its counts. `SameValues` says
that two caches agree in everything else: in the values they hold, with weights and stamps, and
in what they have dropped. All operations on values respect this.

`Sound.handles` lists what an event can do to values. It stores a value, or uses one that is
there, or takes some out, or leaves all of them alone.

## Why a relation and a list

An event about a task may change the register three times before it comes to store a value. A
theorem about values does not care: it wants to say that the value was put in as by an insertion
into the cache as it was before the event. `SameValues` makes that sayable. It is an equivalence
in all but symmetry, which is never needed, and every operation on values has one congruence
lemma (`SameValues.touch`, `put`, `evict`, `evictInOrder`, `insert`).

`Handles` is then the inversion of an event as far as values go. A proof about weight, order or
loss goes by cases on it and has six cases, of which three are about a single operation of the
cache. It is used wherever weights, stamps and counters are followed through an insertion.
-/

set_option autoImplicit false

namespace TileArchive

variable {K V E : Type}

namespace Cache

/-- Two caches hold the same values and have dropped the same. Register, number of the next
load and the other counters may differ. A request that misses and a waiter that leaves are
of this kind. -/
structure SameValues (c c' : Cache K V) : Prop where
  config_eq : c'.config = c.config
  weigh_eq : c'.weigh = c.weigh
  residents_eq : c'.residents = c.residents
  weight_eq : c'.weight = c.weight
  clock_eq : c'.clock = c.clock
  evictions_eq : c'.counters.evictions = c.counters.evictions
  evictedWeight_eq : c'.counters.evictedWeight = c.counters.evictedWeight

namespace SameValues

variable {c c' c'' : Cache K V}

/-- Every cache holds the same values as itself. -/
theorem refl (c : Cache K V) : c.SameValues c := ⟨rfl, rfl, rfl, rfl, rfl, rfl, rfl⟩

/-- Parts of an event that leave the values alone can be put together. -/
theorem trans (h : c.SameValues c') (h' : c'.SameValues c'') : c.SameValues c'' where
  config_eq := h'.config_eq.trans h.config_eq
  weigh_eq := h'.weigh_eq.trans h.weigh_eq
  residents_eq := h'.residents_eq.trans h.residents_eq
  weight_eq := h'.weight_eq.trans h.weight_eq
  clock_eq := h'.clock_eq.trans h.clock_eq
  evictions_eq := h'.evictions_eq.trans h.evictions_eq
  evictedWeight_eq := h'.evictedWeight_eq.trans h.evictedWeight_eq

/-- Counting a look-up leaves the values alone. -/
theorem countLookup (c : Cache K V) (hit : Bool) : c.SameValues (c.countLookup hit) := by
  cases hit <;> exact ⟨rfl, rfl, rfl, rfl, rfl, rfl, rfl⟩

variable [DecidableEq K]

/-- Caches with the same values find the same under every key. -/
theorem resident?_eq (h : c.SameValues c') (key : K) : c'.resident? key = c.resident? key := by
  rw [resident?, resident?, h.residents_eq]

/-- A use does the same to the same values. -/
theorem touch (h : c.SameValues c') (key : K) : (c.touch key).1.SameValues (c'.touch key).1 := by
  unfold Cache.touch
  rw [h.resident?_eq key]
  split
  · exact h
  · refine { h with residents_eq := ?_, clock_eq := congrArg (· + 1) h.clock_eq }
    simp only [h.residents_eq, h.clock_eq]

/-- Putting a value in does the same to the same values: it replaces the same value, and the
new one gets the same stamp. -/
theorem put (h : c.SameValues c') (key : K) (value : V) (weight : UInt64) :
    (c.put key value weight).SameValues (c'.put key value weight) := by
  refine { h with residents_eq := ?_, weight_eq := ?_, clock_eq := congrArg (· + 1) h.clock_eq }
  · simp only [Cache.put, others, h.residents_eq, h.clock_eq]
  · simp only [Cache.put, h.resident?_eq, h.weight_eq]

/-- Dropping a value does the same to the same values and counts the same. -/
theorem evict (h : c.SameValues c') (r : Resident K V) : (c.evict r).SameValues (c'.evict r) where
  config_eq := h.config_eq
  weigh_eq := h.weigh_eq
  residents_eq := by simp only [Cache.evict, others, h.residents_eq]
  weight_eq := congrArg (· - r.weight) h.weight_eq
  clock_eq := h.clock_eq
  evictions_eq := congrArg (· + 1) h.evictions_eq
  evictedWeight_eq := congrArg (· + r.weight) h.evictedWeight_eq

/-- Dropping in a given order stops at the same place. By induction on the order, as it is
defined. -/
theorem evictInOrder (rs : List (Resident K V)) (h : c.SameValues c') :
    (c.evictInOrder rs).SameValues (c'.evictInOrder rs) := by
  induction rs generalizing c c' with
  | nil => exact h
  | cons r rs ih =>
      rw [Cache.evictInOrder, Cache.evictInOrder, h.weight_eq, h.config_eq]
      split
      · exact h
      · exact ih (h.evict r)

/-- An insertion does the same to the same values: it refuses in the same case, and where it
drops values it drops the same ones in the same order. -/
theorem insert (h : c.SameValues c') (key : K) (value : V) :
    (c.insert key value).SameValues (c'.insert key value) := by
  unfold Cache.insert
  simp only [h.config_eq, h.weigh_eq]
  split
  · exact h
  · -- Which values are dropped depends on weights, bounds and stamps only, and these are
    -- the same.
    have put := h.put key value (c.weigh key value)
    unfold Cache.shrink
    rw [put.weight_eq, put.config_eq]
    split
    · exact put
    · rw [byLastUse, byLastUse, put.residents_eq]
      exact put.evictInOrder _

end SameValues

end Cache

open Cache (SameValues)

namespace Session

variable [DecidableEq K] {s : Session K V E} {e : Event K V E} {c c' : Cache K V}

/-! ### The parts of an event -/

/-- Giving a task up leaves the values alone. -/
theorem GivesUp.sameValues (gives : s.GivesUp e c) : s.cache.SameValues c := by
  cases gives <;> exact ⟨rfl, rfl, rfl, rfl, rfl, rfl, rfl⟩

/-- Who asks uses the value that is there, or leaves all values alone. In the second case
nothing is held under the key that it asks for, if it asks for one. -/
theorem AsksFor.values_cases (asks : s.AsksFor e c c') :
    (∃ key r, e.asked? = some key ∧ c.resident? key = some r ∧ s.look? e = none ∧
      (c.touch key).1.SameValues c') ∨
    ((∀ key, e.asked? = some key → c.resident? key = none) ∧ c.SameValues c') := by
  cases asks with
  | nobody silent =>
      refine .inr ⟨fun key asks => ?_, .refl c⟩
      cases silent.symm.trans asks
  | hit asks held nobody =>
      exact .inl ⟨_, _, asks, held, nobody, .countLookup _ _⟩
  | joins asks absent =>
      refine .inr ⟨fun key asks' => ?_, ⟨rfl, rfl, rfl, rfl, rfl, rfl, rfl⟩⟩
      cases asks.symm.trans asks'
      exact absent
  | starts asks absent =>
      refine .inr ⟨fun key asks' => ?_, ⟨rfl, rfl, rfl, rfl, rfl, rfl, rfl⟩⟩
      cases asks.symm.trans asks'
      exact absent

/-- A look stores the value that a load settles with, or leaves all values alone. -/
theorem Looks.values_cases (looks : s.Looks e c c') :
    (∃ t value, s.settles? e = some (t, .ok value) ∧ (c.insert t.key value).SameValues c') ∨
    ((∀ t value, s.settles? e ≠ some (t, .ok value)) ∧ c.SameValues c') := by
  cases looks with
  | unnoticed quiet => exact .inr ⟨by simp [quiet], .refl c⟩
  | leaves _ quiet => exact .inr ⟨by simp [quiet], ⟨rfl, rfl, rfl, rfl, rfl, rfl, rfl⟩⟩
  | @settles _ t outcome _ _ settles =>
      -- A failure is counted and stores nothing.
      cases outcome with
      | ok value => exact .inl ⟨t, value, settles, ⟨rfl, rfl, rfl, rfl, rfl, rfl, rfl⟩⟩
      | error failure => exact .inr ⟨by simp [settles], ⟨rfl, rfl, rfl, rfl, rfl, rfl, rfl⟩⟩

/-! ### Events -/

/-- What an event can do to the values of a cache. There are six cases, and a proof about
what a cache holds after a history goes through them instead of through the events. -/
inductive Handles (s : Session K V E) (e : Event K V E) : Cache K V → Prop where
  /-- A value is given to a key, by an insertion or a load. No task finds a value there. -/
  | writes {key : K} {value : V} {c : Cache K V} (written : s.written? e = some (key, value))
      (missed : ∀ key, e.sought? = some key → s.cache.resident? key = none)
      (same : (s.cache.insert key value).SameValues c) : Handles s e c
  /-- A value that is there is used. -/
  | uses {key : K} {r : Resident K V} {c : Cache K V} (unwritten : s.written? e = none)
      (sought : e.sought? = some key) (held : s.cache.resident? key = some r)
      (same : (s.cache.touch key).1.SameValues c) : Handles s e c
  /-- All values stay as they are. -/
  | leaves {c : Cache K V} (unwritten : s.written? e = none)
      (missed : ∀ key, e.sought? = some key → s.cache.resident? key = none)
      (same : s.cache.SameValues c) : Handles s e c
  | invalidates {key : K} {c : Cache K V} (event_eq : e = .invalidate key)
      (cache_eq : c = (s.cache.invalidate key).1) : Handles s e c
  | clears {c : Cache K V} (event_eq : e = .clear) (cache_eq : c = s.cache.clear) : Handles s e c
  | resets {c : Cache K V} (event_eq : e = .resetCounters)
      (cache_eq : c = s.cache.resetCounters) : Handles s e c

omit [DecidableEq K] in
/-- An event about a task looks a key up if it asks for it. -/
theorem sought?_of_isTask (about : e.isTask = true) : e.sought? = e.asked? := by
  cases e <;> first | rfl | cases about

/-- An event about a task writes a value if it settles a load with it. -/
theorem written?_of_isTask (about : e.isTask = true) :
    s.written? e = (s.settles? e).bind fun (t, outcome) => outcome.toOption.map (t.key, ·) := by
  cases e <;> first | rfl | cases about

/-- A load that settles with a value has the value written under its key. -/
theorem written?_of_settles_ok (about : e.isTask = true) {t : Task K} {value : V}
    (settles : s.settles? e = some (t, .ok value)) : s.written? e = some (t.key, value) := by
  rw [written?_of_isTask about, settles]
  rfl

/-- An event about a task that settles no load with a value writes nothing. -/
theorem written?_of_not_settles_ok (about : e.isTask = true)
    (other : ∀ t value, s.settles? e ≠ some (t, .ok value)) : s.written? e = none := by
  rw [written?_of_isTask about]
  cases settles : s.settles? e with
  | none => rfl
  | some shown =>
      obtain ⟨t, outcome⟩ := shown
      cases outcome with
      | ok value => exact absurd settles (other t value)
      | error failure => rfl

/-- An event about a task stores a value, uses one, or leaves all of them alone. Which one
it is follows from the first look of the task, if it has one, and from the outcome that is
shown. -/
theorem Sound.handles_of_isTask (h : s.Sound) (about : e.isTask = true) :
    s.Handles e (s.step e).cache := by
  obtain ⟨c, c', gives, asks, looks⟩ := h.acts about
  have given := gives.sameValues
  -- Either a value was there and was used, or the question changed no value and a look may.
  rcases asks.values_cases with ⟨key, r, asks, held, nobody, used⟩ | ⟨absent, asked⟩
  · -- Who finds a value does not look.
    have quiet := settles?_of_no_look nobody
    rcases looks.values_cases with ⟨t, value, settles, -⟩ | ⟨other, looked⟩
    · cases quiet.symm.trans settles
    · exact .uses (written?_of_not_settles_ok about other) ((sought?_of_isTask about).trans asks)
        ((given.resident?_eq key).symm.trans held) ((given.touch key).trans (used.trans looked))
  · have missed : ∀ key, e.sought? = some key → s.cache.resident? key = none := by
      intro key sought
      rw [sought?_of_isTask about] at sought
      exact (given.resident?_eq key).symm.trans (absent key sought)
    rcases looks.values_cases with ⟨t, value, settles, stored⟩ | ⟨other, looked⟩
    · exact .writes (written?_of_settles_ok about settles) missed
        (((given.trans asked).insert t.key value).trans stored)
    · exact .leaves (written?_of_not_settles_ok about other) missed
        (given.trans (asked.trans looked))

/-- What any event can do to the values of a cache. Proofs about weights, stamps and
residents go through these cases and never look at events themselves. -/
theorem Sound.handles (h : s.Sound) (e : Event K V E) : s.Handles e (s.step e).cache := by
  cases e with
  | insert key value => exact .writes rfl nofun (.refl _)
  | get key =>
      have counted : (s.cache.touch key).1.SameValues (s.cache.get key).1 := .countLookup _ _
      -- A look-up of the cache itself uses a value, or it counts a miss and leaves all values
      -- alone.
      cases held : s.cache.resident? key with
      | some r => exact .uses rfl rfl held counted
      | none =>
          rw [Cache.touch_of_none held] at counted
          refine .leaves rfl ?_ counted
          rintro _ ⟨⟩
          exact held
  | invalidate key => exact .invalidates rfl rfl
  | clear => exact .clears rfl rfl
  | resetCounters => exact .resets rfl rfl
  | _ => exact h.handles_of_isTask rfl

/-- A value that is written is put in as by an insertion. Only the register and counters of
look-ups and loads tell the difference. -/
theorem Sound.sameValues_of_writes (h : s.Sound) {key : K} {value : V}
    (writes : s.Writes e key value) :
    (s.cache.insert key value).SameValues (s.step e).cache := by
  have written := written?_eq_some_iff.mpr writes
  -- No other kind of event writes.
  cases h.handles e with
  | writes written' _ same =>
      cases written.symm.trans written'
      exact same
  | uses unwritten => cases unwritten.symm.trans written
  | leaves unwritten => cases unwritten.symm.trans written
  | invalidates event_eq =>
      subst event_eq
      cases written
  | clears event_eq =>
      subst event_eq
      cases written
  | resets event_eq =>
      subst event_eq
      cases written

end Session

end TileArchive
