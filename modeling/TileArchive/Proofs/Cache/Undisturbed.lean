import TileArchive.Proofs.Cache.Trace

/-!
# `TileArchive.Proofs.Cache.Undisturbed`: events that process nothing

The outcome of a load is processed when it is shown for the first time: its value is put in, or a
failure is counted. This module is about everything else that events do. Tasks ask and are given
up, waiters look and wait on or are late, outcomes are decided, and none of this may put a value
in, take one out or count a failure.

`Cache.Undisturbed` says what is left alone: the values with their keys and weights, the total
weight, and the counts of what was dropped and of what failed. It leaves out the stamps of last
use, because who asks for a value that is held uses it. It leaves out the register and the counts
of look-ups and loads too. Those are what such events change.

The operations on values are events as well. `Event.operate` is what an event does to a cache by
its own operation, which is nothing for an event about a task. `Sound.undisturbed_of_quiet` then
covers all events at once. An event that shows no outcome for the first time leaves the values and
counts as its own operation does. `undisturbed_of_look` says the same of the way to a look, which
is all that happens before the outcome of the load is taken into account.
-/

set_option autoImplicit false

namespace TileArchive

variable {K V E : Type}

namespace Cache

/-- What a cache holds: the values under their keys with their weights. The stamps of their last
use are left out. -/
def held (c : Cache K V) : List (K × V × UInt64) :=
  c.residents.map fun r => (r.key, r.value, r.weight)

/-- From one cache to another no value was put in, taken out or dropped, and no failure was
counted. Stamps may have changed, since a look-up that finds its key uses the value there. -/
structure Undisturbed (c c' : Cache K V) : Prop where
  held_eq : c'.held = c.held
  weight_eq : c'.weight = c.weight
  evictions_eq : c'.counters.evictions = c.counters.evictions
  evictedWeight_eq : c'.counters.evictedWeight = c.counters.evictedWeight
  failures_eq : c'.counters.failures = c.counters.failures

namespace Undisturbed

variable {c c' c'' : Cache K V}

/-- A cache is not disturbed by what leaves it as it is. -/
theorem refl (c : Cache K V) : c.Undisturbed c := ⟨rfl, rfl, rfl, rfl, rfl⟩

/-- Parts of an event that disturb nothing can be put together. -/
theorem trans (h : c.Undisturbed c') (h' : c'.Undisturbed c'') : c.Undisturbed c'' where
  held_eq := h'.held_eq.trans h.held_eq
  weight_eq := h'.weight_eq.trans h.weight_eq
  evictions_eq := h'.evictions_eq.trans h.evictions_eq
  evictedWeight_eq := h'.evictedWeight_eq.trans h.evictedWeight_eq
  failures_eq := h'.failures_eq.trans h.failures_eq

variable [DecidableEq K]

/-- Using a value changes its stamp and nothing else of what is held. -/
theorem touch (c : Cache K V) (key : K) : c.Undisturbed (c.touch key).1 := by
  unfold Cache.touch
  split
  · exact .refl c
  · refine ⟨?_, rfl, rfl, rfl, rfl⟩
    rw [held, held, List.map_map]
    refine List.map_congr_left fun r _ => ?_
    simp only [Function.comp_apply]
    split <;> rfl

omit [DecidableEq K] in
/-- Counting a look-up disturbs nothing. -/
theorem countLookup (c : Cache K V) (hit : Bool) : c.Undisturbed (c.countLookup hit) := by
  cases hit <;> exact ⟨rfl, rfl, rfl, rfl, rfl⟩

/-- Who asks for a key is counted, and may use a value or wait for a load. -/
theorem request (c : Cache K V) (key : K) : c.Undisturbed (c.request key).1 := by
  rcases c.request_cases key with ⟨r, -, request_eq⟩ | ⟨-, f, -, request_eq⟩
    | ⟨-, -, request_eq⟩ <;> rw [request_eq]
  · exact (touch c key).trans (countLookup _ true)
  · exact ⟨rfl, rfl, rfl, rfl, rfl⟩
  · exact ⟨rfl, rfl, rfl, rfl, rfl⟩

/-- Who gives up changes the register alone. -/
theorem withdraw (c : Cache K V) (key : K) (load : Nat) :
    c.Undisturbed (c.withdraw key load) := by
  rcases c.withdraw_cases key load with ⟨f, -, -, ⟨-, withdraw_eq⟩ | ⟨-, withdraw_eq⟩⟩
    | ⟨-, withdraw_eq⟩ <;> rw [withdraw_eq] <;> exact ⟨rfl, rfl, rfl, rfl, rfl⟩

end Undisturbed

end Cache

open Cache (Undisturbed)

/-- What an event does to a cache by its own operation. An event about a task or a load has none;
the cache is then as it was. -/
def Event.operate [DecidableEq K] (c : Cache K V) : Event K V E → Cache K V
  | .insert key value => c.insert key value
  | .get key => (c.get key).1
  | .invalidate key => (c.invalidate key).1
  | .clear => c.clear
  | .resetCounters => c.resetCounters
  | .start .. | .load .. | .poll _ | .drop _ | .resolve .. | .decideLoad .. => c

namespace Session

variable [DecidableEq K] {s s' : Session K V E} {e : Event K V E} {t : Task K} {c c' : Cache K V}

/-! ### The parts of an event -/

/-- Giving a task up disturbs nothing: at most the register changes. -/
theorem GivesUp.undisturbed (gives : s.GivesUp e c) : s.cache.Undisturbed c := by
  cases gives <;> exact ⟨rfl, rfl, rfl, rfl, rfl⟩

/-- Asking disturbs nothing, since a value that is found is stamped and stays. -/
theorem AsksFor.undisturbed (asks : s.AsksFor e c c') : c.Undisturbed c' := by
  cases asks with
  | nobody => exact .refl c
  | hit => exact (Undisturbed.touch c _).trans (.countLookup _ true)
  | joins => exact ⟨rfl, rfl, rfl, rfl, rfl⟩
  | starts => exact ⟨rfl, rfl, rfl, rfl, rfl⟩

/-- Of the looks only the first one that shows an outcome does anything to the values. -/
theorem Looks.undisturbed (looks : s.Looks e c c') (quiet : s.settles? e = none) :
    c.Undisturbed c' := by
  cases looks with
  | unnoticed => exact .refl c
  | leaves => exact ⟨rfl, rfl, rfl, rfl, rfl⟩
  | settles _ settles => cases quiet.symm.trans settles

/-! ### Events -/

/-- An event that shows no outcome for the first time does its own operation. Apart from that it
puts no value in, takes none out and counts no failure. -/
theorem Sound.undisturbed_of_quiet (h : s.Sound) (quiet : s.settles? e = none) :
    (e.operate s.cache).Undisturbed (s.step e).cache := by
  -- An event about a task has no operation of its own, and none of its three parts disturbs.
  have of_task (about : e.isTask = true) : s.cache.Undisturbed (s.step e).cache := by
    obtain ⟨c, c', gives, asks, looks⟩ := h.acts about
    exact gives.undisturbed.trans (asks.undisturbed.trans (looks.undisturbed quiet))
  cases e with
  | insert key value => exact .refl _
  | get key => exact .refl _
  | invalidate key => exact .refl _
  | clear => exact .refl _
  | resetCounters => exact .refl _
  | _ => exact of_task rfl

/-- Who waits has asked and found no value. This leaves the values alone. -/
theorem undisturbed_of_ask {key : K} {decided : Option (Except E V)} {result : V ⊕ Task K}
    (ask_eq : s.ask key decided = (s', result)) : s.cache.Undisturbed s'.cache := by
  have cache_eq := s.cache_ask key decided
  rw [ask_eq] at cache_eq
  exact cache_eq ▸ .request s.cache key

/-- Giving up a task by its name disturbs nothing. -/
theorem undisturbed_drop (s : Session K V E) (name : String) :
    s.cache.Undisturbed (s.drop name).1.cache := by
  rcases s.drop_cases name with ⟨-, drop_eq⟩ | ⟨t, -, drop_eq⟩ <;> rw [drop_eq]
  · exact .refl _
  · exact .withdraw s.cache t.key t.load

/-- Until the waiter of an event looks at its load, the values are left alone. -/
theorem undisturbed_of_look (looks : s.look? e = some (s', t)) :
    s.cache.Undisturbed s'.cache := by
  cases e with
  | start name key =>
      exact (s.undisturbed_drop name).trans (undisturbed_of_ask (waiter?_eq_some_iff.mp looks))
  | load key outcome => exact undisturbed_of_ask (waiter?_eq_some_iff.mp looks)
  | poll name =>
      obtain ⟨t', -, pair_eq⟩ := Option.map_eq_some_iff.mp looks
      cases pair_eq
      exact .refl _
  | _ => cases looks

end Session

end TileArchive
