/-!
# `TileArchive.Cache.Stats`: what a cache has done

`Counters` count what happened to a cache since they were last set to zero. `Stats` are the
counters together with what the cache holds.

Counts are natural numbers, where a running cache has 64-bit words that wrap. Statements
about them are about histories of fewer than `2 ^ 64` accesses, in which no word would wrap.
The weight of what was dropped is different: weights are given by the user and may be as
large as a word, so `evictedWeight` is a word and its sums wrap like one.

A look-up is a hit or a miss. A miss does not always start a load, because a load under way
is shared, so `loads` is at most `misses` and may be smaller. A load that fails is counted
once, however many waited for it.
-/

set_option autoImplicit false

namespace TileArchive

/-- What happened to a cache since it was made or its counters were last set to nothing. A
look-up is counted as a hit or as a miss when it is made, and a failed load when its outcome
is first seen. -/
structure Counters where
  /-- Look-ups answered by a resident value. -/
  hits : Nat
  /-- Look-ups that met no resident value. -/
  misses : Nat
  /-- Loads started. -/
  loads : Nat
  /-- Loads that failed. -/
  failures : Nat
  /-- Values dropped to get below the ceiling. -/
  evictions : Nat
  /-- The weight of the values dropped. -/
  evictedWeight : UInt64
deriving DecidableEq, Repr, Inhabited

namespace Counters

/-- Counters of a cache to which nothing has happened. -/
def zero : Counters := ⟨0, 0, 0, 0, 0, 0⟩

/-- A look-up, with or without a hit. -/
def lookup (c : Counters) (hit : Bool) : Counters :=
  if hit then { c with hits := c.hits + 1 } else { c with misses := c.misses + 1 }

/-- A load starts. -/
def load (c : Counters) : Counters := { c with loads := c.loads + 1 }

/-- A load fails. -/
def failure (c : Counters) : Counters := { c with failures := c.failures + 1 }

/-- A value of the given weight is dropped. -/
def eviction (c : Counters) (weight : UInt64) : Counters :=
  { c with evictions := c.evictions + 1, evictedWeight := c.evictedWeight + weight }

end Counters

/-- What a cache has done and what it holds. The entries and their weight are those of the
moment, so setting the counters to nothing does not change them. -/
structure Stats where
  counters : Counters
  /-- The number of resident values. -/
  entries : Nat
  /-- Their total weight. -/
  weight : UInt64
deriving DecidableEq, Repr, Inhabited

namespace Stats

/-- The stats of a cache that is empty and to which nothing has happened. -/
def zero : Stats := ⟨.zero, 0, 0⟩

/-- The share of look-ups that were hits; zero if there were none. It is for people to read,
and nothing is proved about it. -/
def hitRate (s : Stats) : Float :=
  let lookups := s.counters.hits + s.counters.misses
  if lookups = 0 then 0.0 else Float.ofNat s.counters.hits / Float.ofNat lookups

end Stats

end TileArchive
