import TileArchive.Cache.Config
import TileArchive.Cache.Stats

/-!
# `TileArchive.Cache.Basic`: a cache with a weight ceiling and shared loads

A cache holds values by key. Every value has a weight, and the total weight has a ceiling.
Each use of a value is stamped with the next tick of a clock. When an insertion lifts the
weight above the ceiling, values are dropped in the order of their stamps until the weight
is at or below the eviction target.

* `get` and `insert` look a value up and put one in. A value heavier than the ceiling is not
  put in, and what the cache held under its key stays.
* `invalidate` and `clear` take values out. They do not count as evictions.

A value that is not there may be loaded. The cache does not run loads. It keeps a register
of the loads under way, each known by a number, with the number of those who wait for it:

* `request` looks a value up. On a miss the caller joins the load of the key that is under
  way, or has to start one under a new number.
* `finish` is called by a waiter who has seen the outcome of the load. The first of them
  puts the value in or counts the failure, and takes the load off the register. For the
  others the load is no longer registered, and nothing happens.
* `withdraw` is called by a waiter who gives up. When the last one does, the load is taken
  off the register.

## What is a word and what is a number

Weights are 64-bit words, and so is the total: it is kept by wrapping additions and
subtractions, and a value that is replaced or taken out is subtracted again. The total is
therefore the sum of the weights held modulo `2 ^ 64` and nothing more
(`Proofs/Cache/Weight.lean`).

The clock, the stamps, the numbers of loads and the counters are natural numbers. A cache
that runs keeps them in 64-bit words that wrap. The two agree as long as a history has fewer
than `2 ^ 64` accesses, and such histories are meant wherever a stamp or a count is compared.

## One access at a time

Every operation here is one step from a cache to a cache. Stamps, total weight and register
change together with the values, so histories of a cache are sequences of such steps.
Sharing between tasks is modelled one level up, in `Cache/Session.lean`.
-/

set_option autoImplicit false

namespace TileArchive

/-- A value that a cache holds. Its weight is taken when it is put in and is not computed
again, so that what an eviction subtracts is what the insertion added. -/
structure Resident (K V : Type) where
  key : K
  value : V
  weight : UInt64
  /-- The stamp of the last use. -/
  lastUse : Nat
deriving DecidableEq, Repr

/-- A load under way. The number tells apart loads of the same key that follow each other: a
waiter of an old load names the old number and cannot disturb the new one. -/
structure Flight (K : Type) where
  key : K
  /-- The number of the load. -/
  load : Nat
  /-- How many wait for it. -/
  waiters : Nat
deriving DecidableEq, Repr

/-- A cache and the register of its loads. `residents` has at most one value per key and
`flights` at most one load per key; `Session.Sound` carries both through every history. -/
structure Cache (K V : Type) where
  config : CacheConfig
  /-- The weight of a value. -/
  weigh : K → V → UInt64
  /-- The values held. -/
  residents : List (Resident K V)
  /-- The total weight of the values held; a sum of words that wraps like one. -/
  weight : UInt64
  /-- The next stamp. -/
  clock : Nat
  /-- The loads under way. -/
  flights : List (Flight K)
  /-- The number of the next load. -/
  nextLoad : Nat
  counters : Counters

/-- What a request comes to. The number in the last two cases is the one under which the
caller has to report the outcome, or that it gives up. The cache itself never calls a
loader: it only tells the caller that there is something to do. -/
inductive Reply (V : Type) where
  /-- The value is there. -/
  | hit (value : V)
  /-- A load of the key was under way. -/
  | joined (load : Nat)
  /-- The caller has to start a load. -/
  | started (load : Nat)
deriving DecidableEq, Repr

namespace Cache

variable {K V E : Type} [DecidableEq K]

/-- An empty cache. -/
def empty (config : CacheConfig) (weigh : K → V → UInt64) : Cache K V where
  config
  weigh
  residents := []
  weight := 0
  clock := 0
  flights := []
  nextLoad := 0
  counters := .zero

/-- An empty cache with the given bounds, if they make sense. -/
def new? (config : CacheConfig) (weigh : K → V → UInt64) :
    Except CacheConfigError (Cache K V) :=
  config.validate.map fun _ => empty config weigh

/-! ## Values -/

/-- The value held under a key, with weight and stamp. -/
def resident? (c : Cache K V) (key : K) : Option (Resident K V) :=
  c.residents.find? fun r => r.key = key

/-- Whether a value is held under a key. -/
def contains (c : Cache K V) (key : K) : Bool := (c.resident? key).isSome

/-- The number of values held. -/
def size (c : Cache K V) : Nat := c.residents.length

/-- What the cache has done and what it holds. -/
def stats (c : Cache K V) : Stats := ⟨c.counters, c.size, c.weight⟩

/-- Sets the counters to zero. -/
def resetCounters (c : Cache K V) : Cache K V := { c with counters := .zero }

/-- Uses the value held under a key: its stamp becomes the present tick and the clock moves
on. A key that is not held leaves the clock alone. -/
def touch (c : Cache K V) (key : K) : Cache K V × Option V :=
  match c.resident? key with
  | none => (c, none)
  | some found =>
    let stamp (r : Resident K V) : Resident K V :=
      if r.key = key then { r with lastUse := c.clock } else r
    ({ c with residents := c.residents.map stamp, clock := c.clock + 1 }, some found.value)

/-- Counts a look-up. -/
def countLookup (c : Cache K V) (hit : Bool) : Cache K V :=
  { c with counters := c.counters.lookup hit }

/-- The value held under a key. Counts as a look-up and, where it finds something, as a use. -/
def get (c : Cache K V) (key : K) : Cache K V × Option V :=
  let (c, value) := c.touch key
  (c.countLookup value.isSome, value)

/-- The values held under other keys. -/
def others (c : Cache K V) (key : K) : List (Resident K V) :=
  c.residents.filter fun r => r.key ≠ key

/-- Drops a value to get below the ceiling. Its weight goes to the counters, so that weight
put in can be accounted for by weight held and weight dropped. -/
def evict (c : Cache K V) (r : Resident K V) : Cache K V :=
  { c with
    residents := c.others r.key
    weight := c.weight - r.weight
    counters := c.counters.eviction r.weight }

/-- Drops values in the given order until the weight is at or below the eviction target. The
weight is looked at before each drop, so no value is dropped once the target is reached. -/
def evictInOrder (c : Cache K V) : List (Resident K V) → Cache K V
  | [] => c
  | r :: rs => if c.weight ≤ c.config.evictionTarget then c else (c.evict r).evictInOrder rs

/-- The values held, in the order of their last use. -/
def byLastUse (c : Cache K V) : List (Resident K V) :=
  c.residents.mergeSort fun a b => a.lastUse ≤ b.lastUse

/-- Drops values where the weight is above the ceiling. The target may be lower than the
ceiling, and all values may go, the newest last. -/
def shrink (c : Cache K V) : Cache K V :=
  if c.weight ≤ c.config.maxWeight then c else c.evictInOrder c.byLastUse

/-- Puts a value of the given weight in, whatever the ceiling. -/
def put (c : Cache K V) (key : K) (value : V) (weight : UInt64) : Cache K V :=
  let replaced := ((c.resident? key).map Resident.weight).getD 0
  { c with
    residents := ⟨key, value, weight, c.clock⟩ :: c.others key
    weight := c.weight - replaced + weight
    clock := c.clock + 1 }

/-- Puts a value in, unless it is heavier than the ceiling. The new value has the latest
stamp and is dropped last if the weight has to be brought down. -/
def insert (c : Cache K V) (key : K) (value : V) : Cache K V :=
  let weight := c.weigh key value
  -- A value that is too heavy leaves even an older one under its key alone.
  if c.config.maxWeight < weight then c else (c.put key value weight).shrink

/-- Takes the value held under a key out, and says whether there was one. -/
def invalidate (c : Cache K V) (key : K) : Cache K V × Bool :=
  match c.resident? key with
  | none => (c, false)
  | some r => ({ c with residents := c.others key, weight := c.weight - r.weight }, true)

/-- Takes all values out. The weights are subtracted one by one, as they were added. -/
def clear (c : Cache K V) : Cache K V :=
  { c with
    residents := []
    weight := c.residents.foldl (fun weight r => weight - r.weight) c.weight }

/-! ## Loads -/

/-- The load of a key that is under way. -/
def flight? (c : Cache K V) (key : K) : Option (Flight K) :=
  c.flights.find? fun f => f.key = key

/-- The number of loads under way. -/
def inFlight (c : Cache K V) : Nat := c.flights.length

/-- Takes the load of a key off the register. -/
def dropFlight (c : Cache K V) (key : K) : Cache K V :=
  { c with flights := c.flights.filter fun f => f.key ≠ key }

/-- Changes the number of those who wait for the load of a key. -/
def setWaiters (c : Cache K V) (key : K) (waiters : Nat) : Cache K V :=
  { c with
    flights := c.flights.map fun f => if f.key = key then { f with waiters } else f }

/-- Registers a new load of a key with one waiter. -/
def startFlight (c : Cache K V) (key : K) : Cache K V :=
  { c with
    flights := ⟨key, c.nextLoad, 1⟩ :: c.flights
    nextLoad := c.nextLoad + 1
    counters := c.counters.load }

/-- Looks a value up, and on a miss joins or registers a load. A miss counts as a look-up
whether or not it starts a load. -/
def request (c : Cache K V) (key : K) : Cache K V × Reply V :=
  match c.touch key with
  | (c, some value) => (c.countLookup true, .hit value)
  | (c, none) =>
    let c := c.countLookup false
    -- A load that is under way is shared, so that no key is loaded twice at a time.
    match c.flight? key with
    | some f => (c.setWaiters key (f.waiters + 1), .joined f.load)
    | none => (c.startFlight key, .started c.nextLoad)

/-- A waiter for a load of a key has seen its outcome. Only the first report of a load that
is still registered has an effect. -/
def finish (c : Cache K V) (key : K) (load : Nat) (outcome : Except E V) : Cache K V :=
  match c.flight? key with
  | some f =>
    -- The key may have been taken up by a later load, which this outcome says nothing about.
    if f.load = load then
      match outcome with
      | .ok value => (c.insert key value).dropFlight key
      | .error _ => { c.dropFlight key with counters := c.counters.failure }
    else c
  | none => c

/-- A waiter for a load of a key gives up. Giving up a load that is no longer registered, or
whose number is not the registered one, changes nothing. -/
def withdraw (c : Cache K V) (key : K) (load : Nat) : Cache K V :=
  match c.flight? key with
  | some f =>
    if f.load = load then
      -- Nobody is left to carry the load on.
      if f.waiters ≤ 1 then c.dropFlight key else c.setWaiters key (f.waiters - 1)
    else c
  | none => c

/-- The cache as shown to people. -/
def display (c : Cache K V) : String :=
  s!"BoundedCache \x7b config: {c.config.display}, entries: {c.size}, "
    ++ s!"weight: {c.weight.toNat}, .. \x7d"

end Cache

end TileArchive
