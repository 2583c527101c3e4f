import TileArchive.Cache.Basic
import TileArchive.Reader.Lookup

/-!
# `TileArchive.Reader.Pool`: values that are loaded by reading

A pool is a cache together with the loads that its misses started. Whoever waits for a load
carries it on; the first to see its outcome reports it to the cache, and everyone who waits
gets the same outcome.

The cache numbers the loads that it starts, and the pool keeps each under its number. A load that
nobody waits for any more stays in the list and is never looked at again, since the cache gives out
its number to no one. Reporting an outcome twice is harmless: the cache takes note of the first
report only.
-/

set_option autoImplicit false

namespace TileArchive

/-- A load that was started. It runs until a task that waits for it looks at it without
having to wait for a read, and its outcome stays for those who look later. -/
inductive Load (V : Type) where
  | running (computation : Suspended (Except ReadError V))
  | finished (outcome : Except ReadError V)

/-- A cache and its loads by number. It is what directories and payloads each have one of.
The cache knows who waits for which load, and the loads know what is being read. -/
structure Pool (V : Type) where
  cache : Cache ByteRange V
  loads : List (Load V)

namespace Pool

variable {V : Type}

/-- A pool without loads. -/
def new (cache : Cache ByteRange V) : Pool V := ⟨cache, []⟩

/-- Carries a load on as far as a source allows, and returns its outcome if there is one. -/
def Load.poll (load : Load V) (s : Source) : Source × Load V × Option (Except ReadError V) :=
  match load with
  | .finished outcome => (s, .finished outcome, some outcome)
  | .running computation =>
    match computation.poll s with
    | (s, .inl outcome) => (s, .finished outcome, some outcome)
    | (s, .inr computation) => (s, .running computation, none)

/-- A waiter looks at the load of a range. -/
def look (p : Pool V) (range : ByteRange) (number : Nat) (s : Source) :
    Pool V × Source × Option (Except ReadError V) :=
  match p.loads[number]? with
  | none => (p, s, none)
  | some load =>
    match Load.poll load s with
    | (s, load, outcome) =>
      let p := { p with loads := p.loads.set number load }
      match outcome with
      | none => (p, s, none)
      | some outcome => ({ p with cache := p.cache.finish range number outcome }, s, some outcome)

/-- Asks for the value of a range: either it is there, or the caller waits for a load. -/
def ask (p : Pool V) (range : ByteRange) (load : Fetch (Except ReadError V)) :
    Pool V × (V ⊕ Nat) :=
  match p.cache.request range with
  | (cache, .hit value) => ({ p with cache }, .inl value)
  | (cache, .joined number) => ({ p with cache }, .inr number)
  | (cache, .started number) =>
    (⟨cache, p.loads ++ [.running (.fresh load)]⟩, .inr number)

/-- A waiter for the load of a range gives up. -/
def withdraw (p : Pool V) (range : ByteRange) (number : Nat) : Pool V :=
  { p with cache := p.cache.withdraw range number }

end Pool

end TileArchive
