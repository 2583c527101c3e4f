import TileArchive.Json.Record

/-!
# `TileArchive.Cache.Config`: how much a cache may hold

A cache is bounded by the total weight of what it holds. When the weight exceeds the ceiling,
values that were not used for long are dropped until the weight is at or below a share of
the ceiling, so that not every insertion has to drop something.

The share is computed in natural numbers, where the product of ceiling and percentage cannot
overflow, and rounded down. `CacheConfig.validate` refuses a ceiling of zero and a percentage that
is zero or above one hundred. A cache can be made with bounds that were not checked; a percentage
above one hundred then counts as one hundred.
-/

set_option autoImplicit false

namespace TileArchive

open Json

/-- The bounds of a cache. Where the ceiling is exceeded, values are dropped until the
weight is down to the given share of it, so that the next insertions have room and need not
drop anything. -/
structure CacheConfig where
  /-- The ceiling: the largest total weight. -/
  maxWeight : UInt64
  /-- The share of the ceiling, in percent, that dropping stops at. -/
  evictToPercent : UInt8
deriving DecidableEq, Repr, Inhabited

/-- Why the bounds of a cache are refused: nothing would ever have room, or the share that
dropping is to stop at is no percentage. -/
inductive CacheConfigError where
  | zeroWeight
  | badPercent (percent : UInt8)
deriving DecidableEq, Repr

/-- What is wrong with the bounds of a cache. -/
def CacheConfigError.reason : CacheConfigError → String
  | .zeroWeight => "max_weight must be greater than 0"
  | .badPercent percent => s!"evict_to_percent must be within 1..=100, got {percent.toNat}"

/-- The text of a cache error. -/
def CacheConfigError.message (e : CacheConfigError) : String :=
  "Invalid cache configuration: " ++ e.reason

namespace CacheConfig

/-- The bounds used unless others are given. -/
def standard : CacheConfig := ⟨1000000000, 90⟩

/-- Checks that the bounds make sense. -/
def validate (c : CacheConfig) : Except CacheConfigError Unit :=
  if c.maxWeight = 0 then .error .zeroWeight
  else if c.evictToPercent = 0 ∨ 100 < c.evictToPercent then
    .error (.badPercent c.evictToPercent)
  else .ok ()

/-- The weight at which dropping stops: the share of the ceiling, rounded down. A percentage
above one hundred counts as one hundred. -/
def evictionTarget (c : CacheConfig) : UInt64 :=
  UInt64.ofNat (c.maxWeight.toNat * Nat.min c.evictToPercent.toNat 100 / 100)

/-- Reads bounds from JSON. -/
def read? {α : Type} [Viewable α] (a : α) : Option CacheConfig := do
  match ← record? ["max_weight", "evict_to_percent"] a with
  | [some weight, some percent] =>
    return ⟨UInt64.ofNat (← natural? Word.largest weight),
      UInt8.ofNat (← natural? 255 percent)⟩
  | _ => none

/-- The bounds as a JSON value. -/
def value (c : CacheConfig) : Value :=
  .object [("max_weight", .number (.natural c.maxWeight)),
    ("evict_to_percent", .number (.natural c.evictToPercent.toUInt64))]

/-- The bounds as shown to people. -/
def display (c : CacheConfig) : String :=
  s!"CacheConfig \x7b max_weight: {c.maxWeight.toNat}, "
    ++ s!"evict_to_percent: {c.evictToPercent.toNat} \x7d"

end CacheConfig

end TileArchive
