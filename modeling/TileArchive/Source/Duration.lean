import TileArchive.Json.Record

/-!
# `TileArchive.Source.Duration`: spans of time

A span of time is a number of seconds and of billionths of a second, the latter below one
second. In JSON it is a record of both; more billionths than a second has are carried over.
-/

set_option autoImplicit false

namespace TileArchive

open Json

/-- A span of time. Nothing here waits, so a span is only read, checked and printed. -/
structure Duration where
  seconds : UInt64
  /-- Billionths of a second, fewer than a second has. -/
  nanos : UInt32
deriving DecidableEq, Repr, Inhabited

namespace Duration

/-- The number of billionths in a second. -/
def nanosPerSecond : Nat := 1000000000

/-- A number of whole seconds. -/
def ofSeconds (seconds : UInt64) : Duration := ⟨seconds, 0⟩

/-- A number of thousandths of a second. -/
def ofMillis (millis : UInt64) : Duration :=
  ⟨UInt64.ofNat (millis.toNat / 1000), UInt32.ofNat (millis.toNat % 1000 * 1000000)⟩

/-- Whether no time passes. -/
def isZero (d : Duration) : Bool := d.seconds == 0 && d.nanos == 0

/-- The sum of seconds and billionths, unless it has too many seconds. -/
def carry? (seconds nanos : Nat) : Option Duration :=
  let whole := seconds + nanos / nanosPerSecond
  if Word.largest < whole then none
  else some ⟨UInt64.ofNat whole, UInt32.ofNat (nanos % nanosPerSecond)⟩

/-- Reads a span of time from JSON. -/
def read? {α : Type} [Viewable α] (a : α) : Option Duration := do
  match ← closedRecord? ["secs", "nanos"] a with
  | [some seconds, some nanos] =>
    carry? (← natural? Word.largest seconds) (← natural? Word.largest32 nanos)
  | _ => none

/-- The span as a JSON value. -/
def value (d : Duration) : Value :=
  .object [("secs", .number (.natural d.seconds)),
    ("nanos", .number (.natural d.nanos.toUInt64))]

end Duration

end TileArchive
