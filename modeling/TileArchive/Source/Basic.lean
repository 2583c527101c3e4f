import TileArchive.ByteRange
import TileArchive.Source.Error

/-!
# `TileArchive.Source.Basic`: where the bytes of an archive come from

A source answers every read with exactly the bytes asked for, or with an error.

* `Content.read` reads from bytes at hand. A read that reaches past their end fails, also
  where its end does not fit a word.
* A `Source` adds what may happen on the way: reads may have to wait while the source is
  held, and a read may be disturbed. Disturbances are queued, and a read takes the first one
  at the moment it goes on. The source keeps a log of the reads that were begun.

A read is begun and goes on later. It is in the log from the moment it is begun, whether or not
anyone waits for its answer, so the log is what the archive was asked for. Where the source is not
held both happen at once.

The rule by which a source answers does not change. A disturbance is for one read: the next read
of the same range is answered by the rule again, unless it meets a disturbance of its own.
-/

set_option autoImplicit false

namespace TileArchive

namespace Content

/-- Reads a range of some bytes. -/
def read (bytes : Bytes) (range : ByteRange) : Except IoError Bytes :=
  if range.offset.toNat + range.length.toNat ≤ bytes.length then
    .ok (Bytes.slice bytes range.offset.toNat range.length.toNat)
  else
    .error (.of .unexpectedEof
      s!"Read beyond source bounds: {range.offset.toNat} + {range.length.toNat} > {bytes.length}")

end Content

/-- What may happen to a read. Disturbances are put into a queue and taken from its front,
one for each read that comes to its end. -/
inductive Disturbance where
  /-- The read fails. -/
  | fail (error : IoError)
  /-- The read gives this many bytes fewer than asked for. -/
  | short (missing : Nat)
deriving DecidableEq, Repr

/-- The answer to a read that meets a disturbance. -/
def Disturbance.apply : Disturbance → Except IoError Bytes → Except IoError Bytes
  | .fail error, _ => .error error
  | .short _, .error error => .error error
  | .short missing, .ok bytes => .ok (bytes.take (bytes.length - missing))

/-- A source of bytes and the state it is in. What bytes there are is a function, so
archives in memory, files and servers are alike to a reader. The log tells which reads were
begun and in which order. -/
structure Source where
  /-- What an undisturbed read is answered with. -/
  answer : ByteRange → Except IoError Bytes
  /-- The disturbances of the reads to come. -/
  queue : List Disturbance
  /-- Whether reads have to wait. -/
  held : Bool
  /-- The reads begun, the last one first. -/
  log : List ByteRange

namespace Source

/-- A source of bytes at hand. -/
def ofBytes (bytes : Bytes) : Source := ⟨Content.read bytes, [], false, []⟩

/-- A source that answers every read with bytes by a rule of its own. -/
def ofAnswer (answer : ByteRange → Except IoError Bytes) : Source := ⟨answer, [], false, []⟩

/-- Queues a disturbance. -/
def disturb (s : Source) (d : Disturbance) : Source := { s with queue := s.queue ++ [d] }

/-- Makes reads wait, or lets them go on. -/
def hold (s : Source) (held : Bool) : Source := { s with held }

/-- A read is begun. -/
def start (s : Source) (range : ByteRange) : Source := { s with log := range :: s.log }

/-- A read goes on and is answered. -/
def finish (s : Source) (range : ByteRange) : Source × Except IoError Bytes :=
  match s.queue with
  | [] => (s, s.answer range)
  | d :: queue => ({ s with queue }, d.apply (s.answer range))

/-- The reads begun, in order. -/
def reads (s : Source) : List ByteRange := s.log.reverse

end Source

end TileArchive
