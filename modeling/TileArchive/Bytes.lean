/-!
# `TileArchive.Bytes`: byte strings and machine words

An archive is a list of bytes. Numbers inside it are stored least significant byte first:
`Bytes.ofWord` writes a number in a fixed width and `Bytes.toWord` reads one back.

`Word.addSat` is the sum of two 64-bit words that stops at the largest word instead of
wrapping; positions computed from untrusted offsets use it. `Word.add?` and `Word.sub?` are
sum and difference as a machine computes them that checks its arithmetic: there is no result where
it does not fit. Plain `+` and `-` on words wrap, and stand only where wrapping is meant or cannot
happen.

A slice is cut off where the bytes end, so it may be shorter than asked for. Whoever needs exactly
so many bytes compares lengths first, as `Content.read` does.
-/

set_option autoImplicit false

namespace TileArchive

/-- A string of bytes. -/
abbrev Bytes := List UInt8

namespace Bytes

/-- The `width` low bytes of a number, least significant first. -/
def ofWord : Nat → Nat → Bytes
  | 0, _ => []
  | width + 1, n => UInt8.ofNat n :: ofWord width (n / 256)

/-- The number whose bytes are given, least significant first. -/
def toWord : Bytes → Nat
  | [] => 0
  | b :: bs => b.toNat + 256 * toWord bs

/-- The bytes from `start` on, at most `length` of them. -/
def slice (bs : Bytes) (start length : Nat) : Bytes :=
  (bs.drop start).take length

end Bytes

namespace Word

/-- The largest 64-bit word. -/
def largest : Nat := 18446744073709551615

/-- The value of the highest bit of a 64-bit word. -/
def topBit : Nat := 0x8000000000000000

/-- The largest 32-bit word. -/
def largest32 : Nat := 4294967295

/-- The sum of two words, or the largest word where the sum does not fit. -/
def addSat (a b : UInt64) : UInt64 :=
  UInt64.ofNat (Nat.min (a.toNat + b.toNat) largest)

/-- The sum of two words, if it fits a word. -/
def add? (a b : UInt64) : Option UInt64 :=
  if a.toNat + b.toNat ≤ largest then some (a + b) else none

/-- The difference of two words, if it is not negative. -/
def sub? (a b : UInt64) : Option UInt64 :=
  if b.toNat ≤ a.toNat then some (a - b) else none

end Word

end TileArchive
