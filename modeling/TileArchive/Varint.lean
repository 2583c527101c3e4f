import TileArchive.Bytes

/-!
# `TileArchive.Varint`: numbers of varying length

A 64-bit word is written in groups of seven bits, the lowest group first. Every byte but
the last has its top bit set, so small numbers take one byte and no word takes more than
ten. The tenth byte holds the one bit that nine groups leave over.

* `Varint.encode` writes the shortest form.
* `Varint.decode` reads one number from the front of a byte string and returns the rest.
  It also accepts longer forms than the shortest, up to ten bytes.

Reading goes on in natural numbers: `decodeFrom` carries along how many bytes it has read and what
they are worth, and makes a word of it at the end. No bit is lost there, because nine groups have
63 bits and a tenth group above one is refused before it is added.

A number that is too long is reported even if the data ends right behind its tenth byte, and a
number that is cut before that is reported as truncated.
-/

set_option autoImplicit false

namespace TileArchive.Varint

/-- Why no number stands at the front of a byte string. -/
inductive Flaw where
  /-- The data ends before a byte without the top bit. -/
  | truncated
  /-- The number does not end within ten bytes or does not fit a word. -/
  | overflow
deriving DecidableEq, Repr

/-- The largest number of bytes a word takes. -/
def maxLength : Nat := 10

/-- Reads on after `index` bytes that together are worth `value`. The tenth byte may only
carry the top bit of a word, and nothing may follow it. -/
def decodeFrom : Nat → Nat → Bytes → Except Flaw (UInt64 × Bytes)
  | _, _, [] => .error .truncated
  | index, value, b :: rest =>
    let group := b.toNat % 128
    if index + 1 = maxLength ∧ 1 < group then .error .overflow
    else if b.toNat < 128 then
      .ok (UInt64.ofNat (value + group * Nat.pow 128 index), rest)
    else if maxLength ≤ index + 1 then .error .overflow
    else decodeFrom (index + 1) (value + group * Nat.pow 128 index) rest

/-- Reads one number from the front of a byte string. -/
def decode (bytes : Bytes) : Except Flaw (UInt64 × Bytes) :=
  decodeFrom 0 0 bytes

/-- The groups of a natural number, lowest first, all but the last with the top bit. -/
def encodeNat (n : Nat) : Bytes :=
  if n < 128 then [UInt8.ofNat n]
  else UInt8.ofNat (n % 128 + 128) :: encodeNat (n / 128)
decreasing_by omega

/-- The shortest form of a word. -/
def encode (value : UInt64) : Bytes :=
  encodeNat value.toNat

end TileArchive.Varint
