import TileArchive.Bytes

/-!
# `TileArchive.Gzip.Bits`: a byte string read bit by bit

Compressed data is a sequence of bits, the lowest bit of each byte first. A `BitStream` is
what is left of it: the unread bits of the byte begun, and the bytes after it.

Numbers of several bits are written lowest bit first as well. Prefix codes are the exception
of the format: their bits come highest first, and `Code.symbolFrom?` reads them one by one.
Bytes that are stored as they are begin at a whole byte, and the bits before it are skipped;
`wholeBytes` is for them.
-/

set_option autoImplicit false

namespace TileArchive.Gzip

/-- The unread part of a sequence of bits. -/
structure BitStream where
  /-- The unread bits of the byte begun. -/
  begun : List Bool
  rest : Bytes
deriving DecidableEq, Repr

namespace BitStream

/-- The bits of a byte, lowest first. -/
def bitsOf (b : UInt8) : List Bool := (List.range 8).map b.toNat.testBit

/-- A sequence of which nothing has been read. -/
def ofBytes (bytes : Bytes) : BitStream := ⟨[], bytes⟩

/-- The number of unread bits. -/
def size (s : BitStream) : Nat := s.begun.length + 8 * s.rest.length

/-- The next bit. -/
def next? (s : BitStream) : Option (Bool × BitStream) :=
  match s.begun, s.rest with
  | bit :: begun, rest => some (bit, ⟨begun, rest⟩)
  | [], b :: rest => some (b.toNat.testBit 0, ⟨(bitsOf b).tail, rest⟩)
  | [], [] => none

/-- The number made of the next `count` bits, lowest first. -/
def number? : Nat → BitStream → Option (Nat × BitStream)
  | 0, s => some (0, s)
  | count + 1, s => do
    let (bit, s) ← s.next?
    let (high, s) ← number? count s
    return (bit.toNat + 2 * high, s)

/-- The bytes after the byte begun. -/
def wholeBytes (s : BitStream) : Bytes := s.rest

end BitStream

end TileArchive.Gzip
