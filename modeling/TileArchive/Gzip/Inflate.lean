import TileArchive.Gzip.Code

/-!
# `TileArchive.Gzip.Inflate`: undoing the compression

Compressed data is a sequence of blocks, the last of which is marked. A block holds bytes as
they are, or symbols in a prefix code that is either fixed or described at its start. A
symbol is a byte, the end of the block, or the length of a stretch that is repeated from
some distance back; what lies before the first byte counts as zeros.

* `inflate` undoes the compression and returns the bytes after the last block. It stops as
  soon as more than `maxContent` bytes were produced.
* `storeBlocks` writes bytes as they are, in as many blocks as needed; `inflate` gives them
  back.

## What is assumed

The format is the published one of deflated data, with its fixed tables of lengths,
distances and code orders. Beyond the format, three choices of the decoder are followed:

* A description of codes is refused unless its codes use up all sequences of bits. A code of
  at most one symbol is the exception the format makes.
* A distance that reaches before the first byte is not an error and reads zeros.
* Decoding is deterministic and looks at nothing but the bytes.

What theorems about archives use of this module is small. `Proofs/Gzip.lean` proves that
what `gzip` packs is unpacked again. Where any other packing may be meant it is a parameter,
and the theorem asks that unpacking undoes it.
-/

set_option autoImplicit false

namespace TileArchive.Gzip

/-- What has been produced so far. -/
abbrev Output := Array UInt8

/-- The most bytes that are produced from compressed data. -/
def maxContent : Nat := 1073741824

/-- Smallest length and number of extra bits for each length symbol. -/
def lengthTable : List (Nat × Nat) :=
  [(3, 0), (4, 0), (5, 0), (6, 0), (7, 0), (8, 0), (9, 0), (10, 0), (11, 1), (13, 1), (15, 1),
    (17, 1), (19, 2), (23, 2), (27, 2), (31, 2), (35, 3), (43, 3), (51, 3), (59, 3), (67, 4),
    (83, 4), (99, 4), (115, 4), (131, 5), (163, 5), (195, 5), (227, 5), (258, 0)]

/-- Smallest distance and number of extra bits for each distance symbol. -/
def distanceTable : List (Nat × Nat) :=
  [(1, 0), (2, 0), (3, 0), (4, 0), (5, 1), (7, 1), (9, 2), (13, 2), (17, 3), (25, 3), (33, 4),
    (49, 4), (65, 5), (97, 5), (129, 6), (193, 6), (257, 7), (385, 7), (513, 8), (769, 8),
    (1025, 9), (1537, 9), (2049, 10), (3073, 10), (4097, 11), (6145, 11), (8193, 12),
    (12289, 12), (16385, 13), (24577, 13)]

/-- The order in which the lengths of the codes for code lengths are written. -/
def lengthOrder : List Nat :=
  [16, 17, 18, 0, 8, 7, 9, 6, 10, 5, 11, 4, 12, 3, 13, 2, 14, 1, 15]

/-- The number that a symbol of a table and its extra bits stand for. -/
def extended? (table : List (Nat × Nat)) (symbol : Nat) (s : BitStream) :
    Option (Nat × BitStream) := do
  let (base, extra) ← table[symbol]?
  let (more, s) ← s.number? extra
  return (base + more, s)

/-- The byte `distance` back. Before the first byte there are zeros. -/
def byteBack (distance : Nat) (out : Output) : UInt8 :=
  if distance ≤ out.size then out.getD (out.size - distance) 0 else 0

/-- Repeats `count` bytes from `distance` back. -/
def repeatBack : (count : Nat) → (distance : Nat) → Output → Output
  | 0, _, out => out
  | count + 1, distance, out => repeatBack count distance (out.push (byteBack distance out))

/-- Reads symbols up to the end of the block, or until too many bytes were produced. The
first argument bounds their number; every symbol takes at least one bit, so the number of
bits that are left is bound enough. -/
def inflateSymbols (literals distances : Code) :
    Nat → BitStream → Output → Option (BitStream × Output)
  | 0, _, _ => none
  | steps + 1, s, out => do
    -- What follows is not looked at, so it may as well be broken.
    if maxContent < out.size then return (s, out)
    let (symbol, s) ← literals.symbol? s
    if symbol < 256 then inflateSymbols literals distances steps s (out.push (UInt8.ofNat symbol))
    else if symbol = 256 then return (s, out)
    else
      let (length, s) ← extended? lengthTable (symbol - 257) s
      let (symbol, s) ← distances.symbol? s
      let (distance, s) ← extended? distanceTable symbol s
      inflateSymbols literals distances steps s (repeatBack length distance out)

/-- The fixed code for bytes and lengths. -/
def fixedLiterals? : Option Code :=
  Code.ofLengths? false (List.replicate 144 8 ++ List.replicate 112 9 ++ List.replicate 24 7
    ++ List.replicate 8 8)

/-- The fixed code for distances. -/
def fixedDistances? : Option Code :=
  Code.ofLengths? false (List.replicate 32 5)

/-- Reads `count` code lengths of three bits each. -/
def readTriples : Nat → BitStream → Option (List Nat × BitStream)
  | 0, s => some ([], s)
  | count + 1, s => do
    let (n, s) ← s.number? 3
    let (ns, s) ← readTriples count s
    return (n :: ns, s)

/-- Reads code lengths until there are `total`, the last first in `found`. Some symbols
repeat the length before or the length zero. -/
def readLengths (code : Code) (total : Nat) :
    Nat → BitStream → (found : List Nat) → Option (List Nat × BitStream)
  | 0, _, _ => none
  | steps + 1, s, found => do
    if total < found.length then none
    else if found.length = total then return (found.reverse, s)
    else
      let (symbol, s) ← code.symbol? s
      if symbol < 16 then readLengths code total steps s (symbol :: found)
      else if symbol = 16 then
        let previous ← found.head?
        let (more, s) ← s.number? 2
        readLengths code total steps s (List.replicate (3 + more) previous ++ found)
      else if symbol = 17 then
        let (more, s) ← s.number? 3
        readLengths code total steps s (List.replicate (3 + more) 0 ++ found)
      else
        let (more, s) ← s.number? 7
        readLengths code total steps s (List.replicate (11 + more) 0 ++ found)

/-- Reads the description of a block's codes. -/
def readCodes (s : BitStream) : Option (Code × Code × BitStream) := do
  let (literalCount, s) ← s.number? 5
  let (distanceCount, s) ← s.number? 5
  let (lengthCount, s) ← s.number? 4
  let literalCount := literalCount + 257
  let distanceCount := distanceCount + 1
  if 286 < literalCount ∨ 30 < distanceCount then none
  let (triples, s) ← readTriples (lengthCount + 4) s
  let lengthOf (symbol : Nat) : Nat :=
    (triples.zip lengthOrder).foldl (fun found p => if p.2 = symbol then p.1 else found) 0
  let code ← Code.ofLengths? false ((List.range 19).map lengthOf)
  let total := literalCount + distanceCount
  let (lengths, s) ← readLengths code total (total + 1) s []
  let literals ← Code.ofLengths? true (lengths.take literalCount)
  let distances ← Code.ofLengths? true (lengths.drop literalCount)
  return (literals, distances, s)

/-- Reads a block of bytes as they are. Their number is written twice, the second time with
all bits reversed. -/
def inflateStored (s : BitStream) (out : Output) : Option (BitStream × Output) :=
  match s.wholeBytes with
  | a :: b :: c :: d :: rest =>
    let count := Bytes.toWord [a, b]
    -- A number and the one with all bits reversed have all bits set between them.
    if count + Bytes.toWord [c, d] ≠ 65535 then none
    else if rest.length < count then none
    else some (.ofBytes (rest.drop count), out ++ (rest.take count).toArray)
  | _ => none

/-- Reads the content of a block of the given kind. -/
def inflateBlock (kind : Nat) (s : BitStream) (out : Output) : Option (BitStream × Output) :=
  match kind with
  | 0 => inflateStored s out
  | 1 => do inflateSymbols (← fixedLiterals?) (← fixedDistances?) (s.size + 1) s out
  | 2 => do
    let (literals, distances, s) ← readCodes s
    inflateSymbols literals distances (s.size + 1) s out
  | _ => none

/-- Reads blocks up to the last, or until too many bytes were produced. The first argument
bounds their number. -/
def inflateBlocks : Nat → BitStream → Output → Option (BitStream × Output)
  | 0, _, _ => none
  | steps + 1, s, out => do
    let (last, s) ← s.next?
    let (kind, s) ← s.number? 2
    let (s, out) ← inflateBlock kind s out
    if last ∨ maxContent < out.size then return (s, out) else inflateBlocks steps s out

/-- Undoes the compression, and returns the bytes after the last block. -/
def inflate (data : Bytes) : Option (Bytes × Bytes) := do
  let s := BitStream.ofBytes data
  let (s, out) ← inflateBlocks (s.size + 1) s #[]
  return (out.toList, s.wholeBytes)

/-! ## Writing bytes as they are -/

/-- The most bytes that one block holds as they are. -/
def storedLimit : Nat := 65535

/-- One block of bytes as they are. -/
def storeBlock (last : Bool) (bytes : Bytes) : Bytes :=
  (if last then 1 else 0) :: (Bytes.ofWord 2 bytes.length
    ++ Bytes.ofWord 2 (storedLimit - bytes.length) ++ bytes)

/-- Bytes as they are, in as many blocks as needed. -/
def storeBlocks (bytes : Bytes) : Bytes :=
  if bytes.length ≤ storedLimit then storeBlock true bytes
  else storeBlock false (bytes.take storedLimit) ++ storeBlocks (bytes.drop storedLimit)
termination_by bytes.length
decreasing_by
  simp only [List.length_drop, storedLimit] at *
  omega

end TileArchive.Gzip
