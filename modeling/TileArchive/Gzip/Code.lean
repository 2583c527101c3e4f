import TileArchive.Gzip.Bits

/-!
# `TileArchive.Gzip.Code`: prefix codes given by their lengths

Compressed data writes symbols with codes of different lengths, no code being the start of
another. The lengths alone determine the codes: shorter ones come first, and of one length
the codes follow the order of the symbols.

`Code.ofLengths?` makes a code of lengths. Every sequence of bits has to begin with a code or
be the start of one. Where `sparse` allows it, a code may also have no symbols at all, or a
single one whose code is one bit long.

A code is kept as the format describes it, by how many codes there are of each length and by
the symbols in the order of their codes. Reading a symbol goes through the lengths one by
one and needs no table: after `n` bits, the value of the bits either falls among the codes
of length `n`, and then its place among them gives the symbol, or it is the start of a
longer code. A sequence of bits that no code begins is reported as `none`, and so is one
that ends in the middle of a code.
-/

set_option autoImplicit false

namespace TileArchive.Gzip

/-- A prefix code. -/
structure Code where
  /-- How many codes there are of length one, two, and so on up to fifteen. -/
  counts : List Nat
  /-- The symbols in the order of their codes. -/
  symbols : Array Nat
deriving Repr

namespace Code

/-- The longest code. -/
def maxLength : Nat := 15

/-- The symbols whose codes have the given length. -/
def symbolsOfLength (lengths : List Nat) (length : Nat) : List Nat :=
  lengths.zipIdx.filterMap fun (l, symbol) => if l = length then some symbol else none

/-- The share of all bit sequences that start with a code, in units of `2 ^ -15`. -/
def share : List Nat → Nat → Nat
  | [], _ => 0
  | count :: counts, unit => count * unit + share counts (unit / 2)

/-- The code whose symbols, from zero on, have codes of the given lengths; length zero means
that a symbol does not occur. -/
def ofLengths? (sparse : Bool) (lengths : List Nat) : Option Code :=
  let groups := (List.range maxLength).map fun i => symbolsOfLength lengths (i + 1)
  let counts := groups.map List.length
  let symbols := groups.flatten
  let lone := symbols.length = 0 ∨ (symbols.length = 1 ∧ counts.head? = some 1)
  if share counts 16384 = 32768 ∨ (sparse ∧ lone) then
    some ⟨counts, symbols.toArray⟩
  else none

/-- Reads on after some bits. `code` is their value times two, `first` the value of the first
code of the length now looked at, and `index` the number of shorter codes. -/
def symbolFrom? (symbols : Array Nat) :
    List Nat → (code first index : Nat) → BitStream → Option (Nat × BitStream)
  | [], _, _, _, _ => none
  | count :: counts, code, first, index, s => do
    let (bit, s) ← s.next?
    let code := code + bit.toNat
    if code < first + count then
      let symbol ← symbols[index + (code - first)]?
      return (symbol, s)
    else symbolFrom? symbols counts (2 * code) (2 * (first + count)) (index + count) s

/-- The symbol whose code comes next. -/
def symbol? (c : Code) (s : BitStream) : Option (Nat × BitStream) :=
  symbolFrom? c.symbols c.counts 0 0 0 s

end Code

end TileArchive.Gzip
