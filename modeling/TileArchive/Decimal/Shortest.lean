/-!
# `TileArchive.Decimal.Shortest`: the fewest digits that read back

A binary fraction of limited precision stands for all real numbers nearer to it than to its
neighbours. Among the decimal numbers of `n` digits at most two matter: those next to it on
either side. `Decimal.shortest` tries one digit, two digits and so on until one of them lies
among the numbers the fraction stands for. Of two that do it takes the nearer, of two
equally near the one with the even last digit.

Everything is exact arithmetic on natural numbers. A fraction is given by its bits, as
double precision lays them out.

## What is assumed

Printers of doubles promise the fewest digits that read back to the same double, and among
these the digits nearest to it. This determines the digits of every double, and the search
below finds them from that description alone; it does not repeat the steps of any particular
fast printer. Where a double is even, the ends of its neighbourhood read back to it as well,
because ties are rounded to even; `Neighbourhood.closed` says so.

Where the digits are printed, with point or exponent, is the matter of `Json/Number.lean`.
-/

set_option autoImplicit false

namespace TileArchive

/-- A positive decimal number `digits * 10 ^ scale`, where `digits` does not end in zero. -/
structure Decimal where
  digits : Nat
  scale : Int
deriving DecidableEq, Repr

namespace Decimal

/-- The reals that round to a positive double: quotients of natural numbers, the value
`middle / unit` between `low / unit` and `high / unit`. The ends count when `closed`. -/
structure Neighbourhood where
  low : Nat
  middle : Nat
  high : Nat
  unit : Nat
  closed : Bool
deriving DecidableEq, Repr

/-- The neighbourhood of the double `m * 2 ^ q`. Below a power of two the next double is
nearer than above it. -/
def neighbourhood (m : Nat) (q : Int) (powerOfTwo : Bool) : Neighbourhood :=
  let up := Nat.pow 2 q.toNat
  { low := (4 * m - if powerOfTwo then 1 else 2) * up
    middle := 4 * m * up
    high := (4 * m + 2) * up
    unit := 4 * Nat.pow 2 (-q).toNat
    closed := decide (m % 2 = 0) }

/-- The value of the leading bit of a double's mantissa, which is not written. -/
def hiddenBit : Nat := 0x10000000000000

/-- The neighbourhood of the positive double with the given bits. -/
def ofBits (bits : Nat) : Neighbourhood :=
  let mantissa : Nat := bits % hiddenBit
  let exponent : Nat := bits / hiddenBit % 2048
  -- Without an exponent there is no hidden bit, and the doubles are evenly spaced.
  if exponent = 0 then neighbourhood mantissa (-1074) false
  else neighbourhood (hiddenBit + mantissa) (exponent - 1075)
    (mantissa == 0 && decide (1 < exponent))

/-- The number of decimal digits of a natural number, counting zero as none. -/
def digitCount (n : Nat) : Nat :=
  if n = 0 then 0 else (Nat.toDigits 10 n).length

/-- The largest `e` with `10 ^ e ≤ numerator / denominator`, or a little below it. -/
def magnitude (numerator denominator : Nat) : Int :=
  if denominator ≤ numerator then (digitCount (numerator / denominator) : Int) - 1
  else
    -- The reciprocal is above one, and its digit count is off by one at most.
    let e : Int := -(digitCount (denominator / numerator) : Int)
    if denominator ≤ numerator * Nat.pow 10 (-e - 1).toNat then e + 1 else e

/-- Whether `digits * 10 ^ scale` lies in a neighbourhood. -/
def Neighbourhood.holds (n : Neighbourhood) (digits : Nat) (scale : Int) : Bool :=
  let value := digits * Nat.pow 10 scale.toNat * n.unit
  let low := n.low * Nat.pow 10 (-scale).toNat
  let high := n.high * Nat.pow 10 (-scale).toNat
  if n.closed then low ≤ value && value ≤ high else low < value && value < high

/-- The decimal on the grid of step `10 ^ scale` that stands for a double, if there is one. -/
def Neighbourhood.onGrid (n : Neighbourhood) (scale : Int) : Option Nat :=
  let numerator := n.middle * Nat.pow 10 (-scale).toNat
  let denominator := n.unit * Nat.pow 10 scale.toNat
  let below := numerator / denominator
  let above := below + 1
  let twiceRest := 2 * (numerator % denominator)
  let belowFits := n.holds below scale
  let aboveFits := n.holds above scale
  if belowFits && aboveFits then
    -- Both stand for the double: the nearer is taken, and in the middle the even one.
    if twiceRest < denominator then some below
    else if denominator < twiceRest then some above
    else some (if below % 2 = 0 then below else above)
  else if belowFits then some below
  else if aboveFits then some above
  else none

/-- Drops up to `count` zeros at the end of a number. -/
def dropZeros : Nat → Nat → Int → Decimal
  | 0, digits, scale => ⟨digits, scale⟩
  | count + 1, digits, scale =>
    if digits % 10 = 0 then dropZeros count (digits / 10) (scale + 1) else ⟨digits, scale⟩

/-- Tries grids of more and more digits. Seventeen digits always suffice, so the case
without steps left is never reached from `shortest`. -/
def search (n : Neighbourhood) : Nat → Int → Decimal
  | 0, scale => ⟨n.middle / n.unit, scale⟩
  | count + 1, scale =>
    match n.onGrid scale with
    | some digits => dropZeros 20 digits scale
    | none => search n count (scale - 1)

/-- The fewest digits that read back as the positive double with the given bits. -/
def shortest (bits : Nat) : Decimal :=
  let n := ofBits bits
  search n 18 (magnitude n.middle n.unit)

end Decimal

end TileArchive
