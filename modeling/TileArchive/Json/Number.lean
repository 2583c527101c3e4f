import TileArchive.Bytes
import TileArchive.Decimal.Shortest

/-!
# `TileArchive.Json.Number`: JSON numbers as written and as valued

A `Numeral` is a number as it stands in a text: sign, digits, fraction, exponent. Its value
is an integer where it has neither fraction nor exponent and fits a 64-bit word, and a
double otherwise.

The double is found without looking at more digits than a word holds. The digits are
gathered into a word as long as they fit; a further digit of the integer part only counts
as a power of ten, one of the fraction is dropped. The word, rounded to a double, is then
multiplied or divided by the power of ten. The result may differ from the nearest double in
the last place. A number beyond the largest double has no value.

Integers are printed as such, doubles with the fewest digits that read back.

## What is assumed

Readers of JSON differ in what they make of a number. The one followed here promises this:

* An unsigned integer that fits 64 bits keeps its exact value, and so does a negative one
  down to the least signed word. Larger ones become doubles, and so does minus zero.
* Doubles are read by the quick conversion described above, which is not correctly rounded
  in every case. The exact steps matter, because a text that is read and written again shows
  the last place.
* A number whose double would be infinite is an error; one that is too small becomes zero.
* Doubles are written with the fewest digits that read back (`Decimal/Shortest.lean`), in
  the layout of `decimalText`.

Multiplication and division of doubles are those of the runtime; they follow the binary
floating point standard. No theorem looks inside them: a double is told by its bits.
-/

set_option autoImplicit false

namespace TileArchive.Json

/-- A number as it is written. Digits are numbers below ten. The parts are kept apart,
because whether a number is an integer depends on how it is written and not on its value. -/
structure Numeral where
  negative : Bool
  whole : List Nat
  /-- The digits after the point, if there is one. -/
  fraction : Option (List Nat)
  /-- Whether the exponent is negative, and its digits. -/
  exponent : Option (Bool × List Nat)
deriving DecidableEq, Repr

/-- The value of a number. A double is given by its bits. Integers that fit a word, and
negative ones that fit a signed word, are kept exactly. All other numbers are doubles, among
them minus zero. -/
inductive Number where
  | natural (n : UInt64)
  /-- Minus `n`, where `n` is positive. -/
  | negative (n : UInt64)
  | real (bits : UInt64)
deriving DecidableEq, Repr

namespace Numeral

/-! ## Reading -/

/-- The digit a character stands for. -/
def digit? (c : Char) : Option Nat :=
  if '0' ≤ c ∧ c ≤ '9' then some (c.toNat - 48) else none

/-- The digits at the front of a text. -/
def readDigits : List Char → List Nat × List Char
  | [] => ([], [])
  | c :: rest =>
    match digit? c with
    | some d => let (ds, rest) := readDigits rest; (d :: ds, rest)
    | none => ([], c :: rest)

/-- At least one digit. -/
def readDigits1 (cs : List Char) : Option (List Nat × List Char) :=
  match readDigits cs with
  | ([], _) => none
  | found => some found

/-- The part after a point. -/
def readFraction : List Char → Option (Option (List Nat) × List Char)
  | '.' :: rest => (readDigits1 rest).map fun (ds, rest) => (some ds, rest)
  | rest => some (none, rest)

/-- The sign and digits after the letter of an exponent. -/
def readSignedDigits : List Char → Option (Option (Bool × List Nat) × List Char)
  | '+' :: rest => (readDigits1 rest).map fun (ds, rest) => (some (false, ds), rest)
  | '-' :: rest => (readDigits1 rest).map fun (ds, rest) => (some (true, ds), rest)
  | rest => (readDigits1 rest).map fun (ds, rest) => (some (false, ds), rest)

/-- The exponent part. -/
def readExponent : List Char → Option (Option (Bool × List Nat) × List Char)
  | 'e' :: rest => readSignedDigits rest
  | 'E' :: rest => readSignedDigits rest
  | rest => some (none, rest)

/-- The sign of a number. -/
def readSign : List Char → Bool × List Char
  | '-' :: rest => (true, rest)
  | rest => (false, rest)

/-- Whether digits may stand before the point: at least one, and no zero before others. -/
def wholeAllowed : List Nat → Bool
  | [] => false
  | [_] => true
  | d :: _ => d != 0

/-- The number at the front of a text. -/
def read (cs : List Char) : Option (Numeral × List Char) := do
  let (negative, cs) := readSign cs
  let (whole, cs) := readDigits cs
  if !wholeAllowed whole then none
  let (fraction, cs) ← readFraction cs
  let (exponent, cs) ← readExponent cs
  return (⟨negative, whole, fraction, exponent⟩, cs)

/-! ## The value -/

/-- Gathers digits into a word, and returns those that no longer fit. Those that are
returned count as powers of ten or not at all, never by their value. -/
def gather : Nat → List Nat → Nat × List Nat
  | word, [] => (word, [])
  | word, d :: ds =>
    -- A digit that does not fit ends the word, even if a later one would.
    if Word.largest < word * 10 + d then (word, d :: ds) else gather (word * 10 + d) ds

/-- The largest exponent that is told apart from larger ones. -/
def exponentLimit : Nat := 2147483647

/-- The exponent with the given digits, unless it is beyond the limit. -/
def exponentOf (ds : List Nat) : Option Nat :=
  ds.foldl (fun value d => value.bind fun e =>
    if exponentLimit < e * 10 + d then none else some (e * 10 + d)) (some 0)

/-- The double nearest to a power of ten. -/
def power (n : Nat) : Float := Float.ofScientific 1 false n

/-- Divides by ten to a power of any size, in steps that a double can express. -/
def divide : Nat → Float → Nat → Float
  | 0, value, _ => value
  | steps + 1, value, n =>
    if n ≤ 308 then value / power n
    else if value == 0 then value
    else divide steps (value / power 308) (n - 308)

/-- A word times a power of ten, unless it is beyond the largest double. -/
def scale (word : Nat) (exponent : Int) : Option Float :=
  let value := (UInt64.ofNat word).toFloat
  if exponent < 0 then some (divide (exponent.natAbs / 308 + 1) value exponent.natAbs)
  else if exponent ≤ 308 then
    let product := value * power exponent.natAbs
    if product.isInf then none else some product
  else if word = 0 then some value
  else none

/-- The double that a number with fraction, exponent or too many digits stands for. It is
there unless it would be infinite. -/
def real? (n : Numeral) : Option Float := do
  let (word, dropped) := gather 0 n.whole
  let (word, point) : Nat × Int :=
    match n.fraction with
    | none => (word, dropped.length)
    | some ds =>
      -- Every digit of the fraction that was gathered moves the point.
      let (word', rest) := gather word ds
      (word', (dropped.length : Int) - (ds.length - rest.length : Nat))
  let value ←
    match n.exponent with
    | none => scale word point
    | some (down, ds) =>
      match exponentOf ds with
      | some e => scale word (if down then point - e else point + e)
      -- Beyond the limit nothing is left of a small number, and a large one has no value.
      | none => if word = 0 ∨ down then some 0.0 else none
  return if n.negative then -value else value

/-- The value of a number, if it is not beyond the largest double. -/
def number? (n : Numeral) : Option Number :=
  let (word, dropped) := gather 0 n.whole
  if n.fraction.isNone ∧ n.exponent.isNone ∧ dropped = [] ∧ !n.negative then
    some (.natural (UInt64.ofNat word))
  -- Minus zero is no integer, and neither is what lies below the least signed word.
  else if n.fraction.isNone ∧ n.exponent.isNone ∧ dropped = [] ∧ 0 < word ∧ word ≤ Word.topBit then
    some (.negative (UInt64.ofNat word))
  else n.real?.map fun value => .real value.toBits

end Numeral

namespace Number

/-- The digits of a natural number. -/
def digits (n : Nat) : List Char := Nat.toDigits 10 n

/-- How doubles are printed: positional from `0.00001` up to sixteen digits before the
point and always with a fraction, otherwise with one digit before the point and a signed
exponent. -/
def decimalText (d : Decimal) : List Char :=
  let ds := digits d.digits
  let exponent := d.scale + ds.length - 1
  if -5 ≤ exponent ∧ exponent ≤ 15 then
    if exponent < 0 then
      '0' :: '.' :: (List.replicate (exponent.natAbs - 1) '0' ++ ds)
    else
      let whole := exponent.natAbs + 1
      if ds.length ≤ whole then
        ds ++ List.replicate (whole - ds.length) '0' ++ ['.', '0']
      else ds.take whole ++ '.' :: ds.drop whole
  else
    let mantissa := match ds with
      | [] => []
      | [c] => [c]
      | c :: rest => c :: '.' :: rest
    let sign := if exponent < 0 then '-' else '+'
    mantissa ++ 'e' :: sign :: digits exponent.natAbs

/-- The text of a double, given by its bits. -/
def realText (bits : UInt64) : List Char :=
  let magnitude := bits.toNat % Word.topBit
  let text := if magnitude = 0 then ['0', '.', '0'] else decimalText (.shortest magnitude)
  if bits.toNat < Word.topBit then text else '-' :: text

/-- The text of a number. -/
def text : Number → List Char
  | .natural n => digits n.toNat
  | .negative n => '-' :: digits n.toNat
  | .real bits => realText bits

end Number

end TileArchive.Json
