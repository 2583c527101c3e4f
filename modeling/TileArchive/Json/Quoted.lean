/-!
# `TileArchive.Json.Quoted`: JSON strings as written

Between the quotes of a JSON string stand characters and escapes. An escape of the form
`\u` and four hexadecimal digits names a 16-bit unit; a character beyond the first 65536 is
written as two such units in a row. Reading a string therefore has two steps: `read` finds
the pieces up to the closing quote, and `decode?` pairs the units up. A unit that needs a
partner and has none makes the string invalid, but only `decode?` says so.

`encode` writes a text as a quoted string. It escapes quotes, backslashes and control
characters and nothing else.

## What is assumed

The escapes are those of the JSON grammar. Hexadecimal digits may be of either case when
read and are lower case when written. Five control characters have a letter of their own;
the others are written by number. A slash may be escaped but is written as it is, and so is
every character from the space on, ASCII or not. The two steps of reading follow a reader
that passes over a string it does not need without pairing units: such a string is held
against the grammar alone.
-/

set_option autoImplicit false

namespace TileArchive.Json

/-- A part of a string: a character, or an escape that names a 16-bit unit. Two units may
stand for one character, and a unit may stand for none, so whether the string has a text is
decided later. -/
inductive Piece where
  | char (c : Char)
  | unit (value : Nat)
deriving DecidableEq, Repr

namespace Quoted

/-! ## Reading -/

/-- The value of a hexadecimal digit. -/
def hexValue? (c : Char) : Option Nat :=
  if '0' ≤ c ∧ c ≤ '9' then some (c.toNat - 48)
  else if 'a' ≤ c ∧ c ≤ 'f' then some (c.toNat - 87)
  else if 'A' ≤ c ∧ c ≤ 'F' then some (c.toNat - 55)
  else none

/-- The unit that four hexadecimal digits name. -/
def unitOf? (a b c d : Char) : Option Nat := do
  return (((← hexValue? a) * 16 + (← hexValue? b)) * 16 + (← hexValue? c)) * 16 + (← hexValue? d)

/-- The character that a letter after a backslash stands for. -/
def escaped? (c : Char) : Option Char :=
  match c with
  | '"' => some '"'
  | '\\' => some '\\'
  | '/' => some '/'
  | 'b' => some '\x08'
  | 'f' => some '\x0c'
  | 'n' => some '\n'
  | 'r' => some '\x0d'
  | 't' => some '\t'
  | _ => none

/-- The pieces up to the closing quote, and what follows it. -/
def read : List Char → Option (List Piece × List Char)
  | [] => none
  | '"' :: rest => some ([], rest)
  | '\\' :: 'u' :: a :: b :: c :: d :: rest => do
    let value ← unitOf? a b c d
    let (pieces, rest) ← read rest
    return (.unit value :: pieces, rest)
  | '\\' :: c :: rest => do
    let character ← escaped? c
    let (pieces, rest) ← read rest
    return (.char character :: pieces, rest)
  | c :: rest => do
    if c.toNat < 32 ∨ c = '\\' then none
    let (pieces, rest) ← read rest
    return (.char c :: pieces, rest)

/-- Whether a unit is the first of a pair. -/
def leads (value : Nat) : Bool := 0xd800 ≤ value && value < 0xdc00

/-- Whether a unit is the second of a pair. -/
def follows (value : Nat) : Bool := 0xdc00 ≤ value && value < 0xe000

/-- The character that two units name together. -/
def paired (first second : Nat) : Char :=
  Char.ofNat (0x10000 + (first - 0xd800) * 0x400 + (second - 0xdc00))

/-- The characters that pieces stand for, unless a unit lacks its partner. A first unit
takes the piece after it as its partner only if that piece is a unit too; a character in
between separates them. -/
def decodeChars? : List Piece → Option (List Char)
  | [] => some []
  | .char c :: rest => (decodeChars? rest).map (c :: ·)
  | .unit first :: .unit second :: rest =>
    if leads first then
      if follows second then (decodeChars? rest).map (paired first second :: ·) else none
    else if follows first then none
    else (decodeChars? (.unit second :: rest)).map (Char.ofNat first :: ·)
  | .unit value :: rest =>
    if leads value || follows value then none
    else (decodeChars? rest).map (Char.ofNat value :: ·)

/-- The text that pieces stand for, unless a unit lacks its partner. -/
def decode? (pieces : List Piece) : Option String :=
  (decodeChars? pieces).map String.ofList

/-! ## Writing -/

/-- A hexadecimal digit. -/
def hexDigit (n : Nat) : Char :=
  if n < 10 then Char.ofNat (48 + n) else Char.ofNat (87 + n)

/-- How a character is written inside quotes. What is written reads back as this character
and nothing else, which is what the round trip of strings rests on. -/
def encodeChar (c : Char) : List Char :=
  if c = '"' then ['\\', '"']
  else if c = '\\' then ['\\', '\\']
  else if c.toNat < 32 then
    match c.toNat with
    | 8 => ['\\', 'b']
    | 9 => ['\\', 't']
    | 10 => ['\\', 'n']
    | 12 => ['\\', 'f']
    | 13 => ['\\', 'r']
    | n => ['\\', 'u', '0', '0', hexDigit (n / 16), hexDigit (n % 16)]
  else [c]

/-- A text between quotes. -/
def encode (text : String) : List Char :=
  '"' :: (text.toList.flatMap encodeChar ++ ['"'])

end Quoted

end TileArchive.Json
