import TileArchive.Json.Number
import TileArchive.Json.Quoted

/-!
# `TileArchive.Json.Node`: JSON texts as written

`Node.parse?` reads a JSON text into the tree of what is written: members of objects in
their order, with repetitions; numbers as digits; strings as pieces. It checks the grammar
and nothing more. Whether numbers and strings have a value, whether names repeat, and how
deep the nesting is, is for those to judge who use the tree: a part that nobody looks at may
hold what has no value.

Blanks are spaces, tabs, line feeds and carriage returns.

## What is assumed of a JSON reader

The grammar is the standard one, with none of the usual leniencies: no comments, no comma
after the last item, no single quotes, no number that starts with a zero or a plus sign, no
control character inside a string, and nothing after the value but blanks. `Node.parse?`
follows a reader that works through the text once, from front to back, and that passes over
a value it does not need by its grammar alone. That is why a tree keeps numerals and pieces
of strings unvalued. What a value means is assumed in `Json/Value.lean`, and how a record
takes its fields from one in `Json/Record.lean`.

The functions that read take a bound on the number of their steps, because an item of an
array may again be an array. `stepBound` is large enough for every text, so no text is
refused for the lack of steps.
-/

set_option autoImplicit false

namespace TileArchive.Json

/-- A JSON text as it is written. An object keeps its members in the order of the text, and
a name that is written twice is there twice. What a text means is left to `Value`, so a text
that is well formed but has no value still has a node. -/
inductive Node where
  | null
  | bool (value : Bool)
  | number (numeral : Numeral)
  | string (pieces : List Piece)
  | array (items : List Node)
  | object (members : List (List Piece × Node))
deriving Repr, Inhabited

namespace Node

/-- Whether a character may stand between the parts of a text. -/
def isBlank (c : Char) : Bool :=
  c == ' ' || c == '\t' || c == '\n' || c == '\x0d'

/-- A text without the blanks at its front. -/
def skipBlanks (cs : List Char) : List Char := cs.dropWhile isBlank

/-- What follows a colon, after blanks. -/
def afterColon (cs : List Char) : Option (List Char) :=
  match skipBlanks cs with
  | ':' :: rest => some rest
  | _ => none

/-- The name of a member and what follows the colon after it. -/
def readName (cs : List Char) : Option (List Piece × List Char) :=
  match skipBlanks cs with
  | '"' :: rest => do
    let (name, rest) ← Quoted.read rest
    return (name, ← afterColon rest)
  | _ => none

mutual

/-- The value at the front of a text. The first argument bounds the number of steps. -/
def read : Nat → List Char → Option (Node × List Char)
  | 0, _ => none
  | steps + 1, cs =>
    match skipBlanks cs with
    | 'n' :: 'u' :: 'l' :: 'l' :: rest => some (.null, rest)
    | 't' :: 'r' :: 'u' :: 'e' :: rest => some (.bool true, rest)
    | 'f' :: 'a' :: 'l' :: 's' :: 'e' :: rest => some (.bool false, rest)
    | '"' :: rest => (Quoted.read rest).map fun (pieces, rest) => (.string pieces, rest)
    | '[' :: rest =>
      match skipBlanks rest with
      | ']' :: rest => some (.array [], rest)
      | rest => (readItems steps rest).map fun (items, rest) => (.array items, rest)
    | '{' :: rest =>
      match skipBlanks rest with
      | '}' :: rest => some (.object [], rest)
      | rest => (readMembers steps rest).map fun (members, rest) => (.object members, rest)
    | cs => (Numeral.read cs).map fun (numeral, rest) => (.number numeral, rest)

/-- The items of an array from one on, up to the closing bracket. -/
def readItems : Nat → List Char → Option (List Node × List Char)
  | 0, _ => none
  | steps + 1, cs => do
    let (item, rest) ← read steps cs
    match skipBlanks rest with
    | ',' :: rest =>
      let (items, rest) ← readItems steps rest
      return (item :: items, rest)
    | ']' :: rest => return ([item], rest)
    | _ => none

/-- The members of an object from one on, up to the closing brace. -/
def readMembers : Nat → List Char → Option (List (List Piece × Node) × List Char)
  | 0, _ => none
  | steps + 1, cs => do
    let (name, rest) ← readName cs
    let (value, rest) ← read steps rest
    match skipBlanks rest with
    | ',' :: rest =>
      let (members, rest) ← readMembers steps rest
      return ((name, value) :: members, rest)
    | '}' :: rest => return ([(name, value)], rest)
    | _ => none

end

/-- How many steps suffice for a text: every character costs two at most. -/
def stepBound (cs : List Char) : Nat := 2 * cs.length + 2

/-- The tree of a text that is one value, with nothing but blanks around it. There is one
tree for a text at most: the front of a text is read in one way only. -/
def parseChars? (cs : List Char) : Option Node := do
  let (node, rest) ← read (stepBound cs) cs
  if (skipBlanks rest).isEmpty then some node else none

/-- The tree of a text. -/
def parse? (text : String) : Option Node := parseChars? text.toList

end Node

end TileArchive.Json
