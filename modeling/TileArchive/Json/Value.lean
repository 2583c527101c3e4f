import TileArchive.Dictionary
import TileArchive.Json.Node

/-!
# `TileArchive.Json.Value`: what a JSON text means

In a `Value` numbers and strings have their values, and an object has one value per name,
the last one written, in the order of the names. `Value.ofNode?` finds the value of a tree:
there is none where a number or string has none, or where arrays and objects are nested
more than 127 deep.

`Value.text` prints a value without blanks.

## What is assumed

The general value of a text, with no record in mind, is what a reader promises that keeps
objects as sorted maps:

* Of members of the same name the last one counts, and the earlier ones leave no trace.
* Fields stand in the order of their names, compared by code points, however they were
  written. Texts in this order and no other are printed.
* Arrays and objects may be nested 127 deep; one more level is an error, which protects the
  reader's stack.
* Printing uses no blanks, and escapes in strings only what has to be escaped.

That printing and reading go together, so that a printed value reads back as itself, is not
among the assumptions. It is proved for the functions below in `Proofs/Json/Value.lean`.
-/

set_option autoImplicit false

namespace TileArchive.Json

/-- What a JSON text means. The fields of an object are in the order of their names, and of
several with one name the last one counts. -/
inductive Value where
  | null
  | bool (value : Bool)
  | number (n : Number)
  | string (s : String)
  | array (items : List Value)
  | object (fields : List (String × Value))
deriving Repr, Inhabited

namespace Value

/-- The deepest nesting that has a value. -/
def maxDepth : Nat := 127

mutual

/-- The value of a tree in which arrays and objects may be nested `depth` deep. -/
def ofNodeWithin? : Nat → Node → Option Value
  | _, .null => some .null
  | _, .bool b => some (.bool b)
  | _, .number n => n.number?.map .number
  | _, .string s => (Quoted.decode? s).map .string
  | 0, .array _ => none
  | depth + 1, .array items => (ofItems? depth items).map .array
  | 0, .object _ => none
  | depth + 1, .object members =>
    (ofMembers? depth members).map fun fields => .object (Fields.ofList fields)

/-- The values of the items of an array. -/
def ofItems? : Nat → List Node → Option (List Value)
  | _, [] => some []
  | depth, item :: items => do
    return (← ofNodeWithin? depth item) :: (← ofItems? depth items)

/-- Names and values of the members of an object, as written. -/
def ofMembers? : Nat → List (List Piece × Node) → Option (List (String × Value))
  | _, [] => some []
  | depth, (name, node) :: members => do
    let name ← Quoted.decode? name
    let value ← ofNodeWithin? depth node
    return (name, value) :: (← ofMembers? depth members)

end

/-- The value of a tree. -/
def ofNode? (node : Node) : Option Value := ofNodeWithin? maxDepth node

/-- The value of a text. -/
def parse? (text : String) : Option Value := Node.parse? text >>= ofNode?

/-! ## Printing -/

mutual

/-- The text of a value, without blanks. -/
def chars : Value → List Char
  | .null => ['n', 'u', 'l', 'l']
  | .bool true => ['t', 'r', 'u', 'e']
  | .bool false => ['f', 'a', 'l', 's', 'e']
  | .number n => n.text
  | .string s => Quoted.encode s
  | .array [] => ['[', ']']
  | .array (item :: items) => '[' :: (chars item ++ moreItems items ++ [']'])
  | .object [] => ['{', '}']
  | .object ((name, value) :: fields) =>
    '{' :: (Quoted.encode name ++ ':' :: (chars value ++ moreFields fields ++ ['}']))

/-- The text of further items of an array, each after a comma. -/
def moreItems : List Value → List Char
  | [] => []
  | item :: items => ',' :: (chars item ++ moreItems items)

/-- The text of further fields of an object, each after a comma. -/
def moreFields : List (String × Value) → List Char
  | [] => []
  | (name, value) :: fields =>
    ',' :: (Quoted.encode name ++ ':' :: (chars value ++ moreFields fields))

end

/-- The text of a value, without blanks. -/
def text (value : Value) : String := String.ofList value.chars

end Value

end TileArchive.Json
