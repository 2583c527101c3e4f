import TileArchive.Json.Value

/-!
# `TileArchive.Json.Record`: reading records with known fields

A record is read from an object that gives its fields by name, or from an array that gives
them in order. A `View` is one level of either a tree as written or a value, so both are
read by the same functions; they differ in that an object as written may repeat a name and
may hold parts without a value.

* `View.record?` finds the fields of a record. Other names of an object are passed over,
  whatever they hold. A known name must not repeat, and an array must not be longer than
  the record.
* `View.closedRecord?` does not pass over other names.
* `natural?`, `string?`, `optional?` and `dictionary?` read the fields.

## What is assumed

Records are read by functions derived from their declarations. What such functions promise
of a record with named fields is written out here once and used for every record:

* Fields may come in any order. A field that is declared optional may be missing, and `null`
  stands for a missing one.
* A known name that comes twice is an error, even if both values agree. Only a dictionary,
  whose names are not known, lets the last value count.
* An unknown name is passed over or is an error, as the record declares.
* An array stands for the fields in the order of the declaration, and may be shorter where
  the rest is optional.

An error is `none`. Its text is not modelled here: those who report it put their own in its
place.
-/

set_option autoImplicit false

namespace TileArchive.Json

/-- One level of a JSON text. Names, numbers and strings may lack a value; of numbers only
the integers that fit a word are told. A record is read through such views, so it can be
read from a text that is still a tree as well as from values that were made of one. -/
inductive View (α : Type) where
  | null
  | bool (value : Bool)
  | number (value : Option UInt64)
  | string (value : Option String)
  | array (items : List α)
  | object (members : List (Option String × α))

/-- What can be looked at one level at a time. A tree as it was written shows its members as
they stand there, and a value shows one member for each name. -/
class Viewable (α : Type) where
  view : α → View α

/-- The word that a number stands for, if it is one. -/
def Number.natural? : Number → Option UInt64
  | .natural n => some n
  | _ => none

instance : Viewable Node where
  view
    | .null => .null
    | .bool b => .bool b
    | .number n => .number (n.number? >>= Number.natural?)
    | .string s => .string (Quoted.decode? s)
    | .array items => .array items
    | .object members => .object (members.map fun m => (Quoted.decode? m.1, m.2))

instance : Viewable Value where
  view
    | .null => .null
    | .bool b => .bool b
    | .number n => .number n.natural?
    | .string s => .string (some s)
    | .array items => .array items
    | .object fields => .object (fields.map fun f => (some f.1, f.2))

open Viewable (view)

variable {α : Type} [Viewable α]

/-- A word of at most the given size. -/
def natural? (largest : Nat) (a : α) : Option Nat :=
  match view a with
  | .number (some n) => if n.toNat ≤ largest then some n.toNat else none
  | _ => none

/-- A text. -/
def string? (a : α) : Option String :=
  match view a with
  | .string s => s
  | _ => none

/-- Something that may also be `null`, which stands for its absence. -/
def optional? {β : Type} (read : α → Option β) (a : α) : Option (Option β) :=
  match view a with
  | .null => some none
  | _ => (read a).map some

/-- A list. -/
def list? {β : Type} (read : α → Option β) (a : α) : Option (List β) :=
  match view a with
  | .array items => items.mapM read
  | _ => none

/-- Name and value of a member. -/
def pair? {β : Type} (read : α → Option β) (m : Option String × α) : Option (String × β) := do
  return (← m.1, ← read m.2)

/-- An object all of whose members are alike. The last value of a name counts. -/
def dictionary? {β : Type} (read : α → Option β) (a : α) : Option (Dictionary β) :=
  match view a with
  | .object members => (members.mapM (pair? read)).map Dictionary.ofList
  | _ => none

/-- The only value of a name, or none. Fails where the name repeats. -/
def single? {β : Type} (members : List (String × β)) (name : String) : Option (Option β) :=
  match members.filter fun m => m.1 = name with
  | [] => some none
  | [m] => some (some m.2)
  | _ => none

/-- Items in order, as many as there are names. Fails where there are more items. -/
def inOrder? {β : Type} : List String → List β → Option (List (Option β))
  | [], [] => some []
  | [], _ :: _ => none
  | _ :: names, [] => (inOrder? names []).map (none :: ·)
  | _ :: names, item :: items => (inOrder? names items).map (some item :: ·)

/-- The fields of a record with the given names, each of which may be absent. Whether an
absent field is an error is for the caller to say, who knows which fields are optional. -/
def record? (names : List String) (a : α) : Option (List (Option α)) :=
  match view a with
  | .object members => do
    let members ← members.mapM (pair? some)
    names.mapM (single? members)
  | .array items => inOrder? names items
  | _ => none

/-- The fields of a record that allows no names but the given ones. -/
def closedRecord? (names : List String) (a : α) : Option (List (Option α)) :=
  match view a with
  | .object members =>
    if members.all fun m => m.1.all fun name => names.contains name then record? names a
    else none
  | _ => record? names a

end TileArchive.Json
