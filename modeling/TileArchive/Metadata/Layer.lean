import TileArchive.Json.Record

/-!
# `TileArchive.Metadata.Layer`: layers of a vector tile archive

The metadata of an archive of vector tiles names the layers of its tiles and the attributes
of their features. `VectorLayer.read?` reads a layer from JSON and `VectorLayer.value`
writes one. What a writer left out is left out again.

The id is the only field that has to be there. The attributes may be left out and are then none;
description and zooms may be left out or null. Fields with other names are passed over. The type of
an attribute is any text, three of which have a name (`FieldType.ofText`); a text that is none of
these is kept, and written again as it was.
-/

set_option autoImplicit false

namespace TileArchive

open Json

/-- The type of an attribute. Three texts are known. Every other text is kept as it is, so
nothing that a writer says about its data is refused or lost. -/
inductive FieldType where
  | number
  | boolean
  | string
  /-- Any other text that a writer put there. -/
  | other (text : String)
deriving DecidableEq, Repr

namespace FieldType

/-- The type that a text names. -/
def ofText (text : String) : FieldType :=
  if text = "Number" then .number
  else if text = "Boolean" then .boolean
  else if text = "String" then .string
  else .other text

/-- The text of a type. -/
def text : FieldType → String
  | .number => "Number"
  | .boolean => "Boolean"
  | .string => "String"
  | .other text => text

end FieldType

/-- A layer of a vector tile archive. Only the name is required: a layer that leaves the
attributes out has none, and the other three fields may be missing. -/
structure VectorLayer where
  id : String
  /-- The attributes by name. -/
  fields : Dictionary FieldType
  description : Option String
  minZoom : Option UInt8
  maxZoom : Option UInt8
deriving DecidableEq

namespace VectorLayer

variable {α : Type} [Viewable α]

/-- The type of an attribute. -/
def readType? (a : α) : Option FieldType := (string? a).map FieldType.ofText

/-- The attributes of a layer. -/
def readFields? (a : α) : Option (Dictionary FieldType) := dictionary? readType? a

/-- A zoom, or `null`. -/
def readZoom? (a : α) : Option (Option UInt8) :=
  optional? (fun a => (natural? 255 a).map UInt8.ofNat) a

/-- What is read from a field, or what stands for an absent one. -/
def orAbsent {β γ : Type} (absent : γ) (read : β → Option γ) : Option β → Option γ
  | none => some absent
  | some b => read b

/-- Reads a layer. Only its id has to be there. -/
def read? (a : α) : Option VectorLayer := do
  match ← record? ["id", "fields", "description", "minzoom", "maxzoom"] a with
  | [some id, fields, description, minZoom, maxZoom] =>
    return {
      id := ← string? id
      fields := ← orAbsent .empty readFields? fields
      description := ← orAbsent none (optional? string?) description
      minZoom := ← orAbsent none readZoom? minZoom
      maxZoom := ← orAbsent none readZoom? maxZoom }
  | _ => none

/-- The attributes as a JSON value. -/
def fieldsValue (fields : Dictionary FieldType) : Value :=
  .object (fields.fields.map fun f => (f.1, .string f.2.text))

/-- A zoom as a JSON value. -/
def zoomValue (z : UInt8) : Value := .number (.natural z.toUInt64)

/-- A field that is written only where it is present. -/
def present {β : Type} (name : String) (write : β → Value) : Option β → List (String × Value)
  | none => []
  | some b => [(name, write b)]

/-- A layer as a JSON value. -/
def value (l : VectorLayer) : Value :=
  .object ([("id", .string l.id), ("fields", fieldsValue l.fields)]
    ++ present "description" Value.string l.description
    ++ present "minzoom" zoomValue l.minZoom
    ++ present "maxzoom" zoomValue l.maxZoom)

end VectorLayer

end TileArchive
