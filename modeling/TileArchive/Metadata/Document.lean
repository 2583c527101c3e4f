import TileArchive.Bytes
import TileArchive.Metadata.Layer

/-!
# `TileArchive.Metadata.Document`: the metadata text of an archive

The metadata section holds a JSON object. Its field `vector_layers` describes the layers of
a vector tile archive; every other field is kept as a text, which for a value that is no
string is its JSON text.

* `Metadata.decode` reads the section and `Metadata.encode` writes one.

A string is kept without its quotes, so a field that holds the string `1` and one that holds the
number `1` are kept alike, and both are written as strings again. The layers are kept as they are
and are written under their own name, unless there are none.

A name that stands in the object more than once has its last value. Where the layers have another
shape than that of layers the whole section is refused; of the other fields no shape is asked.
-/

set_option autoImplicit false

namespace TileArchive

open Json

/-- What the metadata section says. The layers are taken out of the object and read in full.
Of any other field a text is kept: the string itself where it is one, and the JSON text
where it is not. -/
structure Metadata where
  vectorLayers : List VectorLayer
  /-- The other fields of the object by name. -/
  other : Dictionary String
deriving DecidableEq

/-- Why a metadata section cannot be read. Of a text that is no object the kind is told. -/
inductive MetadataError where
  /-- Not a JSON text, or one whose layers have another shape. -/
  | malformed
  /-- A JSON text of another kind than an object. -/
  | notAnObject (kind : String)
deriving DecidableEq, Repr

/-- The text of a metadata error. -/
def MetadataError.message : MetadataError → String
  | .malformed => "Invalid metadata JSON"
  | .notAnObject kind => s!"Metadata must be a JSON object, got {kind}"

namespace Metadata

/-- The metadata of an archive that has none. -/
def empty : Metadata := ⟨[], .empty⟩

instance : Inhabited Metadata := ⟨empty⟩

/-- The name of the field that holds the layers. -/
def layersName : String := "vector_layers"

/-- What a value is called in error texts. -/
def kindOf : Value → String
  | .null => "null"
  | .bool _ => "a boolean"
  | .number _ => "a number"
  | .string _ => "a string"
  | .array _ => "an array"
  | .object _ => "an object"

/-- The text that is kept of a field. -/
def keptText : Value → String
  | .string s => s
  | value => value.text

/-- The layers, where the field is absent, `null` or a list. -/
def readLayers? : Option Value → Option (List VectorLayer)
  | none => some []
  | some .null => some []
  | some value => list? VectorLayer.read? value

/-- Splits the fields of the object into layers and texts. -/
def ofFields? (fields : List (String × Value)) : Option Metadata := do
  let layers ← readLayers? (Fields.get? layersName fields)
  let kept := (Fields.erase layersName fields).map fun f => (f.1, keptText f.2)
  return ⟨layers, .ofList kept⟩

/-- Reads metadata from a JSON value. -/
def ofValue : Value → Except MetadataError Metadata
  | .object fields => (ofFields? fields).elim (.error .malformed) .ok
  | value => .error (.notAnObject (kindOf value))

/-- The text that some bytes encode, if they do. -/
def textOf? (data : Bytes) : Option String := String.fromUTF8? (ByteArray.mk data.toArray)

/-- Reads a metadata section. -/
def decode (data : Bytes) : Except MetadataError Metadata :=
  match textOf? data >>= Value.parse? with
  | none => .error .malformed
  | some value => ofValue value

/-- The metadata as a JSON value: the layers, if there are any, before all other fields. -/
def value (m : Metadata) : Value :=
  let layers := if m.vectorLayers.isEmpty then []
    else [(layersName, Value.array (m.vectorLayers.map VectorLayer.value))]
  .object (layers ++ m.other.fields.map fun f => (f.1, .string f.2))

/-- The metadata as a JSON text. -/
def text (m : Metadata) : String := m.value.text

/-- Writes a metadata section. -/
def encode (m : Metadata) : Bytes := m.text.toUTF8.data.toList

end Metadata

end TileArchive
