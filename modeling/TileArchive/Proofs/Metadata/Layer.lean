import TileArchive.Metadata.Layer
import TileArchive.Proofs.Json.Record
import TileArchive.Proofs.Json.Value

/-!
# `TileArchive.Proofs.Metadata.Layer`: a written layer is read back

A layer is written as an object that leaves out what is absent, and read back as it was but for
the types of its attributes. A type is written as a text, and a text that names one of the three
known types is read as that type, also where it was kept as another text (`FieldType.plain`).

* `VectorLayer.read?_value`: what is read from a written layer is the plain layer.
* `VectorLayer.isPlain_of_read?`: whatever is read is plain.

Five names of the object belong to the layer, and the reader asks for each of them. `get?_present`
says what is found under a name that may be left out, so that absent and present fields need no
cases of their own in `read?_value`. What is written for the attributes is a dictionary, in order
already, so settling does not change it (`settled_fieldsValue`).

A layer is at most two levels deep: the object itself and the one of its attributes
(`within_value`). This is what keeps written metadata below the depth that a reader accepts.
-/

set_option autoImplicit false

namespace TileArchive

open Json

namespace FieldType

/-- The type that the text of a type names. -/
def plain (type : FieldType) : FieldType := ofText type.text

/-- A type that is kept as another text is not one of the known ones. Every type that was
read is such, and one that was made by hand need not be. -/
def IsPlain (type : FieldType) : Prop :=
  ∀ text, type = .other text → text ∉ ["Number", "Boolean", "String"]

/-- A type that was read from a text is not a known type in disguise. -/
theorem isPlain_ofText (text : String) : (ofText text).IsPlain := by
  intro kept kept_eq
  unfold ofText at kept_eq
  split at kept_eq
  · cases kept_eq
  · split at kept_eq
    · cases kept_eq
    · split at kept_eq
      · cases kept_eq
      · cases kept_eq
        -- Only a text that was none of the three known ones is kept.
        simp_all

/-- A type is read back as it was just if it is not a known type in disguise. Such a type
can only be made by hand, and it is written like the known one. -/
theorem plain_eq_self_iff {type : FieldType} : type.plain = type ↔ type.IsPlain := by
  constructor
  · intro same
    rw [← same]
    exact isPlain_ofText type.text
  · intro isPlain
    cases type with
    -- Of the kinds only this one keeps a text, and reading it back gives a known kind if it
    -- has one's.
    | other text =>
        have unknown := isPlain text rfl
        simp_all [plain, ofText, FieldType.text]
    | number => rfl
    | boolean => rfl
    | string => rfl

end FieldType

namespace VectorLayer

/-- The layer with its types read from their texts. -/
def plain (l : VectorLayer) : VectorLayer := { l with fields := l.fields.map FieldType.plain }

/-- No type of the layer is kept as the text of a known one. -/
def IsPlain (l : VectorLayer) : Prop := ∀ field ∈ l.fields.fields, field.2.IsPlain

/-- A layer is read back as it was just if this holds of the types of all its attributes. -/
theorem plain_eq_self_iff {l : VectorLayer} : l.plain = l ↔ l.IsPlain := by
  have fields_iff : l.plain = l ↔ l.fields.map FieldType.plain = l.fields := by
    cases l
    simp [plain]
  rw [fields_iff, Dictionary.map_eq_self_iff]
  exact forall₂_congr fun _ _ => FieldType.plain_eq_self_iff

/-! ### Writing and reading -/

/-- The attributes of a layer are in order already. -/
theorem settled_fieldsValue (fields : Dictionary FieldType) :
    (fieldsValue fields).settled = fieldsValue fields := by
  have texts : Fields.Increasing (fields.fields.map fun f => (f.1, Value.string f.2.text)) :=
    Fields.increasing_map fields.increasing fun type => Value.string type.text
  rw [fieldsValue, Value.settled, Value.settledFields_eq_map, List.map_map]
  exact congrArg Value.object (Fields.ofList_of_increasing texts)

/-- The attributes of a written layer are read back with their plain types. -/
theorem readFields?_fieldsValue (fields : Dictionary FieldType) :
    readFields? (fieldsValue fields) = some (fields.map FieldType.plain) := by
  let members : List (Option String × Value) :=
    (fields.fields.map fun f => (f.1, Value.string f.2.text)).map fun f => (some f.1, f.2)
  have pairs : members.mapM (pair? readType?) = some (fields.map FieldType.plain).fields := by
    rw [List.mapM_map, List.mapM_map]
    exact List.mapM_pure
  calc readFields? (fieldsValue fields)
      = (members.mapM (pair? readType?)).map Dictionary.ofList := rfl
    _ = some (.ofList (fields.map FieldType.plain).fields) := by rw [pairs, Option.map_some]
    _ = some (fields.map FieldType.plain) := by rw [Dictionary.ofList_fields]

/-- A zoom is read back. -/
theorem readZoom?_zoomValue (z : UInt8) : readZoom? (zoomValue z) = some (some z) := by
  have fits : z.toUInt64.toNat ≤ 255 := by
    rw [UInt8.toNat_toUInt64]
    exact Nat.le_of_lt_succ z.toNat_lt
  have natural_eq : natural? 255 (zoomValue z) = some z.toNat := by
    rw [← UInt8.toNat_toUInt64]
    exact if_pos fits
  have read_eq : readZoom? (zoomValue z)
      = ((natural? 255 (zoomValue z)).map UInt8.ofNat).map some := rfl
  rw [read_eq, natural_eq, Option.map_some, Option.map_some, UInt8.ofNat_toNat]

/-- The fields of a written layer, each with its value. -/
def written (l : VectorLayer) : List (String × Value) :=
  [("id", .string l.id), ("fields", fieldsValue l.fields)]
    ++ present "description" Value.string l.description
    ++ present "minzoom" zoomValue l.minZoom
    ++ present "maxzoom" zoomValue l.maxZoom

/-- A field that may be left out is settled if what it is written as is. -/
theorem settledFields_present {β : Type} (name : String) (write : β → Value)
    (settled : ∀ b, (write b).settled = write b) (o : Option β) :
    Value.settledFields (present name write o) = present name write o := by
  cases o with
  | none => rfl
  | some b => rw [present, Value.settledFields, settled]; rfl

/-- A written layer, with its fields put in order. -/
theorem settled_value (l : VectorLayer) :
    l.value.settled = .object (Fields.ofList l.written) := by
  -- The fields come out as they went in: texts and zooms have no order of their own, and the
  -- attributes were put in order when they were written.
  have front : Value.settledFields [("id", .string l.id), ("fields", fieldsValue l.fields)]
      = [("id", .string l.id), ("fields", fieldsValue l.fields)] := by
    simp [Value.settledFields, settled_fieldsValue, Value.settled]
  have description := settledFields_present "description" Value.string (fun _ => rfl) l.description
  have minZoom := settledFields_present "minzoom" zoomValue (fun _ => rfl) l.minZoom
  have maxZoom := settledFields_present "maxzoom" zoomValue (fun _ => rfl) l.maxZoom
  have settled : Value.settledFields l.written = l.written := by
    rw [written, Value.settledFields_append, Value.settledFields_append,
      Value.settledFields_append, front, description, minZoom, maxZoom]
  rw [value, ← written, Value.settled, settled]

/-- What is found under a name, where one field may be left out. -/
theorem get?_present {β : Type} (name : String) (write : β → Value) (o : Option β)
    (other : String) :
    Fields.get? other (present name write o).reverse
      = if name = other then o.map write else none := by
  cases o with
  | none => simp [present]
  | some b => simp [present, Fields.get?_cons]

/-- What is read from a written layer is the plain layer. Fields that are absent are not
written, and are read as absent. -/
theorem read?_value (l : VectorLayer) : read? l.value.settled = some l.plain := by
  have fields_eq : record? ["id", "fields", "description", "minzoom", "maxzoom"] l.value.settled
      = some [some (.string l.id), some (fieldsValue l.fields), l.description.map .string,
          l.minZoom.map zoomValue, l.maxZoom.map zoomValue] := by
    -- Each name of the record stands at most once in what was written, so a look-up finds it.
    rw [settled_value, record?_object (Fields.increasing_ofList _)]
    simp [Fields.get?_ofList, written, Fields.get?_append, get?_present, Fields.get?_cons]
  have description : orAbsent none (optional? string?) (l.description.map Value.string)
      = some l.description := by cases l.description <;> rfl
  have zoom (o : Option UInt8) : orAbsent none readZoom? (o.map zoomValue) = some o := by
    cases o with
    | none => rfl
    | some z => exact readZoom?_zoomValue z
  have attributes : orAbsent .empty readFields? (some (fieldsValue l.fields))
      = some (l.fields.map FieldType.plain) := readFields?_fieldsValue l.fields
  have id_eq : string? (Value.string l.id) = some l.id := rfl
  rw [read?, fields_eq]
  simp only [Option.bind_eq_bind, Option.bind_some, id_eq, attributes, description, zoom]
  rfl

/-- A written layer is two levels deep at most, and has no doubles. So it can be printed and
read back whatever the layer says. -/
theorem within_value (depth : Nat) (l : VectorLayer) : Value.Within (depth + 2) l.value := by
  have attributes : Value.Within (depth + 1) (fieldsValue l.fields) := by
    refine Value.fieldsWithin_iff.2 fun field mem => ?_
    obtain ⟨_, -, rfl⟩ := List.mem_map.1 mem
    cases depth <;> trivial
  -- The three fields that may be absent are alike: a value that is no deeper than a text.
  have optional {β : Type} (name : String) (write : β → Value)
      (within : ∀ b, Value.Within (depth + 1) (write b)) (o : Option β) :
      ∀ field ∈ present name write o, Value.Within (depth + 1) field.2 := by
    cases o with
    | none => simp [present]
    | some b => simpa [present] using within b
  refine Value.fieldsWithin_iff.2 fun field mem => ?_
  simp only [List.mem_append] at mem
  rcases mem with ((front | description) | minZoom) | maxZoom
  · rcases List.mem_cons.1 front with rfl | second
    · trivial
    · obtain rfl := List.mem_singleton.1 second
      exact attributes
  · exact optional _ Value.string (fun _ => trivial) _ field description
  · exact optional _ zoomValue (fun _ => trivial) _ field minZoom
  · exact optional _ zoomValue (fun _ => trivial) _ field maxZoom

/-- Whatever is read is plain. A layer that was read is therefore written and read back as
itself. -/
theorem isPlain_of_read? {α : Type} [Viewable α] {a : α} {l : VectorLayer}
    (read_eq : read? a = some l) : l.IsPlain := by
  simp only [read?, Option.bind_eq_bind, Option.bind_eq_some_iff] at read_eq
  obtain ⟨parts, -, match_eq⟩ := read_eq
  split at match_eq
  · next id fields description minZoom maxZoom =>
    simp only [Option.bind_eq_some_iff] at match_eq
    obtain ⟨_, -, attributes, attributes_eq, _, -, _, -, _, -, layer_eq⟩ := match_eq
    obtain rfl := Option.some.inj layer_eq
    intro field mem
    -- Attributes that were left out are none. Those that are there were each read from a
    -- text.
    cases fields with
    | none =>
        obtain rfl := Option.some.inj attributes_eq
        cases mem
    | some fields =>
        obtain ⟨item, type_eq⟩ := mem_dictionary? attributes_eq mem
        obtain ⟨text, -, text_eq⟩ := Option.map_eq_some_iff.1 type_eq
        exact text_eq ▸ FieldType.isPlain_ofText text
  · cases match_eq

end VectorLayer

end TileArchive
