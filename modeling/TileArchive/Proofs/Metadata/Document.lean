import TileArchive.Metadata.Document
import TileArchive.Proofs.Digits
import TileArchive.Proofs.Metadata.Layer

/-!
# `TileArchive.Proofs.Metadata.Document`: written metadata is read back

The writer puts the layers beside all other fields into one object, and the reader takes them
apart again by the name `vector_layers`. Another field of that name comes later in the object,
so it takes the place of the layers, and a text is not a list of them. Without such a field the
reader finds the layers, with their types as their texts name them, and every other field with
its text. Nothing that is read has such a field or such a type, so it is read back as it is.

## From metadata to its fields and back

* `layerFields` and `textFields` are what is written, and `readBack` is the object that is read:
  the same fields, in order and with the last one of each name (`parse?_encode`).
* `get?_readBack` says what is found in it: a text where there is one of the name, and otherwise
  the layers, under their name.
* `erase_readBack` takes the layers out again, and `ofFields?_readBack` puts both together.

`Faithful` is the condition for a round trip: no text under the name of the layers, and no type in
disguise. Both halves can fail in metadata that was made by hand, and neither in metadata that was
read (`faithful_of_decode`). Without layers nothing is written under their name, but a text of that
name is then read as layers all the same, and refused.
-/

set_option autoImplicit false

namespace TileArchive.Metadata

open Json

/-- The metadata with the types of its layers read from their texts. -/
def plain (m : Metadata) : Metadata :=
  { m with vectorLayers := m.vectorLayers.map VectorLayer.plain }

/-- Written metadata that is read back as it is: no other field has the name of the layers, and
no type is kept as the text of a known one. -/
def Faithful (m : Metadata) : Prop :=
  m.other.get? layersName = none ∧ ∀ layer ∈ m.vectorLayers, layer.IsPlain

/-- Metadata is read back with the same layers just if these have no types in disguise. -/
theorem plain_eq_self_iff {m : Metadata} :
    m.plain = m ↔ ∀ layer ∈ m.vectorLayers, layer.IsPlain := by
  have layers_iff : m.plain = m
      ↔ m.vectorLayers.map VectorLayer.plain = m.vectorLayers.map id := by
    cases m
    simp [plain]
  rw [layers_iff, List.map_inj_left]
  exact forall₂_congr fun _ _ => VectorLayer.plain_eq_self_iff

/-! ### The object that is written -/

/-- The field that holds the layers, if there are any. -/
def layerFields (m : Metadata) : List (String × Value) :=
  if m.vectorLayers.isEmpty then []
  else [(layersName, Value.array (m.vectorLayers.map VectorLayer.value))]

/-- The fields that hold texts. -/
def textFields (m : Metadata) : List (String × Value) :=
  m.other.fields.map fun f => (f.1, Value.string f.2)

/-- The texts are in order, because they are kept in a dictionary. -/
theorem increasing_textFields (m : Metadata) : Fields.Increasing m.textFields :=
  Fields.increasing_map m.other.increasing Value.string

/-- What is found under a name among the texts is the text of this name. -/
theorem get?_textFields (m : Metadata) (name : String) :
    Fields.get? name m.textFields = (m.other.get? name).map Value.string :=
  Fields.get?_map name Value.string m.other.fields

/-- Written metadata is four levels deep at most, which a reader accepts. -/
theorem within_value (m : Metadata) : Value.Within Value.maxDepth m.value := by
  refine Value.fieldsWithin_iff.2 fun field mem => ?_
  rcases List.mem_append.1 mem with layers | texts
  · split at layers
    · cases layers
    · obtain rfl := List.mem_singleton.1 layers
      refine Value.itemsWithin_iff.2 fun layer mem => ?_
      obtain ⟨l, -, rfl⟩ := List.mem_map.1 mem
      exact VectorLayer.within_value _ l
  · obtain ⟨_, -, rfl⟩ := List.mem_map.1 texts
    trivial

/-- The object that is read from a written section. Fields are in order there, and a name
that occurs twice has the value of its last occurrence. -/
def readBack (m : Metadata) : List (String × Value) :=
  Fields.ofList (Value.settledFields m.layerFields ++ m.textFields)

/-- What is read from written metadata is an object with the fields that were written. -/
theorem parse?_encode (m : Metadata) :
    (textOf? m.encode >>= Value.parse?) = some (.object m.readBack) := by
  have texts : Value.settledFields m.textFields = m.textFields := by
    rw [Value.settledFields_eq_map, textFields, List.map_map]
    rfl
  have text_eq : textOf? m.encode = some m.value.text := Text.fromUTF8_utf8 m.value.text
  have settled_eq : m.value.settled = .object m.readBack := by
    rw [readBack, ← texts, ← Value.settledFields_append]
    rfl
  rw [text_eq, Option.bind_eq_bind, Option.bind_some, Value.parse?_text m.within_value, settled_eq]

/-- Another field of the name of the layers comes later, so it counts. -/
theorem get?_readBack (m : Metadata) :
    Fields.get? layersName m.readBack
      = ((m.other.get? layersName).map Value.string).or
          (Fields.get? layersName (Value.settledFields m.layerFields)) := by
  have single : (Value.settledFields m.layerFields).reverse
      = Value.settledFields m.layerFields := by
    rw [layerFields]
    split <;> rfl
  rw [readBack, Fields.get?_ofList, List.reverse_append, Fields.get?_append, single,
    Fields.get?_reverse m.increasing_textFields, get?_textFields]

/-! ### Reading it back -/

/-- The layers are read back from what is written under their name, also where there are
none. -/
theorem readLayers?_layerFields (m : Metadata) :
    readLayers? (Fields.get? layersName (Value.settledFields m.layerFields))
      = some (m.vectorLayers.map VectorLayer.plain) := by
  rw [layerFields]
  split
  · next none_there =>
    rw [List.isEmpty_iff.1 none_there]
    rfl
  · have layers : list? VectorLayer.read? (Value.array
          (Value.settledItems (m.vectorLayers.map VectorLayer.value)))
        = some (m.vectorLayers.map VectorLayer.plain) := by
      rw [Value.settledItems_eq_map, List.map_map]
      show List.mapM VectorLayer.read? _ = _
      rw [List.mapM_map, funext (show ∀ l, (VectorLayer.read? ∘ Value.settled ∘ VectorLayer.value) l
        = pure l.plain from VectorLayer.read?_value)]
      exact List.mapM_pure
    exact layers

/-- Besides the layers there are the texts. -/
theorem erase_readBack {m : Metadata} (absent : m.other.get? layersName = none) :
    Fields.erase layersName m.readBack = m.textFields := by
  have layers : Fields.erase layersName (Value.settledFields m.layerFields) = [] := by
    rw [layerFields]
    split <;> rfl
  have texts : Fields.erase layersName m.textFields = m.textFields :=
    Fields.erase_of_get?_eq_none (by rw [get?_textFields, absent, Option.map_none])
  have parts : Fields.erase layersName (Value.settledFields m.layerFields ++ m.textFields)
      = m.textFields := by
    rw [Fields.erase_append, layers, texts, List.nil_append]
  rw [readBack, Fields.erase_ofList, parts, Fields.ofList_of_increasing m.increasing_textFields]

/-- Where no text has the name of the layers the plain metadata is read back. -/
theorem ofFields?_readBack {m : Metadata} (absent : m.other.get? layersName = none) :
    ofFields? m.readBack = some m.plain := by
  have layers : readLayers? (Fields.get? layersName m.readBack)
      = some (m.vectorLayers.map VectorLayer.plain) := by
    rw [get?_readBack, absent, Option.map_none, Option.none_or, readLayers?_layerFields]
  have kept : m.textFields.map (fun f => (f.1, keptText f.2)) = m.other.fields := by
    rw [textFields, List.map_map]
    exact List.map_id m.other.fields
  simp only [ofFields?, layers, erase_readBack absent, kept, Dictionary.ofList_fields,
    Option.bind_eq_bind, Option.bind_some]
  rfl

/-- Without another field of the name of the layers, written metadata is read back as its plain
form. -/
theorem decode_encode {m : Metadata} (absent : m.other.get? layersName = none) :
    decode m.encode = .ok m.plain := by
  rw [decode, parse?_encode]
  simp only [ofValue, ofFields?_readBack absent]
  rfl

/-- Another field of the name of the layers is taken for them, and is no list. -/
theorem decode_encode_of_reserved {m : Metadata} (reserved : m.other.get? layersName ≠ none) :
    decode m.encode = .error .malformed := by
  obtain ⟨text, found⟩ := Option.ne_none_iff_exists'.1 reserved
  have layers : readLayers? (Fields.get? layersName m.readBack) = none := by
    rw [get?_readBack, found]
    rfl
  rw [decode, parse?_encode]
  simp only [ofValue, ofFields?, layers]
  rfl

/-! ### What is read at all -/

/-- Layers that were read have no types in disguise. -/
theorem isPlain_of_readLayers? {found : Option Value} {layers : List VectorLayer}
    (layers_eq : readLayers? found = some layers) : ∀ layer ∈ layers, layer.IsPlain := by
  intro layer mem
  unfold readLayers? at layers_eq
  split at layers_eq
  · cases layers_eq
    cases mem
  · cases layers_eq
    cases mem
  · obtain ⟨item, layer_eq⟩ := mem_list? layers_eq mem
    exact VectorLayer.isPlain_of_read? layer_eq

/-- Metadata that was read can be written and read again. -/
theorem faithful_of_ofFields? {fields : List (String × Value)} {m : Metadata}
    (fields_eq : ofFields? fields = some m) : m.Faithful := by
  obtain ⟨layers, layers_eq, metadata_eq⟩ := Option.bind_eq_some_iff.1 fields_eq
  obtain rfl := Option.some.inj metadata_eq
  refine ⟨Fields.get?_eq_none_iff.2 fun field mem => ?_, isPlain_of_readLayers? layers_eq⟩
  -- Every kept field was a field of the object that has not been taken out.
  obtain ⟨kept, kept_mem, rfl⟩ := List.mem_map.1 (Fields.mem_of_mem_ofList mem)
  simpa using (List.mem_filter.1 kept_mem).2

/-- Metadata that is read is faithful: the field of the layers has been taken out, and types
have been read from texts. -/
theorem faithful_of_decode {data : Bytes} {m : Metadata} (read_eq : decode data = .ok m) :
    m.Faithful := by
  unfold decode at read_eq
  split at read_eq
  · cases read_eq
  · next value _ =>
    cases value with
    | object fields =>
        cases fields_eq : ofFields? fields with
        | none => simp [ofValue, fields_eq] at read_eq
        | some read =>
            simp only [ofValue, fields_eq, Option.elim_some, Except.ok.injEq] at read_eq
            exact read_eq ▸ faithful_of_ofFields? fields_eq
    | _ => cases read_eq

/-- Written metadata is read back as it is exactly where it is faithful. Where another field
has the name of the layers it cannot be read; where only types are kept as texts of known ones,
these types are read instead. Metadata that was read is faithful, so from then on writing and
reading keep it. -/
theorem written_reads_back :
    (∀ m : Metadata,
      (decode m.encode = .ok m ↔ m.Faithful) ∧
      (m.other.get? layersName ≠ none → ∃ e, decode m.encode = .error e) ∧
      (m.other.get? layersName = none → decode m.encode = .ok m.plain)) ∧
    ∀ (data : Bytes) (m : Metadata), decode data = .ok m →
      m.Faithful ∧ decode m.encode = .ok m := by
  have kept {m : Metadata} (faithful : m.Faithful) : decode m.encode = .ok m := by
    rw [decode_encode faithful.1, plain_eq_self_iff.2 faithful.2]
  refine ⟨fun m => ⟨⟨faithful_of_decode, kept⟩, fun reserved => ?_, decode_encode⟩,
    fun data m read_eq => ⟨faithful_of_decode read_eq, kept (faithful_of_decode read_eq)⟩⟩
  exact ⟨.malformed, decode_encode_of_reserved reserved⟩

/-- One layer, one of whose types is kept as the text of a known one, beside a field whose name
has to be escaped. -/
def loose : Metadata :=
  ⟨[⟨"roads", .ofList [("lanes", .other "Number")], none, none, some 14⟩],
    .ofList [("\"na\x01me\"", "")]⟩

/-- A field that has the name of the layers. -/
def reserved : Metadata := ⟨[], .ofList [(layersName, "[]")]⟩

/-- Both are written, the one is read with another type, and from then on it is kept. -/
theorem written_reads_back_loose :
    decode loose.encode = .ok loose.plain ∧ loose.plain ≠ loose ∧
      (loose.plain.Faithful ∧ decode loose.plain.encode = .ok loose.plain) ∧
      reserved.other.get? layersName ≠ none ∧ ∃ e, decode reserved.encode = .error e := by
  have read_eq : decode loose.encode = .ok loose.plain :=
    (written_reads_back.1 loose).2.2 (by decide)
  have there : reserved.other.get? layersName ≠ none := by decide
  exact ⟨read_eq, by decide, written_reads_back.2 _ _ read_eq, there,
    (written_reads_back.1 reserved).2.1 there⟩

end TileArchive.Metadata
