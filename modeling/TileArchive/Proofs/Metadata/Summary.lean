import TileArchive.Metadata.Summary
import TileArchive.Proofs.Metadata.Document

/-!
# `TileArchive.Proofs.Metadata.Summary`: where the fields of the metadata go

The object in the metadata section is taken apart twice: reading takes out the layers, and a
summary takes out five fields that have a place of their own. In between every other field is
turned into a text.

* `Metadata.written?` lists the fields of the object as they are written, in order and with
  repetitions, of which the last counts.
* `Holds` says what a place of a summary has to do with a name: it is empty where the name is not
  written, and otherwise keeps the last value, as `Kept` says.
* `join_holds` goes through the places, and `mem_names_iff` and `nodup_names` through the names in
  all of them. So no field is lost, none is made up, and none is there twice
  (`metadata_fields_partitioned`).

Names are compared as texts, after escapes have been read: a name that is written with an escape
is the same name as one that is written without. `written?` therefore lists names as they are read
and not as they stand in the bytes, but does not yet drop repetitions.

A field is absent from its place if and only if it is not written. In particular a field that is
written as null has a place, with the text of null, like every value that is not a string.
-/

set_option autoImplicit false

namespace TileArchive

open Json

namespace Metadata

/-- The fields of the object in a section as they are written, with repetitions. -/
def written? (data : Bytes) : Option (List (String × Value)) := do
  match ← Node.parse? (← textOf? data) with
  | .object members => Value.ofMembers? (Value.maxDepth - 1) members
  | _ => none

/-- The text that is kept of a value: that of a string itself, and the JSON text of any
other. So a string that says `null` and the value `null` are kept alike. -/
inductive Kept : Value → String → Prop where
  | string (text : String) : Kept (.string text) text
  | other {value : Value} (other : ∀ text, value ≠ .string text) : Kept value value.text

/-- What is kept of a value is determined by the value. -/
theorem kept_iff {value : Value} {text : String} : Kept value text ↔ text = keptText value := by
  constructor
  · intro kept
    -- The two ways to keep a value exclude each other, by whether the value is a text.
    cases kept with
    | string => rfl
    | other other =>
        cases value with
        | string s => exact absurd rfl (other s)
        | _ => rfl
  · rintro rfl
    cases value with
    | string s => exact .string s
    | _ => exact .other nofun

/-- What a place holds for a name, given the fields that were written: nothing where the
name is not written, and the text of its last value where it is. The fields are those of the
text in their order, with names that may repeat. -/
inductive Holds (written : List (String × Value)) (name : String) : Option String → Prop where
  | absent (none_written : ∀ field ∈ written, field.1 ≠ name) : Holds written name none
  | last {value : Value} {text : String} (last : Fields.Last written name value)
      (kept : Kept value text) : Holds written name (some text)

/-- What is found under a name in the object that was read has to do with the name what
`Holds` says. -/
theorem holds_get? (written : List (String × Value)) (name : String) :
    Holds written name ((Fields.get? name (Fields.ofList written)).map keptText) := by
  cases found : Fields.get? name (Fields.ofList written) with
  | none => exact .absent (Fields.get?_ofList_eq_none_iff.mp found)
  | some value => exact .last (Fields.get?_ofList_eq_some_iff.mp found) (kept_iff.mpr rfl)

/-- A place is filled just if its name is written. -/
theorem Holds.isSome_iff {written : List (String × Value)} {name : String} {text? : Option String}
    (holds : Holds written name text?) : text?.isSome ↔ name ∈ written.map Prod.fst := by
  rw [List.mem_map]
  cases holds with
  | absent none_written =>
      exact iff_of_false nofun fun ⟨field, member, name_eq⟩ => none_written field member name_eq
  | last last kept =>
      obtain ⟨before, after, rfl, -⟩ := last
      exact iff_of_true rfl ⟨_, List.mem_append_right before List.mem_cons_self, rfl⟩

/-! ### Reading -/

/-- Only an object as it is written has the value of an object. Its fields are the members
that were written, with the last value of each name. -/
theorem members_of_ofNode? {node : Node} {fields : List (String × Value)}
    (value_eq : Value.ofNode? node = some (.object fields)) :
    ∃ members written, node = .object members ∧
      Value.ofMembers? (Value.maxDepth - 1) members = some written ∧
      fields = Fields.ofList written := by
  -- Every other node has a value of its own kind.
  cases node with
  | object members =>
      obtain ⟨written, written_eq, fields_eq⟩ := Option.map_eq_some_iff.mp value_eq
      injection fields_eq with fields_eq
      exact ⟨members, written, rfl, written_eq, fields_eq.symm⟩
  | null => cases value_eq
  | bool b => cases value_eq
  | number n =>
      obtain ⟨_, -, fields_eq⟩ := Option.map_eq_some_iff.mp value_eq
      cases fields_eq
  | string s =>
      obtain ⟨_, -, fields_eq⟩ := Option.map_eq_some_iff.mp value_eq
      cases fields_eq
  | array items =>
      obtain ⟨_, -, fields_eq⟩ := Option.map_eq_some_iff.mp value_eq
      cases fields_eq

/-- Metadata that can be read is read without an error. -/
theorem decode_eq_ok {data : Bytes} {m : Metadata} (read : (decode data).toOption = some m) :
    decode data = .ok m := by
  cases read_eq : decode data with
  | error e =>
      rw [read_eq] at read
      cases read
  | ok found =>
      rw [read_eq] at read
      exact congrArg Except.ok (Option.some.inj read)

/-- What is read are the layers and the texts of an object. The object is given as it was
written, so that names which repeat can be spoken of. -/
theorem ofFields?_of_decode {data : Bytes} {m : Metadata} (read_eq : decode data = .ok m) :
    ∃ written, written? data = some written ∧ ofFields? (Fields.ofList written) = some m := by
  unfold decode at read_eq
  split at read_eq
  · cases read_eq
  · next value value_eq =>
    cases value with
    | object fields =>
        -- The steps of the reader are taken apart: bytes, text, tree, and the values of the
        -- members.
        obtain ⟨text, text_eq, parse_eq⟩ := Option.bind_eq_some_iff.mp value_eq
        obtain ⟨node, node_eq, value_eq⟩ := Option.bind_eq_some_iff.mp parse_eq
        obtain ⟨members, written, rfl, written_eq, rfl⟩ := members_of_ofNode? value_eq
        refine ⟨written, ?_, ?_⟩
        · simp only [written?, text_eq, node_eq, Option.bind_eq_bind, Option.bind_some, written_eq]
        · cases fields_eq : ofFields? (Fields.ofList written) with
          | none => simp [ofValue, fields_eq] at read_eq
          | some read =>
              simp only [ofValue, fields_eq, Option.elim_some, Except.ok.injEq] at read_eq
              rw [read_eq]
    | _ => cases read_eq

/-- The layers and the texts of an object. -/
theorem ofFields?_eq_some {fields : List (String × Value)} (increasing : Fields.Increasing fields)
    {m : Metadata} (read_eq : ofFields? fields = some m) :
    readLayers? (Fields.get? layersName fields) = some m.vectorLayers ∧
      ∀ name, m.other.get? name
        = if name = layersName then none else (Fields.get? name fields).map keptText := by
  obtain ⟨layers, layers_eq, metadata_eq⟩ := Option.bind_eq_some_iff.mp read_eq
  obtain rfl := Option.some.inj metadata_eq
  refine ⟨layers_eq, fun name => ?_⟩
  have texts : Fields.Increasing ((Fields.erase layersName fields).map fun f =>
      (f.1, keptText f.2)) := Fields.increasing_map (Fields.increasing_erase increasing) keptText
  show Fields.get? name (Fields.ofList _) = _
  rw [Fields.ofList_of_increasing texts, Fields.get?_map, Fields.get?_erase]
  split <;> rfl

end Metadata

namespace Summary

open Metadata

/-! ### The places of a summary -/

/-- The places that hold the value of one name. All other names share one place, and the
layers have theirs. -/
def own (s : Summary) : List (String × Option String) :=
  [("name", s.name), ("description", s.description), ("attribution", s.attribution),
    ("version", s.version), ("type", s.kind)]

/-- All names that a summary has a text for, in whatever place. A name that has two places
occurs twice in this list. -/
def names (s : Summary) : List String :=
  (s.own.filter fun place => place.2.isSome).map Prod.fst ++ s.others.fields.map Prod.fst

/-- The layers have no name that is lifted. -/
theorem free_of_lifted : ∀ name ∈ liftedNames, name ≠ layersName := by decide

variable {written : List (String × Value)} {m : Metadata}

/-- Every place holds what was written for its name, and the other fields have no name that has a
place of its own. -/
theorem join_holds (h : Header) (read_eq : ofFields? (Fields.ofList written) = some m) :
    (∀ place ∈ (join h m).own, Holds written place.1 place.2) ∧
      (∀ name, name ∉ layersName :: liftedNames →
        Holds written name ((join h m).others.get? name)) ∧
      ∀ name ∈ layersName :: liftedNames, (join h m).others.get? name = none := by
  obtain ⟨-, texts_eq⟩ := ofFields?_eq_some (Fields.increasing_ofList written) read_eq
  have holds (name : String) (free : name ≠ layersName) :
      Holds written name (m.other.get? name) := by
    rw [texts_eq, if_neg free]
    exact holds_get? written name
  have others_eq (name : String) : (join h m).others.get? name
      = if name ∈ liftedNames then none else m.other.get? name :=
    m.other.get?_foldl_erase liftedNames name
  refine ⟨?_, ?_, ?_⟩
  · -- A place of its own has what is found under its name, and no name is that of the layers.
    have own_eq : (join h m).own = liftedNames.map fun name => (name, m.other.get? name) := rfl
    intro place member
    rw [own_eq] at member
    obtain ⟨name, lifted, rfl⟩ := List.mem_map.mp member
    exact holds name (free_of_lifted name lifted)
  · intro name free
    rw [List.mem_cons, not_or] at free
    rw [others_eq, if_neg free.2]
    exact holds name free.1
  · intro name taken
    rw [others_eq, texts_eq]
    rcases List.mem_cons.mp taken with rfl | lifted
    · simp
    · rw [if_pos lifted]

/-- The names of a summary are those that were written, but for that of the layers. The
layers have a place of their own that is no text. -/
theorem mem_names_iff (h : Header) (read_eq : ofFields? (Fields.ofList written) = some m)
    (name : String) :
    name ∈ (join h m).names ↔ name ≠ layersName ∧ name ∈ written.map Prod.fst := by
  obtain ⟨own_holds, others_hold, others_free⟩ := join_holds h read_eq
  rw [names, List.mem_append, List.mem_map, ← Dictionary.isSome_get?_iff]
  -- A name is one of the five lifted ones, which are looked for in their places, or it is
  -- looked for among the other fields.
  constructor
  · rintro (⟨place, place_mem, rfl⟩ | there)
    · obtain ⟨own_mem, there⟩ := List.mem_filter.mp place_mem
      have lifted : place.1 ∈ liftedNames := List.mem_map_of_mem own_mem
      exact ⟨free_of_lifted _ lifted, (own_holds place own_mem).isSome_iff.mp there⟩
    · have free : name ∉ layersName :: liftedNames := by
        intro taken
        rw [others_free name taken] at there
        cases there
      exact ⟨fun eq => free (eq ▸ List.mem_cons_self),
        (others_hold name free).isSome_iff.mp there⟩
  · rintro ⟨free, there⟩
    by_cases lifted : name ∈ liftedNames
    · obtain ⟨place, own_mem, rfl⟩ : ∃ place ∈ (join h m).own, place.1 = name :=
        List.mem_map.mp lifted
      have held := (own_holds place own_mem).isSome_iff.mpr there
      exact .inl ⟨place, List.mem_filter.mpr ⟨own_mem, held⟩, rfl⟩
    · have not_taken : name ∉ layersName :: liftedNames := by simp [free, lifted]
      exact .inr ((others_hold name not_taken).isSome_iff.mpr there)

/-- No name stands in two places. -/
theorem nodup_names (h : Header) (read_eq : ofFields? (Fields.ofList written) = some m) :
    (join h m).names.Nodup := by
  obtain ⟨-, -, others_free⟩ := join_holds h read_eq
  have own_part : (((join h m).own.filter fun place => place.2.isSome).map Prod.fst).Sublist
      liftedNames := List.filter_sublist.map Prod.fst
  refine List.nodup_append.mpr ⟨own_part.nodup (by decide), Dictionary.nodup_names _, ?_⟩
  rintro name own_mem _ others_mem rfl
  have nothing := others_free name (List.mem_cons_of_mem _ (own_part.subset own_mem))
  rw [← Dictionary.isSome_get?_iff, nothing] at others_mem
  cases others_mem

end Summary

/-- No field of the metadata is lost, made up or doubled. Take the metadata that are read from a
section, and the object in the section as it is written. In their summary with any header,

* each of the five places of one name holds what was written last for this name, and is empty just
  where the name was not written;
* under any other name than these and that of the layers the remaining fields hold what was written
  last for it, and under these names they hold nothing;
* so the names in all places together are the names that were written but for that of the layers,
  each of them once;
* the layers are those that the last value for their name is a list of, and there are none where
  the name was not written or this value is `null`. -/
theorem metadata_fields_partitioned (h : Header) {data : Bytes} {m : Metadata}
    (read_eq : Metadata.decode data = .ok m) :
    ∃ written, Metadata.written? data = some written ∧
      let holds := Metadata.Holds written
      let r := Summary.join h m
      holds "name" r.name ∧ holds "description" r.description ∧
      holds "attribution" r.attribution ∧ holds "version" r.version ∧ holds "type" r.kind ∧
      (∀ name, name ∉ ["vector_layers", "name", "description", "attribution", "version", "type"] →
        holds name (r.others.get? name)) ∧
      (∀ name ∈ ["vector_layers", "name", "description", "attribution", "version", "type"],
        r.others.get? name = none) ∧
      (∀ name, name ∈ r.names ↔ name ≠ "vector_layers" ∧ name ∈ written.map Prod.fst) ∧
      r.names.Nodup ∧
      ((∀ field ∈ written, field.1 ≠ "vector_layers") → r.vectorLayers = []) ∧
      (Fields.Last written "vector_layers" .null → r.vectorLayers = []) ∧
      ∀ value, Fields.Last written "vector_layers" value → value ≠ .null →
        list? VectorLayer.read? value = some r.vectorLayers := by
  obtain ⟨written, written_eq, fields_eq⟩ := Metadata.ofFields?_of_decode read_eq
  obtain ⟨own, others, free⟩ := Summary.join_holds h fields_eq
  obtain ⟨layers_eq, -⟩ :=
    Metadata.ofFields?_eq_some (Fields.increasing_ofList written) fields_eq
  -- The five places are held in a list, so one fact about it is a fact about each of them.
  have places : ∀ place ∈ (Summary.join h m).own, _ := own
  simp only [Summary.own, List.forall_mem_cons] at places
  obtain ⟨name, description, attribution, version, kind, -⟩ := places
  refine ⟨written, written_eq, name, description, attribution, version, kind, others, free,
    Summary.mem_names_iff h fields_eq, Summary.nodup_names h fields_eq, ?_, ?_, ?_⟩
  · -- Absent layers are no layers.
    intro none_written
    rw [Metadata.layersName, Fields.get?_ofList_eq_none_iff.mpr none_written] at layers_eq
    exact (Option.some.inj layers_eq).symm
  · intro last
    rw [Metadata.layersName, Fields.get?_ofList_eq_some_iff.mpr last] at layers_eq
    exact (Option.some.inj layers_eq).symm
  · intro value last not_null
    rw [Metadata.layersName, Fields.get?_ofList_eq_some_iff.mpr last] at layers_eq
    cases value with
    | null => exact absurd rfl not_null
    | _ => exact layers_eq

/-- A name is written twice, once with an escape; its last value is `null`. Another name has a
list, and there are no layers. -/
def tangled : Bytes :=
  ("\x7b\"name\":\"a\",\"list\":[1, 2],"
    ++ "\"n\\u0061me\":null,\"vector_layers\":null\x7d").toUTF8.data.toList

/-- The name is kept as the text of `null`, and the list without its blank. The example also
has no type at all, so the place for it is empty. -/
theorem metadata_fields_partitioned_tangled :
    let m : Metadata := ⟨[], .ofList [("name", "null"), ("list", "[1,2]")]⟩
    Metadata.decode tangled = .ok m ∧ ∃ written, Metadata.written? tangled = some written ∧
      let r := Summary.join .blank m
      Metadata.Holds written "name" r.name ∧ r.name = some "null" ∧
      Metadata.Holds written "type" r.kind ∧ r.kind = none ∧
      Metadata.Holds written "list" (r.others.get? "list") ∧ r.others.get? "list" = some "[1,2]" ∧
      r.others.get? "name" = none ∧
      (∀ name, name ∈ r.names ↔ name ≠ "vector_layers" ∧ name ∈ written.map Prod.fst) ∧
      r.names.Nodup := by
  intro m
  have read_eq : Metadata.decode tangled = .ok m := Metadata.decode_eq_ok (by decide +kernel)
  obtain ⟨written, written_eq, name, -, -, -, kind, others, free, names_iff, nodup, -⟩ :=
    metadata_fields_partitioned .blank read_eq
  exact ⟨read_eq, written, written_eq, name, by decide, kind, by decide, others "list" (by decide),
    by decide, free "name" (by decide), names_iff, nodup⟩

end TileArchive
