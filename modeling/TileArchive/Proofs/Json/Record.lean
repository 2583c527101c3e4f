import TileArchive.Json.Record
import TileArchive.Proofs.Dictionary

/-!
# `TileArchive.Proofs.Json.Record`: fields of an object that has a value

The object of a value has every name once, in order, so a record read from it has the field of
each name that is found under the name (`record?_object`). What is read from the members of a
dictionary or the items of a list was read from one of them (`mem_dictionary?`, `mem_list?`).

A record that is read straight from the text would refuse a name that occurs twice. This does not
come up for an object that was a value before: there the last field of a name has already won.
-/

set_option autoImplicit false

namespace TileArchive.Json

/-- In an increasing list a name stands at most once. So a record can be read from a value
without an error for names that repeat. -/
theorem single?_of_increasing {α : Type} {fields : List (String × α)}
    (increasing : Fields.Increasing fields) (name : String) :
    single? fields name = some (Fields.get? name fields) := by
  induction fields with
  | nil => rfl
  | cons head rest ih =>
      by_cases first : head.1 = name
      · have above := (List.pairwise_cons.1 increasing).1
        have only : rest.filter (fun m => m.1 = name) = [] := by
          refine List.filter_eq_nil_iff.2 fun field mem same => ?_
          have same : field.1 = name := by simpa using same
          exact String.lt_irrefl _ (same ▸ first ▸ above field mem)
        rw [single?, List.filter_cons_of_pos (by simpa using first), only, Fields.get?_cons,
          if_pos first]
      · rw [Fields.get?_cons, if_neg first, ← ih increasing.of_cons, single?, single?,
          List.filter_cons_of_neg (by simpa using first)]

/-- A record read from an object has, for each of its names, what is found under the name. -/
theorem record?_object {fields : List (String × Value)} (increasing : Fields.Increasing fields)
    (names : List String) :
    record? names (Value.object fields) = some (names.map fun name => Fields.get? name fields) := by
  have members : (fields.map fun f => (some f.1, f.2)).mapM (pair? some) = some fields := by
    rw [List.mapM_map]
    exact List.mapM_pure.trans (congrArg some (List.map_id fields))
  have singles : names.mapM (single? fields)
      = some (names.map fun name => Fields.get? name fields) := by
    rw [funext (single?_of_increasing increasing)]
    exact List.mapM_pure
  simp only [record?, Viewable.view, members, Option.bind_eq_bind, Option.bind_some, singles]

/-! ### What is read from a part -/

/-- Where all items of a list can be read, every result was read from one of them. A fact
about one item is carried to all results in this way. -/
theorem mem_of_mapM {α β : Type} {read : α → Option β} {items : List α} {results : List β}
    (read_eq : items.mapM read = some results) {b : β} (mem : b ∈ results) :
    ∃ a ∈ items, read a = some b := by
  induction items generalizing results with
  | nil =>
      cases read_eq
      cases mem
  | cons a items ih =>
      rw [List.mapM_cons] at read_eq
      obtain ⟨first, first_eq, rest_eq⟩ := Option.bind_eq_some_iff.1 read_eq
      obtain ⟨rest, more_eq, results_eq⟩ := Option.bind_eq_some_iff.1 rest_eq
      obtain rfl := Option.some.inj results_eq
      rcases List.mem_cons.1 mem with rfl | mem
      · exact ⟨a, List.mem_cons_self, first_eq⟩
      · obtain ⟨item, item_mem, item_eq⟩ := ih more_eq mem
        exact ⟨item, List.mem_cons_of_mem _ item_mem, item_eq⟩

variable {α β : Type} [Viewable α] {read : α → Option β} {a : α}

/-- Every item of a list that was read was read from something. -/
theorem mem_list? {results : List β} (read_eq : list? read a = some results) {b : β}
    (mem : b ∈ results) : ∃ item, read item = some b := by
  unfold list? at read_eq
  split at read_eq
  · obtain ⟨item, -, item_eq⟩ := mem_of_mapM read_eq mem
    exact ⟨item, item_eq⟩
  · cases read_eq

/-- Every value of a dictionary that was read was read from something. -/
theorem mem_dictionary? {results : Dictionary β} (read_eq : dictionary? read a = some results)
    {field : String × β} (mem : field ∈ results.fields) : ∃ item, read item = some field.2 := by
  unfold dictionary? at read_eq
  split at read_eq
  · obtain ⟨pairs, pairs_eq, rfl⟩ := Option.map_eq_some_iff.1 read_eq
    obtain ⟨m, -, pair_eq⟩ := mem_of_mapM pairs_eq (Fields.mem_of_mem_ofList mem)
    obtain ⟨name, -, value_eq⟩ := Option.bind_eq_some_iff.1 pair_eq
    obtain ⟨value, read_eq, field_eq⟩ := Option.bind_eq_some_iff.1 value_eq
    exact ⟨m.2, Option.some.inj field_eq ▸ read_eq⟩
  · cases read_eq

end TileArchive.Json
