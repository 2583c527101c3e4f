import TileArchive.Dictionary

/-!
# `TileArchive.Proofs.Dictionary`: what is found under a name

A list of pairs whose names increase is determined by what is found under each name
(`Fields.eq_of_get?_eq`). `get?_put`, `get?_erase` and `get?_ofList` say what that is after a
change, so equations between such lists reduce to equations between lookups: putting the
pairs of an increasing list in one after another gives the list back
(`Fields.ofList_of_increasing`), and a name may be left out before or after
(`Fields.erase_ofList`). `Fields.Last` says which of several values of a name counts.

## How the lemmas fit together

`Fields` are lists of pairs, without a condition on their names; a `Dictionary` is such a list
together with the proof that the names increase. What is said of looking up, changing and removing
is said of the lists, since it holds without the condition, and the dictionaries take it over.
Only the uniqueness of the list with given lookups needs the names to increase: the first name of
each of two such lists is found in the other, so neither can come before the other.

A dictionary that is made of a list with repeated names keeps the last value of each
(`get?_ofList_eq_some_iff`), which is how a repeated key of an object is read.
-/

set_option autoImplicit false

namespace TileArchive

namespace Fields

variable {α β : Type}

/-! ### Looking up after a change -/

/-- In an empty list nothing is found. -/
@[simp]
theorem get?_nil (name : String) : get? name ([] : List (String × α)) = none := rfl

/-- What is found is the first value with this name. -/
theorem get?_cons (name : String) (head : String × α) (rest : List (String × α)) :
    get? name (head :: rest) = if head.1 = name then some head.2 else get? name rest := rfl

/-- A value that is put in is found under its name, and under all others nothing changes. No
order of the fields is asked for. -/
theorem get?_put (name other : String) (value : α) (fields : List (String × α)) :
    get? other (put name value fields)
      = if name = other then some value else get? other fields := by
  induction fields with
  | nil => simp [put, get?_cons]
  | cons head rest ih =>
      rw [put]
      split
      · rw [get?_cons]
      · split
        · next gt =>
          -- The head keeps its place, and its name is not the one that is put in.
          have ne : name ≠ head.1 := fun eq => String.lt_irrefl _ (eq ▸ gt)
          rw [get?_cons, get?_cons, ih]
          split <;> simp_all
        · next notLt notGt =>
          have same : head.1 = name :=
            String.le_antisymm (String.not_lt.1 notLt) (String.not_lt.1 notGt)
          simp only [get?_cons, same]
          split <;> rfl

/-- Under a name that was removed nothing is found, and under all others nothing changes. -/
theorem get?_erase (name other : String) (fields : List (String × α)) :
    get? other (erase name fields) = if other = name then none else get? other fields := by
  induction fields with
  | nil => simp [erase]
  | cons head rest ih =>
      rw [erase] at ih ⊢
      by_cases gone : head.1 = name
      · rw [List.filter_cons_of_neg (by simp [gone]), ih, get?_cons, gone]
        split <;> simp_all [eq_comm]
      · rw [List.filter_cons_of_pos (by simp [gone]), get?_cons, ih, get?_cons]
        split <;> simp_all

/-- Nothing is found exactly under the names that no pair has. -/
theorem get?_eq_none_iff {name : String} {fields : List (String × α)} :
    get? name fields = none ↔ ∀ field ∈ fields, field.1 ≠ name := by
  induction fields with
  | nil => simp
  | cons head rest ih =>
      rw [get?_cons, List.forall_mem_cons]
      split <;> simp_all

/-- In a longer list the front comes first. -/
theorem get?_append (name : String) (front back : List (String × α)) :
    get? name (front ++ back) = (get? name front).or (get? name back) := by
  induction front with
  | nil => rfl
  | cons head front ih =>
      rw [List.cons_append, get?_cons, get?_cons, ih]
      split <;> rfl

/-- The last pair of a name counts. -/
theorem get?_ofList (name : String) (pairs : List (String × α)) :
    get? name (ofList pairs) = get? name pairs.reverse := by
  rw [ofList, ← List.foldr_reverse]
  induction pairs.reverse with
  | nil => rfl
  | cons pair earlier ih => rw [List.foldr_cons, get?_put, ih, get?_cons]

/-- The value that a list gives a name last. Where a name is repeated this is the value that
counts. -/
def Last (pairs : List (String × α)) (name : String) (value : α) : Prop :=
  ∃ before after, pairs = before ++ (name, value) :: after ∧ ∀ pair ∈ after, pair.1 ≠ name

/-- What is found is the first value of the name. In a dictionary it is the only one. -/
theorem get?_eq_some_iff {name : String} {value : α} {fields : List (String × α)} :
    get? name fields = some value ↔ ∃ before after,
      fields = before ++ (name, value) :: after ∧ ∀ pair ∈ before, pair.1 ≠ name := by
  constructor
  · intro found
    induction fields with
    | nil => cases found
    | cons head rest ih =>
        rw [get?_cons] at found
        split at found
        · next same =>
          cases found
          exact ⟨[], rest, by rw [← same]; rfl, nofun⟩
        · next other =>
          obtain ⟨before, after, rfl, none_before⟩ := ih found
          exact ⟨head :: before, after, rfl, List.forall_mem_cons.mpr ⟨other, none_before⟩⟩
  · rintro ⟨before, after, rfl, none_before⟩
    rw [get?_append, get?_eq_none_iff.mpr none_before, Option.none_or, get?_cons, if_pos rfl]

/-- Of several values of one name the last is found in the dictionary that is made of them. -/
theorem get?_ofList_eq_some_iff {name : String} {value : α} {pairs : List (String × α)} :
    get? name (ofList pairs) = some value ↔ Last pairs name value := by
  rw [get?_ofList, get?_eq_some_iff]
  constructor
  · rintro ⟨after, before, reverse_eq, none_after⟩
    refine ⟨before.reverse, after.reverse, ?_, by simpa using none_after⟩
    rw [← List.reverse_reverse pairs, reverse_eq]
    simp
  · rintro ⟨before, after, rfl, none_after⟩
    exact ⟨after.reverse, before.reverse, by simp, by simpa using none_after⟩

/-- Nothing is found in the dictionary made of a list under the names that the list does not
have. -/
theorem get?_ofList_eq_none_iff {name : String} {pairs : List (String × α)} :
    get? name (ofList pairs) = none ↔ ∀ pair ∈ pairs, pair.1 ≠ name := by
  rw [get?_ofList, get?_eq_none_iff]
  simp only [List.mem_reverse]

/-- Changing all values changes the ones that are found, under the same names. -/
theorem get?_map (name : String) (f : α → β) (fields : List (String × α)) :
    get? name (fields.map fun field => (field.1, f field.2)) = (get? name fields).map f := by
  induction fields with
  | nil => rfl
  | cons head rest ih =>
      rw [List.map_cons, get?_cons, get?_cons, ih]
      split <;> rfl

/-! ### Increasing names -/

/-- Below the first name nothing is found. -/
theorem get?_of_below {name : String} {fields : List (String × α)}
    (below : ∀ field ∈ fields, name < field.1) : get? name fields = none :=
  get?_eq_none_iff.2 fun field mem eq => String.lt_irrefl _ (eq ▸ below field mem)

/-- Names that are found do not come before the first one. -/
theorem head_le_of_get? {name : String} {value : α} {head : String × α}
    {rest : List (String × α)} (increasing : Increasing (head :: rest))
    (found : get? name (head :: rest) = some value) : head.1 ≤ name := by
  refine String.not_lt.1 fun before => ?_
  have below : ∀ field ∈ head :: rest, name < field.1 := by
    intro field mem
    rcases List.mem_cons.1 mem with rfl | mem
    · exact before
    · exact String.lt_trans before (List.rel_of_pairwise_cons increasing mem)
  rw [get?_of_below below] at found
  cases found

/-- Increasing lists are equal where the same is found under every name. So two dictionaries
can be told apart by looking names up. -/
theorem eq_of_get?_eq {fields fields' : List (String × α)} (increasing : Increasing fields)
    (increasing' : Increasing fields') (same : ∀ name, get? name fields = get? name fields') :
    fields = fields' := by
  induction fields generalizing fields' with
  | nil =>
      cases fields' with
      | nil => rfl
      | cons head' _ => simpa [get?_cons] using same head'.1
  | cons head rest ih =>
      cases fields' with
      | nil => simpa [get?_cons] using same head.1
      | cons head' rest' =>
          have found : get? head.1 (head :: rest) = some head.2 := by rw [get?_cons, if_pos rfl]
          have found' : get? head'.1 (head' :: rest') = some head'.2 := by
            rw [get?_cons, if_pos rfl]
          -- Each of the first names is found in the other list, so neither comes before.
          have name_eq : head.1 = head'.1 :=
            String.le_antisymm (head_le_of_get? increasing ((same _).trans found'))
              (head_le_of_get? increasing' ((same _).symm.trans found))
          have value_eq : head.2 = head'.2 := by
            rw [same, name_eq, found'] at found
            exact (Option.some.inj found).symm
          have above := (List.pairwise_cons.1 increasing).1
          have above' := (List.pairwise_cons.1 increasing').1
          have rest_eq : rest = rest' := by
            refine ih increasing.of_cons increasing'.of_cons fun name => ?_
            by_cases first : head.1 = name
            · rw [get?_of_below fun field mem => first ▸ above field mem,
                get?_of_below fun field mem => first ▸ name_eq ▸ above' field mem]
            · simpa [get?_cons, first, name_eq ▸ first] using same name
          rw [Prod.ext name_eq value_eq, rest_eq]

/-- In an increasing list the last pair of a name is the first. -/
theorem get?_reverse {fields : List (String × α)} (increasing : Increasing fields)
    (name : String) : get? name fields.reverse = get? name fields := by
  induction fields with
  | nil => rfl
  | cons head rest ih =>
      rw [List.reverse_cons, get?_append, ih increasing.of_cons, get?_cons, get?_cons, get?_nil]
      by_cases first : head.1 = name
      · have above := (List.pairwise_cons.1 increasing).1
        rw [if_pos first, if_pos first, get?_of_below fun field mem => first ▸ above field mem]
        rfl
      · rw [if_neg first, if_neg first, Option.or_none]

/-- Putting in the pairs of an increasing list gives the list back. -/
theorem ofList_of_increasing {fields : List (String × α)} (increasing : Increasing fields) :
    ofList fields = fields :=
  eq_of_get?_eq (increasing_ofList fields) increasing fun name => by
    rw [get?_ofList, get?_reverse increasing]

/-- A name may be left out before or after. -/
theorem erase_ofList (name : String) (pairs : List (String × α)) :
    erase name (ofList pairs) = ofList (erase name pairs) :=
  eq_of_get?_eq (increasing_erase (increasing_ofList pairs)) (increasing_ofList _) fun other => by
    have erase_reverse : (erase name pairs).reverse = erase name pairs.reverse :=
      List.filter_reverse.symm
    rw [get?_erase, get?_ofList, get?_ofList, erase_reverse, get?_erase]

/-- A name is removed from both parts of a list. -/
theorem erase_append (name : String) (front back : List (String × α)) :
    erase name (front ++ back) = erase name front ++ erase name back :=
  List.filter_append front back

/-- A name that is not found is not there to be left out. -/
theorem erase_of_get?_eq_none {name : String} {fields : List (String × α)}
    (absent : get? name fields = none) : erase name fields = fields := by
  refine List.filter_eq_self.2 fun field mem => ?_
  simpa using get?_eq_none_iff.1 absent field mem

/-- Every pair of a dictionary is one of those it was made of. -/
theorem mem_of_mem_ofList {pairs : List (String × α)} {field : String × α}
    (mem : field ∈ ofList pairs) : field ∈ pairs := by
  rw [ofList, ← List.foldr_reverse] at mem
  rw [← List.mem_reverse]
  generalize pairs.reverse = latest at mem ⊢
  induction latest with
  | nil => exact mem
  | cons pair earlier ih =>
      rcases mem_put mem with rfl | mem
      · exact List.mem_cons_self
      · exact List.mem_cons_of_mem _ (ih mem)

/-- Changing the values leaves the names, so they increase as before. -/
theorem increasing_map {fields : List (String × α)} (increasing : Increasing fields)
    (f : α → β) : Increasing (fields.map fun field => (field.1, f field.2)) :=
  List.pairwise_map.2 increasing

end Fields

namespace Dictionary

variable {α β : Type}

/-- A dictionary with other values under the same names. -/
def map (f : α → β) (d : Dictionary α) : Dictionary β :=
  ⟨d.fields.map fun field => (field.1, f field.2), Fields.increasing_map d.increasing f⟩

/-- The values stay where each of them is kept. -/
theorem map_eq_self_iff {f : α → α} {d : Dictionary α} :
    d.map f = d ↔ ∀ field ∈ d.fields, f field.2 = field.2 := by
  have fields_iff : d.map f = d
      ↔ d.fields.map (fun field => (field.1, f field.2)) = d.fields.map id := by
    rw [List.map_id]
    exact ⟨congrArg fields, fun fields_eq => ext fields_eq⟩
  rw [fields_iff, List.map_inj_left]
  exact forall₂_congr fun field _ => by simp [Prod.ext_iff]

/-- The pairs of a dictionary make up the dictionary. -/
theorem ofList_fields (d : Dictionary α) : ofList d.fields = d :=
  ext (Fields.ofList_of_increasing d.increasing)

/-- After several names were removed, nothing is found under these and all else as before. -/
theorem get?_foldl_erase (names : List String) (d : Dictionary α) (name : String) :
    (names.foldl erase d).get? name = if name ∈ names then none else d.get? name := by
  induction names generalizing d with
  | nil => rfl
  | cons first names ih =>
      have erased : (d.erase first).get? name = if name = first then none else d.get? name :=
        Fields.get?_erase first name d.fields
      rw [List.foldl_cons, ih, erased]
      by_cases here : name = first
      · simp [here]
      · simp [here]

/-- Something is found exactly under the names of the dictionary. -/
theorem isSome_get?_iff {d : Dictionary α} {name : String} :
    (d.get? name).isSome ↔ name ∈ d.fields.map Prod.fst := by
  rw [Option.isSome_iff_ne_none, ne_eq, get?, Fields.get?_eq_none_iff, List.mem_map]
  simp only [ne_eq, Classical.not_forall, Classical.not_not, exists_prop]

/-- A dictionary has every name once. -/
theorem nodup_names (d : Dictionary α) : (d.fields.map Prod.fst).Nodup := by
  refine List.pairwise_map.mpr (d.increasing.imp ?_)
  intro field field' lt same
  exact String.lt_irrefl _ (same ▸ lt)

end Dictionary

end TileArchive
