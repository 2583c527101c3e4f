/-!
# `TileArchive.Dictionary`: values by name, in the order of names

A dictionary holds one value per name and lists them in the order of the names, which for
texts is the order of their characters' code points. The order is part of the type, so two
dictionaries with the same content are equal.

* `Fields.put` and `Fields.erase` work on bare lists of pairs. The values of a JSON object
  are such a list.
* `Dictionary` is a list of pairs together with the proof that its names increase.

The order of texts by code points is also the order of their encodings byte by byte, so names are
in the order that sorting their bytes gives. That changes keep the names in order is proved beside
each change here, since the type asks for it. What is found after a change is in
`Proofs/Dictionary.lean`.
-/

set_option autoImplicit false

namespace TileArchive

namespace Fields

variable {α : Type}

/-- Names increase from pair to pair. -/
def Increasing (fields : List (String × α)) : Prop :=
  fields.Pairwise fun a b => a.1 < b.1

/-- Gives a name a value, in place of the one it had. -/
def put (name : String) (value : α) : List (String × α) → List (String × α)
  | [] => [(name, value)]
  | head :: rest =>
    if name < head.1 then (name, value) :: head :: rest
    else if head.1 < name then head :: put name value rest
    else (name, value) :: rest

/-- The value of a name. -/
def get? (name : String) : List (String × α) → Option α
  | [] => none
  | head :: rest => if head.1 = name then some head.2 else get? name rest

/-- Leaves a name out. -/
def erase (name : String) (fields : List (String × α)) : List (String × α) :=
  fields.filter fun field => field.1 ≠ name

/-- The names that remain after a change were there before, or are the one put in. -/
theorem mem_put {name : String} {value : α} {fields : List (String × α)}
    {field : String × α} (h : field ∈ put name value fields) :
    field = (name, value) ∨ field ∈ fields := by
  induction fields with
  | nil => exact Or.inl (by simpa [put] using h)
  | cons head rest ih =>
    rw [put] at h
    split at h
    · simpa using h
    · split at h
      · rcases List.mem_cons.1 h with rfl | h
        · exact Or.inr List.mem_cons_self
        · exact (ih h).imp id (List.mem_cons_of_mem _)
      · exact (List.mem_cons.1 h).imp id (List.mem_cons_of_mem _)

/-- Names increase after one of them was given a value. The value goes in front of the first
name that is higher, or takes the place of the one that is the same. -/
theorem increasing_put {name : String} {value : α} {fields : List (String × α)}
    (h : Increasing fields) : Increasing (put name value fields) := by
  induction fields with
  | nil => simp [put, Increasing]
  | cons head rest ih =>
    have ⟨below, tail⟩ := List.pairwise_cons.1 h
    rw [put]
    split
    · next lt =>
      refine List.pairwise_cons.2 ⟨fun b hb => ?_, h⟩
      rcases List.mem_cons.1 hb with rfl | hb
      · exact lt
      · exact String.lt_trans lt (below b hb)
    · next notLt =>
      split
      · next gt =>
        refine List.pairwise_cons.2 ⟨fun b hb => ?_, ih tail⟩
        rcases mem_put hb with rfl | hb
        · exact gt
        · exact below b hb
      · next notGt =>
        -- Neither name is below the other, so the new pair takes the place of the old.
        have same : head.1 = name :=
          String.le_antisymm (String.not_lt.1 notLt) (String.not_lt.1 notGt)
        exact List.pairwise_cons.2 ⟨fun b hb => same ▸ below b hb, tail⟩

/-- Names increase after one of them was left out. -/
theorem increasing_erase {name : String} {fields : List (String × α)}
    (h : Increasing fields) : Increasing (erase name fields) :=
  List.Pairwise.filter _ h

/-- The list of pairs in which each of the given pairs has been put in turn, so that the
last value of a name counts. -/
def ofList (pairs : List (String × α)) : List (String × α) :=
  pairs.foldl (fun fields pair => put pair.1 pair.2 fields) []

/-- Names increase after several of them were given values. -/
theorem increasing_foldl_put (pairs : List (String × α)) {fields : List (String × α)}
    (h : Increasing fields) :
    Increasing (pairs.foldl (fun fields pair => put pair.1 pair.2 fields) fields) := by
  induction pairs generalizing fields with
  | nil => exact h
  | cons pair rest ih => exact ih (increasing_put h)

/-- The list that is made of any pairs has every name once, in order. -/
theorem increasing_ofList (pairs : List (String × α)) : Increasing (ofList pairs) :=
  increasing_foldl_put pairs List.Pairwise.nil

end Fields

/-- One value per name, in the order of the names. The order is part of the data, so two
dictionaries with the same values are equal, and none has a name twice. -/
structure Dictionary (α : Type) where
  fields : List (String × α)
  increasing : Fields.Increasing fields

namespace Dictionary

variable {α : Type}

/-- Dictionaries with the same pairs are equal; the proofs that come with them do not count. -/
@[ext]
theorem ext {d e : Dictionary α} (h : d.fields = e.fields) : d = e := by
  cases d
  cases e
  cases h
  rfl

instance [DecidableEq α] : DecidableEq (Dictionary α) := fun d e =>
  decidable_of_iff (d.fields = e.fields) ⟨ext, fun h => h ▸ rfl⟩

/-- The dictionary without names. -/
def empty : Dictionary α := ⟨[], List.Pairwise.nil⟩

instance : Inhabited (Dictionary α) := ⟨empty⟩

/-- Gives a name a value, in place of the one it had. -/
def put (d : Dictionary α) (name : String) (value : α) : Dictionary α :=
  ⟨Fields.put name value d.fields, Fields.increasing_put d.increasing⟩

/-- The value of a name. -/
def get? (d : Dictionary α) (name : String) : Option α :=
  Fields.get? name d.fields

/-- Leaves a name out. -/
def erase (d : Dictionary α) (name : String) : Dictionary α :=
  ⟨Fields.erase name d.fields, Fields.increasing_erase d.increasing⟩

/-- The dictionary of some pairs; the last value of a name counts. -/
def ofList (pairs : List (String × α)) : Dictionary α :=
  ⟨Fields.ofList pairs, Fields.increasing_ofList pairs⟩

end Dictionary

end TileArchive
