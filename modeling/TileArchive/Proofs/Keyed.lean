import Mathlib.Data.List.Nodup

/-!
# `TileArchive.Proofs.Keyed`: lists in which no key occurs twice

What a cache holds, the loads it has registered and the tasks that wait for them are lists
that are searched by a key. When no key occurs twice, a search finds exactly the member with
the key (`find?_eq_some_iff`), and taking a key out takes out one member
(`perm_cons_filter`).

The lists stand for finite maps. They are kept as lists because their definitions are then plain
list functions that can be run, and because the order of the members carries no meaning: every
statement about them is by membership or up to permutation. `Keyed` is what makes a list a map,
and it is kept by taking members out (`filter`), by putting one in under a new key (`cons_iff`)
and by reordering (`perm`).
-/

set_option autoImplicit false

namespace TileArchive

/-- No two members of a list have the same key. A member can then be found by its key, and
changing it leaves the others alone. -/
def Keyed {α κ : Type} (key : α → κ) (xs : List α) : Prop := (xs.map key).Nodup

namespace Keyed

variable {α κ : Type} {key : α → κ} {x : α} {xs ys : List α}

/-- The empty list has no key twice. -/
theorem nil : Keyed key [] := List.nodup_nil

/-- A member can be put in front exactly where its key is new. -/
theorem cons_iff : Keyed key (x :: xs) ↔ (∀ y ∈ xs, key y ≠ key x) ∧ Keyed key xs := by
  simp [Keyed, List.nodup_cons]

/-- Reordering a list repeats no key. -/
theorem perm (keyed : Keyed key xs) (same : xs.Perm ys) : Keyed key ys :=
  (same.map key).nodup_iff.mp keyed

/-- Taking members out repeats no key. -/
theorem filter (keyed : Keyed key xs) (p : α → Bool) : Keyed key (xs.filter p) :=
  (List.filter_sublist.map key).nodup keyed

/-- A key belongs to one member at most. -/
theorem eq_of_key_eq (keyed : Keyed key xs) {y : α} (mem_x : x ∈ xs) (mem_y : y ∈ xs)
    (same : key x = key y) : x = y :=
  List.inj_on_of_nodup_map keyed mem_x mem_y same

variable [DecidableEq κ]

/-- A search by key finds the member with the key. -/
theorem find?_eq_some_iff (keyed : Keyed key xs) {k : κ} :
    xs.find? (fun y => key y = k) = some x ↔ x ∈ xs ∧ key x = k := by
  constructor
  · intro found
    exact ⟨List.mem_of_find?_eq_some found, by simpa using List.find?_some found⟩
  · -- A search for the key of a member cannot fail, and what it finds has the same key.
    rintro ⟨member, rfl⟩
    cases found : xs.find? fun y => key y = key x with
    | none =>
        have missed := List.find?_eq_none.mp found x member
        simp at missed
    | some y =>
        have key_eq : key y = key x := by simpa using List.find?_some found
        rw [keyed.eq_of_key_eq (List.mem_of_find?_eq_some found) member key_eq]

/-- Taking the key of a member out takes out that member alone. No other member has its key,
so what is left are all others in their order. -/
theorem perm_cons_filter (keyed : Keyed key xs) (member : x ∈ xs) :
    xs.Perm (x :: xs.filter fun y => key y ≠ key x) := by
  -- By induction on the list: the member is its head or is further back.
  induction xs with
  | nil => cases member
  | cons y xs ih =>
      obtain ⟨apart, keyed'⟩ := cons_iff.mp keyed
      rcases List.mem_cons.mp member with rfl | member
      · -- Nothing behind the member has its key, so nothing else goes.
        have kept : xs.filter (fun y => key y ≠ key x) = xs :=
          List.filter_eq_self.mpr fun y mem => by simpa using apart y mem
        rw [List.filter_cons_of_neg (by simp), kept]
      · have differs : key y ≠ key x := (apart x member).symm
        rw [List.filter_cons_of_pos (by simpa using differs)]
        exact ((ih keyed' member).cons y).trans (List.Perm.swap x y _)

end Keyed

end TileArchive
