import TileArchive.Proofs.Reader.Itinerary

/-!
# `TileArchive.Proofs.Reader.Tour`: all that a walk meets

Where it does not matter what is read on the way, an itinerary is only the events that are met:
the tour through a directory takes its rows in order, and behind a pointer comes the tour
through the leaf, as long as a leaf may still be opened.

* `tourRows`, `leafTour` and `tourDirectory` say so by recursion on the levels that are left, and
  `found_itineraryDirectory` says that this is what an itinerary finds.
* `Trail.runs` are the runs that are met, row by row (`tourRows_whole`).

A tour is given the way in which leaves are toured, or none at the last level. That keeps the two
recursions apart: `tourRows` goes along the rows of one directory and `leafTour` goes down the
levels. A proof about tours therefore has two inductions, the outer on the levels and the inner on
the rows, and the inner one is stated for any way to tour leaves.

At the last level a pointer is passed over without an event and without an error, as a walker
does. So a tour may be whole although there are directories that it never comes to.
-/

set_option autoImplicit false

namespace TileArchive

/-! ### Tours through directories -/

/-- The tour through some rows of a directory. `leaf` is the tour behind a pointer; without it
pointers are passed over. -/
def tourRows (leaf : Option (Entry → Trail WalkEvent)) : List Entry → Trail WalkEvent
  | [] => .cons .leave .nil
  | e :: rest =>
    if e.isPointer then
      match leaf with
      | none => tourRows leaf rest
      | some leaf => .cons .pointer (leaf e ++ tourRows (some leaf) rest)
    else .cons (.run e) (tourRows leaf rest)

/-- A run is met and the tour goes on. -/
theorem tourRows_run (leaf : Option (Entry → Trail WalkEvent)) {e : Entry}
    (run : ¬ e.isPointer = true) (rest : List Entry) :
    tourRows leaf (e :: rest) = .cons (.run e) (tourRows leaf rest) := by
  cases leaf <;> rw [tourRows, if_neg run]

/-- A pointer is met, then comes all that the leaf behind it holds, and then the tour goes
on. -/
theorem tourRows_pointer (leaf : Entry → Trail WalkEvent) {e : Entry}
    (pointer : e.isPointer = true) (rest : List Entry) :
    tourRows (some leaf) (e :: rest) = .cons .pointer (leaf e ++ tourRows (some leaf) rest) := by
  rw [tourRows, if_pos pointer]

/-- Where no leaf may be opened any more a pointer is passed over. -/
theorem tourRows_pointer_none {e : Entry} (pointer : e.isPointer = true) (rest : List Entry) :
    tourRows none (e :: rest) = tourRows none rest := by
  rw [tourRows, if_pos pointer]

/-- The tour through a directory that was read. One that could not be read is an error and
has no rows. -/
def tourLoaded (leaf : Option (Entry → Trail WalkEvent)) :
    Except ReadError Directory → Trail WalkEvent
  | .error e => .broken e
  | .ok directory => tourRows leaf directory.entries

/-- The tour behind a pointer in a directory below which `below` more levels may be opened.
There is none where no level is left, and a pointer is an error there. -/
def leafTour (h : Header) (answer : ByteRange → Except IoError Bytes) :
    (below : Nat) → Option (Entry → Trail WalkEvent)
  | 0 => none
  | below + 1 => some fun e =>
    tourLoaded (leafTour h answer below) ((loadDirectory h (h.leafRange e)).run answer)

/-- The tour through the directory in a range, below which `below` more levels may be opened. -/
def tourDirectory (h : Header) (answer : ByteRange → Except IoError Bytes) (below : Nat)
    (range : ByteRange) : Trail WalkEvent :=
  tourLoaded (leafTour h answer below) ((loadDirectory h range).run answer)

/-- As long as levels are left, the tour behind a pointer is the tour through the leaf. -/
theorem leafTour_succ (h : Header) (answer : ByteRange → Except IoError Bytes) (below : Nat) :
    leafTour h answer (below + 1) = some fun e => tourDirectory h answer below (h.leafRange e) :=
  rfl

/-- A directory is met as its itinerary finds it. The tour is the itinerary without its
reads, and this is the step over one directory. -/
theorem found_itineraryRows (leaf : Option (Entry → Trail (Step WalkEvent)))
    (rows : List Entry) :
    (itineraryRows leaf rows).found
      = tourRows (leaf.map fun leaf e => (leaf e).found) rows := by
  induction rows with
  | nil => rfl
  | cons e rest ih =>
      by_cases pointer : e.isPointer = true
      · cases leaf with
        | none =>
            rw [itineraryRows_pointer_none pointer, ih]
            exact (tourRows_pointer_none pointer rest).symm
        | some leaf =>
            rw [itineraryRows_pointer leaf pointer, Trail.found_cons_find, Trail.found_append, ih]
            exact (tourRows_pointer (fun e => (leaf e).found) pointer rest).symm
      · rw [itineraryRows_run leaf pointer, Trail.found_cons_find, ih, tourRows_run _ pointer]

/-- What is found behind a pointer is the tour through the directory that is loaded there. -/
theorem found_itineraryBehind (h : Header) (answer : ByteRange → Except IoError Bytes)
    (leaf : Option (Entry → Trail (Step WalkEvent))) (range : ByteRange) :
    (itineraryBehind h answer leaf range).found
      = tourLoaded (leaf.map fun leaf e => (leaf e).found)
          ((loadDirectory h range).run answer) := by
  rw [itineraryBehind, Trail.found_behind]
  cases (loadDirectory h range).run answer with
  | error e => rfl
  | ok directory => exact found_itineraryRows leaf directory.entries

/-- The leaves behind pointers are met as their itineraries find them, level by level. -/
theorem found_leafItinerary (h : Header) (answer : ByteRange → Except IoError Bytes)
    (below : Nat) :
    ((leafItinerary h answer below).map fun leaf e => (leaf e).found)
      = leafTour h answer below := by
  induction below with
  | zero => rfl
  | succ below ih =>
      refine congrArg some (funext fun e => ?_)
      show (itineraryBehind h answer (leafItinerary h answer below) (h.leafRange e)).found = _
      rw [found_itineraryBehind, ih]

/-- What an itinerary through a directory finds is the tour through it. -/
theorem found_itineraryDirectory (h : Header) (answer : ByteRange → Except IoError Bytes)
    (below : Nat) (range : ByteRange) :
    (itineraryDirectory h answer below range).found = tourDirectory h answer below range := by
  rw [itineraryDirectory, found_itineraryBehind, found_leafItinerary, tourDirectory]

/-! ### Runs on a tour -/

/-- The run that is met, if one is. -/
def WalkEvent.entry? : WalkEvent → Option Entry
  | .run e => some e
  | .pointer => none
  | .leave => none

/-- The runs that are met on a tour. -/
def Trail.runs (t : Trail WalkEvent) : List Entry := t.items.filterMap WalkEvent.entry?

/-- The runs that are met because of one row. A row that is no pointer is a run itself. -/
def rowRuns (leaf : Option (Entry → Trail WalkEvent)) (e : Entry) : List Entry :=
  if e.isPointer then
    match leaf with
    | none => []
    | some leaf => (leaf e).runs
  else [e]

/-- The row of a run stands for that run. -/
theorem rowRuns_run (leaf : Option (Entry → Trail WalkEvent)) {e : Entry}
    (run : ¬ e.isPointer = true) : rowRuns leaf e = [e] := by
  cases leaf <;> rw [rowRuns, if_neg run]

/-- The row of a pointer stands for the runs of the leaf behind it. -/
theorem rowRuns_pointer (leaf : Entry → Trail WalkEvent) {e : Entry}
    (pointer : e.isPointer = true) : rowRuns (some leaf) e = (leaf e).runs := by
  rw [rowRuns, if_pos pointer]

/-- At the last level the row of a pointer stands for nothing. -/
theorem rowRuns_pointer_none {e : Entry} (pointer : e.isPointer = true) : rowRuns none e = [] := by
  rw [rowRuns, if_pos pointer]

/-- A tour that does not fail goes through all rows and fails behind no pointer. What it
meets is put together from what is met because of each row. -/
theorem tourRows_whole {leaf : Option (Entry → Trail WalkEvent)} {rows : List Entry}
    (whole : (tourRows leaf rows).error = none) :
    (tourRows leaf rows).runs = rows.flatMap (rowRuns leaf) ∧
      ∀ e ∈ rows, e.isPointer = true → ∀ behind, leaf = some behind →
        (behind e).error = none := by
  -- By induction on the rows. A tour that comes to its end has come through every leaf on its
  -- way.
  induction rows with
  | nil => exact ⟨rfl, nofun⟩
  | cons e rest ih =>
      rw [List.flatMap_cons]
      by_cases pointer : e.isPointer = true
      · match leaf with
        | none =>
          -- The pointer is passed over.
          rw [tourRows_pointer_none pointer] at whole ⊢
          rw [rowRuns_pointer_none pointer]
          exact ⟨(ih whole).1, fun _ _ _ _ => nofun⟩
        | some behind =>
          rw [tourRows_pointer _ pointer] at whole ⊢
          rw [rowRuns_pointer _ pointer]
          obtain ⟨first, later, items_eq⟩ := Trail.append_whole whole
          obtain ⟨runs_eq, all⟩ := ih later
          refine ⟨?_, ?_⟩
          · show (behind e ++ tourRows (some behind) rest).items.filterMap WalkEvent.entry? = _
            rw [items_eq, List.filterMap_append, ← runs_eq]
            rfl
          · intro e' member pointer' behind' behind_eq
            cases behind_eq
            cases member with
            | head => exact first
            | tail _ member => exact all e' member pointer' behind rfl
      · rw [tourRows_run _ pointer] at whole ⊢
        rw [rowRuns_run _ pointer]
        obtain ⟨runs_eq, all⟩ := ih whole
        refine ⟨?_, ?_⟩
        · rw [← runs_eq]
          rfl
        · intro e' member pointer'
          cases member with
          | head => exact absurd pointer' pointer
          | tail _ member => exact all e' member pointer'

/-- A tour that fails behind no pointer does not fail. Pointers that may not be followed any
more are passed over and cannot fail. -/
theorem tourRows_error_eq_none {leaf : Option (Entry → Trail WalkEvent)} {rows : List Entry}
    (leaves : ∀ e ∈ rows, e.isPointer = true → ∀ behind, leaf = some behind →
      (behind e).error = none) : (tourRows leaf rows).error = none := by
  induction rows with
  | nil => rfl
  | cons e rest ih =>
      have rest_whole := ih fun e' member => leaves e' (List.mem_cons_of_mem e member)
      by_cases pointer : e.isPointer = true
      · match leaf with
        | none =>
          rw [tourRows_pointer_none pointer]
          exact rest_whole
        | some behind =>
          have whole := leaves e List.mem_cons_self pointer behind rfl
          rw [tourRows_pointer _ pointer, Trail.append_eq_of_error_none whole]
          exact rest_whole
      · rw [tourRows_run _ pointer]
        exact rest_whole

end TileArchive
