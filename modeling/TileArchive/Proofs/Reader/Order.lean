import TileArchive.Proofs.Reader.Direct
import TileArchive.Proofs.Reader.Scan

/-!
# `TileArchive.Proofs.Reader.Order`: archives whose directories are in order

A directory is in order where every row ends before the next row begins, and where the leaf
behind a pointer keeps to the numbers that the pointer is responsible for.

* `ArchiveOrdered` says so for all directories that a look-up or a scan may open. It is decided
  by reading them.
* `TreeOrdered.disjoint`: the runs that a scan meets in such an archive follow one another and
  keep to the bounds of their directory.
* `TreeOrdered.run_descend`: a look-up of any number that such a run covers ends at that run.

The induction is always on the levels that may still be opened below a directory.

## The numbers a pointer is responsible for

A pointer has a first number and no length. It is responsible for the numbers from its own up to
that of the row after it, or up to the bound of its directory if it is the last row
(`boundAfter`). A look-up goes by this: it takes the last row whose number is not above the one it
looks for. If a leaf had rows outside of these numbers, a listing would find them and a look-up
would not. The condition carries lower and upper bounds down the levels, with no upper bound at the
root directory.

A look-up compares with one row at a time and never sees the bounds. `RowsOrdered.find?_eq` says
that the row it takes is the one that is responsible, and `TreeOrdered.run_descend` repeats this
level by level.
-/

set_option autoImplicit false

namespace TileArchive

/-! ### Order -/

/-- A row lies before a bound, with all tiles of its run. Where there is no bound this asks
for nothing. -/
def Entry.EndsBy (e : Entry) (bound : Option Nat) : Prop :=
  ∀ b ∈ bound, e.tileId.toNat < b ∧ e.tileId.toNat + e.runLength.toNat ≤ b

instance (e : Entry) (bound : Option Nat) : Decidable (e.EndsBy bound) :=
  inferInstanceAs (Decidable (∀ b ∈ bound, _))

/-- Where the tiles end that a row is responsible for: at the next row, or where those of the
directory end. -/
def boundAfter (high : Option Nat) : (rest : List Entry) → Option Nat
  | [] => high
  | e :: _ => some e.tileId.toNat

/-- Every row ends before the next one, and the last one before `high`. `leaf` says what holds
of the leaf behind a pointer, given where the tiles of the pointer end. -/
def RowsOrdered (leaf : Entry → Option Nat → Prop) (high : Option Nat) : List Entry → Prop
  | [] => True
  | e :: rest => e.EndsBy (boundAfter high rest) ∧
      (e.isPointer = true → leaf e (boundAfter high rest)) ∧ RowsOrdered leaf high rest

/-- A directory that was read is in order and has no row before `low`. One that could not be
read has no rows, and nothing is asked of it. -/
def LoadedOrdered (leaf : Entry → Option Nat → Prop) (low : Nat) (high : Option Nat) :
    Except ReadError Directory → Prop
  | .error _ => True
  | .ok directory =>
    (∀ e ∈ directory.entries, low ≤ e.tileId.toNat) ∧ RowsOrdered leaf high directory.entries

/-- The leaf behind a pointer is in order, with `below` more levels below its directory. Its
rows begin no earlier than the pointer and end before the row behind it. -/
def LeafOrdered (h : Header) (answer : ByteRange → Except IoError Bytes) :
    (below : Nat) → Entry → Option Nat → Prop
  | 0, _, _ => True
  | below + 1, e, high => LoadedOrdered (LeafOrdered h answer below) e.tileId.toNat high
      ((loadDirectory h (h.leafRange e)).run answer)

/-- The directory in a range and all that may be opened below it are in order, and all their
rows lie between `low` and `high`. -/
def TreeOrdered (h : Header) (answer : ByteRange → Except IoError Bytes) (below low : Nat)
    (high : Option Nat) (range : ByteRange) : Prop :=
  LoadedOrdered (LeafOrdered h answer below) low high ((loadDirectory h range).run answer)

/-- All directories of an archive that may be opened are in order. A leaf that lies deeper
than the reader goes is not looked at, and so may hold anything. -/
def ArchiveOrdered (h : Header) (answer : ByteRange → Except IoError Bytes) : Prop :=
  ∀ range ∈ h.rootRange.toOption, TreeOrdered h answer (maxDirectories - 1) 0 none range

section Decidable

variable {leaf : Entry → Option Nat → Prop} [∀ e high, Decidable (leaf e high)]

instance RowsOrdered.decidable (high : Option Nat) :
    (rows : List Entry) → Decidable (RowsOrdered leaf high rows)
  | [] => .isTrue trivial
  | e :: rest =>
    have := RowsOrdered.decidable high rest
    inferInstanceAs (Decidable (e.EndsBy (boundAfter high rest) ∧
      (e.isPointer = true → leaf e (boundAfter high rest)) ∧ RowsOrdered leaf high rest))

instance (low : Nat) (high : Option Nat) :
    (loaded : Except ReadError Directory) → Decidable (LoadedOrdered leaf low high loaded)
  | .error _ => .isTrue trivial
  | .ok directory => inferInstanceAs (Decidable ((∀ e ∈ directory.entries, low ≤ e.tileId.toNat) ∧
      RowsOrdered leaf high directory.entries))

instance LeafOrdered.decidable (h : Header) (answer : ByteRange → Except IoError Bytes) :
    (below : Nat) → (e : Entry) → (high : Option Nat) →
      Decidable (LeafOrdered h answer below e high)
  | 0, _, _ => .isTrue trivial
  | below + 1, e, high =>
    have := LeafOrdered.decidable h answer below
    inferInstanceAs (Decidable (LoadedOrdered (LeafOrdered h answer below) e.tileId.toNat high
      ((loadDirectory h (h.leafRange e)).run answer)))

end Decidable

instance (h : Header) (answer : ByteRange → Except IoError Bytes) (below low : Nat)
    (high : Option Nat) (range : ByteRange) :
    Decidable (TreeOrdered h answer below low high range) :=
  inferInstanceAs (Decidable (LoadedOrdered (LeafOrdered h answer below) low high _))

instance (h : Header) (answer : ByteRange → Except IoError Bytes) :
    Decidable (ArchiveOrdered h answer) :=
  inferInstanceAs (Decidable (∀ range ∈ h.rootRange.toOption, _))

/-! ### Rows in order -/

section

variable {leaf : Entry → Option Nat → Prop} {high : Option Nat}

/-- All rows lie before the bound. -/
theorem RowsOrdered.lt_high {rows : List Entry} (ordered : RowsOrdered leaf high rows) :
    ∀ e ∈ rows, ∀ b ∈ high, e.tileId.toNat < b := by
  induction rows with
  | nil => exact nofun
  | cons first rest ih =>
      obtain ⟨ends, -, later⟩ := ordered
      intro e member b b_mem
      rcases List.mem_cons.mp member with rfl | member
      · -- The first row lies before the second, if there is one.
        match rest with
        | [] => exact (ends b b_mem).1
        | second :: _ =>
          exact Nat.lt_trans (ends _ rfl).1 (ih later second List.mem_cons_self b b_mem)
      · exact ih later e member b b_mem

/-- The numbers of the rows increase. Neighbours do, since each row ends by the next one,
and the rest follows along the list. -/
theorem RowsOrdered.increasing {rows : List Entry} (ordered : RowsOrdered leaf high rows) :
    rows.Pairwise fun e e' => e.tileId < e'.tileId := by
  induction rows with
  | nil => exact .nil
  | cons first rest ih =>
      obtain ⟨ends, -, later⟩ := ordered
      refine .cons ?_ (ih later)
      intro e member
      -- Each row is below the next one, and by the induction the next one is below all
      -- others.
      match rest with
      | second :: others =>
        have first_lt : first.tileId < second.tileId :=
          UInt64.lt_iff_toNat_lt.mpr (ends _ rfl).1
        rcases List.mem_cons.mp member with rfl | member
        · exact first_lt
        · exact UInt64.lt_trans first_lt ((List.pairwise_cons.mp (ih later)).1 e member)

/-- What order says about one row. -/
theorem RowsOrdered.of_split {pre post : List Entry} {e : Entry}
    (ordered : RowsOrdered leaf high (pre ++ e :: post)) :
    e.EndsBy (boundAfter high post) ∧ (e.isPointer = true → leaf e (boundAfter high post)) := by
  induction pre with
  | nil => exact ⟨ordered.1, ordered.2.1⟩
  | cons first pre ih => exact ih ordered.2.2

/-- In a directory in order a search finds the row that is responsible for a number. What is
asked is that the number lies between this row and the next one. -/
theorem RowsOrdered.find?_eq {d : Directory} {pre post : List Entry} {e : Entry} {id : UInt64}
    (ordered : RowsOrdered leaf high d.entries) (split : d.entries = pre ++ e :: post)
    (not_after : e.tileId.toNat ≤ id.toNat) (before : ∀ b ∈ boundAfter high post, id.toNat < b)
    (responsible : e.isPointer = true ∨ e.covers id = true) : d.find? id = some e := by
  have increasing := ordered.increasing
  have not_after : e.tileId ≤ id := UInt64.le_iff_toNat_le.mpr not_after
  -- The number lies before the next row, so it lies before all that follow.
  have after : ∀ later ∈ post, id < later.tileId := by
    intro later member
    rw [split, List.pairwise_append, List.pairwise_cons] at increasing
    match post with
    | next :: others =>
      have before_next : id < next.tileId := UInt64.lt_iff_toNat_lt.mpr (before _ rfl)
      rcases List.mem_cons.mp member with rfl | member
      · exact before_next
      · have := (List.pairwise_cons.mp increasing.2.1.2).1 later member
        exact UInt64.lt_trans before_next this
  exact Directory.find?_eq_some_of_split increasing split not_after after responsible

end

/-! ### Runs in order -/

/-- Some runs follow one another and lie between two bounds. Lists of runs with bounds that
meet can be put together (`Disjoint.append`), which is how the runs of a tree are shown to
follow one another. -/
structure Disjoint (low : Nat) (high : Option Nat) (runs : List Entry) : Prop where
  pairwise : runs.Pairwise fun e e' => e.tileId.toNat + e.runLength.toNat ≤ e'.tileId.toNat
  low_le : ∀ e ∈ runs, low ≤ e.tileId.toNat
  endsBy : ∀ e ∈ runs, e.EndsBy high

/-- Runs up to the first row of a directory and the runs of the directory are disjoint. The
bound in the middle is where the first runs end and where the others begin. -/
theorem Disjoint.append {low middle : Nat} {high : Option Nat} {before after : List Entry}
    (first : Disjoint low (some middle) before) (second : Disjoint middle high after)
    (low_le : low ≤ middle) (middle_lt : ∀ b ∈ high, middle < b) :
    Disjoint low high (before ++ after) := by
  -- All runs of the first list end by the middle, where those of the second begin.
  have ends : ∀ e ∈ before, e.tileId.toNat < middle ∧
      e.tileId.toNat + e.runLength.toNat ≤ middle := fun e member => first.endsBy e member _ rfl
  refine ⟨List.pairwise_append.mpr ⟨first.pairwise, second.pairwise, ?_⟩, ?_, ?_⟩
  · intro e member e' member'
    exact Nat.le_trans (ends e member).2 (second.low_le e' member')
  · intro e member
    rcases List.mem_append.mp member with member | member
    · exact first.low_le e member
    · exact Nat.le_trans low_le (second.low_le e member)
  · intro e member b b_mem
    rcases List.mem_append.mp member with member | member
    · have := ends e member
      have := middle_lt b b_mem
      omega
    · exact second.endsBy e member b b_mem

/-- The runs met because of rows in order are disjoint, if those behind every pointer are.
The induction is on the rows, with the number of the next row as the bound between them. -/
theorem RowsOrdered.disjoint {leafOrdered : Entry → Option Nat → Prop} {high : Option Nat}
    {behind : Option (Entry → Trail WalkEvent)} {rows : List Entry}
    (ordered : RowsOrdered leafOrdered high rows)
    (leaves : ∀ e ∈ rows, ∀ bound, e.isPointer = true → leafOrdered e bound →
      Disjoint e.tileId.toNat bound (rowRuns behind e))
    {low : Nat} (low_le : ∀ e ∈ rows, low ≤ e.tileId.toNat) :
    Disjoint low high (rows.flatMap (rowRuns behind)) := by
  induction rows generalizing low with
  | nil => exact ⟨.nil, nofun, nofun⟩
  | cons e rest ih =>
      have all_lt := ordered.lt_high
      have increasing := ordered.increasing
      obtain ⟨ends, pointers, later⟩ := ordered
      -- What is met because of one row is a run alone, or all runs behind a pointer, and
      -- either way lies between this row and the next one.
      have here : Disjoint e.tileId.toNat (boundAfter high rest) (rowRuns behind e) := by
        by_cases pointer : e.isPointer = true
        · exact leaves e List.mem_cons_self _ pointer (pointers pointer)
        · rw [rowRuns_run _ pointer]
          refine ⟨List.pairwise_singleton _ _, ?_, ?_⟩
          · intro x member
            obtain rfl := List.mem_singleton.mp member
            exact Nat.le_refl _
          · intro x member
            rwa [List.mem_singleton.mp member]
      have here' : Disjoint low (boundAfter high rest) (rowRuns behind e) :=
        ⟨here.pairwise, fun x member => Nat.le_trans (low_le e List.mem_cons_self)
          (here.low_le x member), here.endsBy⟩
      rw [List.flatMap_cons]
      match rest with
      | [] =>
        rw [List.flatMap_nil, List.append_nil]
        exact here'
      | next :: others =>
        refine here'.append (ih later (fun x member => leaves x (List.mem_cons_of_mem _ member))
          ?_) (low_le next (by simp)) (all_lt next (by simp))
        intro x member
        rcases List.mem_cons.mp member with rfl | member
        · exact Nat.le_refl _
        · have := (List.pairwise_cons.mp (List.pairwise_cons.mp increasing).2).1 x member
          exact Nat.le_of_lt (UInt64.lt_iff_toNat_lt.mp this)

variable {h : Header} {answer : ByteRange → Except IoError Bytes}

/-- A tour that does not fail has read its directory. -/
theorem tourDirectory_whole {below : Nat} {range : ByteRange}
    (whole : (tourDirectory h answer below range).error = none) :
    ∃ d, (loadDirectory h range).run answer = .ok d ∧
      tourDirectory h answer below range = tourRows (leafTour h answer below) d.entries := by
  unfold tourDirectory at whole ⊢
  generalize (loadDirectory h range).run answer = loaded at whole ⊢
  cases loaded with
  | error e => cases whole
  | ok d => exact ⟨d, rfl, rfl⟩

/-- The runs that a scan meets below a directory in order are disjoint. The induction is on
the levels. The bounds of a leaf are handed down from the rows around its pointer. -/
theorem TreeOrdered.disjoint {below low : Nat} {high : Option Nat} {range : ByteRange}
    (ordered : TreeOrdered h answer below low high range)
    (whole : (tourDirectory h answer below range).error = none) :
    Disjoint low high (tourDirectory h answer below range).runs := by
  induction below generalizing low high range with
  | zero =>
      obtain ⟨d, load_eq, tour_eq⟩ := tourDirectory_whole whole
      rw [TreeOrdered, load_eq] at ordered
      rw [tour_eq] at whole ⊢
      rw [(tourRows_whole whole).1]
      refine ordered.2.disjoint ?_ ordered.1
      -- Pointers are passed over.
      intro e _ bound pointer _
      rw [leafTour, rowRuns_pointer_none pointer]
      exact ⟨.nil, fun e member => absurd member List.not_mem_nil,
        fun e member => absurd member List.not_mem_nil⟩
  | succ below ih =>
      obtain ⟨d, load_eq, tour_eq⟩ := tourDirectory_whole whole
      rw [TreeOrdered, load_eq] at ordered
      rw [tour_eq] at whole ⊢
      obtain ⟨runs_eq, leaves_whole⟩ := tourRows_whole whole
      rw [runs_eq]
      refine ordered.2.disjoint ?_ ordered.1
      intro e member bound pointer leaf_ordered
      rw [leafTour_succ, rowRuns_pointer _ pointer]
      exact ih leaf_ordered (leaves_whole e member pointer _ (leafTour_succ h answer below))

/-- A look-up in a directory in order ends at the run that covers the number. -/
theorem RowsOrdered.run_descend_run {leafOrdered : Entry → Option Nat → Prop} {high : Option Nat}
    {range : ByteRange} {d : Directory} (ordered : RowsOrdered leafOrdered high d.entries)
    (load_eq : (loadDirectory h range).run answer = .ok d) {row : Entry} (member : row ∈ d.entries)
    (run : ¬ row.isPointer = true) {id : UInt64} (covered : row.covers id = true) (depth : Nat) :
    (descend h id (depth + 1) range).run (Need.truth h answer)
      = ((loadPayload (h.payloadRange row)).run answer).map some := by
  obtain ⟨pre, post, split⟩ := List.append_of_mem member
  obtain ⟨ends, -⟩ := (split ▸ ordered).of_split
  obtain ⟨id_ge, id_lt⟩ := (row.covers_iff id).mp covered
  have before : ∀ b ∈ boundAfter high post, id.toNat < b := by
    intro b b_mem
    exact Nat.lt_of_lt_of_le id_lt (ends b b_mem).2
  rw [run_descend_succ, load_eq]
  simp only [ordered.find?_eq split id_ge before (.inr covered), if_neg run]

/-- A look-up of any number that a run covers ends at that run. The bounds say that on every
level the row it takes is the one behind which the run was met. -/
theorem TreeOrdered.run_descend {below low : Nat} {high : Option Nat} {range : ByteRange}
    (ordered : TreeOrdered h answer below low high range)
    (whole : (tourDirectory h answer below range).error = none) {e : Entry}
    (member : e ∈ (tourDirectory h answer below range).runs) {id : UInt64}
    (covered : e.covers id = true) :
    (descend h id (below + 1) range).run (Need.truth h answer)
      = ((loadPayload (h.payloadRange e)).run answer).map some := by
  -- By induction on the levels below the directory. At the last level there are no leaves to
  -- go into.
  induction below generalizing low high range with
  | zero =>
      obtain ⟨d, load_eq, tour_eq⟩ := tourDirectory_whole whole
      rw [TreeOrdered, load_eq] at ordered
      rw [tour_eq] at whole member
      rw [(tourRows_whole whole).1, List.mem_flatMap] at member
      obtain ⟨row, row_mem, e_mem⟩ := member
      by_cases pointer : row.isPointer = true
      · rw [leafTour, rowRuns_pointer_none pointer] at e_mem
        cases e_mem
      · rw [rowRuns_run _ pointer, List.mem_singleton] at e_mem
        subst e_mem
        exact ordered.2.run_descend_run load_eq row_mem pointer covered _
  | succ below ih =>
      obtain ⟨d, load_eq, tour_eq⟩ := tourDirectory_whole whole
      rw [TreeOrdered, load_eq] at ordered
      rw [tour_eq] at whole member
      obtain ⟨runs_eq, leaves_whole⟩ := tourRows_whole whole
      rw [runs_eq, List.mem_flatMap] at member
      obtain ⟨row, row_mem, e_mem⟩ := member
      by_cases pointer : row.isPointer = true
      · rw [leafTour_succ, rowRuns_pointer _ pointer] at e_mem
        have leaf_whole := leaves_whole row row_mem pointer _ (leafTour_succ h answer below)
        obtain ⟨pre, post, split⟩ := List.append_of_mem row_mem
        have leaf_ordered : TreeOrdered h answer below row.tileId.toNat (boundAfter high post)
            (h.leafRange row) := (split ▸ ordered.2).of_split.2 pointer
        -- The run keeps to the numbers that the pointer is responsible for.
        have disjoint := leaf_ordered.disjoint leaf_whole
        obtain ⟨id_ge, id_lt⟩ := (e.covers_iff id).mp covered
        have not_after : row.tileId.toNat ≤ id.toNat :=
          Nat.le_trans (disjoint.low_le e e_mem) id_ge
        have before : ∀ b ∈ boundAfter high post, id.toNat < b := by
          intro b b_mem
          exact Nat.lt_of_lt_of_le id_lt (disjoint.endsBy e e_mem b b_mem).2
        rw [run_descend_succ, load_eq]
        simp only [ordered.2.find?_eq split not_after before (.inl pointer), if_pos pointer]
        exact ih leaf_ordered leaf_whole e_mem
      · rw [rowRuns_run _ pointer, List.mem_singleton] at e_mem
        subst e_mem
        exact ordered.2.run_descend_run load_eq row_mem pointer covered _

/-- In any archive whose scan does not fail, a look-up finds nothing, or it ends at a run that
the scan meets. -/
theorem run_descend_cases {below : Nat} {range : ByteRange}
    (whole : (tourDirectory h answer below range).error = none) (id : UInt64) :
    (descend h id (below + 1) range).run (Need.truth h answer) = .ok none ∨
      ∃ e ∈ (tourDirectory h answer below range).runs, e.covers id = true ∧
        (descend h id (below + 1) range).run (Need.truth h answer)
          = ((loadPayload (h.payloadRange e)).run answer).map some := by
  obtain ⟨d, load_eq, tour_eq⟩ := tourDirectory_whole whole
  rw [run_descend_succ, load_eq]
  simp only
  rw [tour_eq] at whole ⊢
  obtain ⟨runs_eq, leaves_whole⟩ := tourRows_whole whole
  rw [runs_eq]
  cases find_eq : d.find? id with
  | none => exact .inl rfl
  | some row =>
      obtain ⟨row_mem, responsible⟩ := Directory.find?_sound find_eq
      simp only
      by_cases pointer : row.isPointer = true
      · rw [if_pos pointer]
        match below with
        | 0 =>
          -- No directory may be visited any more.
          exact .inl rfl
        | below + 1 =>
          have leaf_whole := leaves_whole row row_mem pointer _ (leafTour_succ h answer below)
          rcases run_descend_cases leaf_whole id with nothing | ⟨e, member, rest⟩
          · exact .inl nothing
          · refine .inr ⟨e, List.mem_flatMap.mpr ⟨row, row_mem, ?_⟩, rest⟩
            rwa [leafTour_succ, rowRuns_pointer _ pointer]
      · rw [if_neg pointer]
        refine .inr ⟨row, List.mem_flatMap.mpr ⟨row, row_mem, ?_⟩, responsible.resolve_left pointer,
          rfl⟩
        rw [rowRuns_run _ pointer]
        exact List.mem_singleton_self row

/-- A look-up that finds a payload found it in a run that the scan meets. No order is asked
for here: whatever a look-up finds, a listing that does not fail comes by it. -/
theorem mem_runs_of_run_descend {below : Nat} {range : ByteRange}
    (whole : (tourDirectory h answer below range).error = none) {id : UInt64} {payload : Bytes}
    (found : (descend h id (below + 1) range).run (Need.truth h answer) = .ok (some payload)) :
    ∃ e ∈ (tourDirectory h answer below range).runs, e.covers id = true ∧
      (loadPayload (h.payloadRange e)).run answer = .ok payload := by
  -- In a whole tour a look-up comes to nothing or to a run that the tour meets.
  rcases run_descend_cases whole id with nothing | ⟨e, member, covered, run_eq⟩
  · rw [nothing] at found
    cases found
  · rw [run_eq] at found
    refine ⟨e, member, covered, ?_⟩
    generalize (loadPayload (h.payloadRange e)).run answer = loaded at found ⊢
    cases loaded with
    | error e => cases found
    | ok value =>
        cases found
        rfl

end TileArchive
