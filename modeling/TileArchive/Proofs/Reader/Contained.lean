import TileArchive.Proofs.Reader.Tour

/-!
# `TileArchive.Proofs.Reader.Contained`: archives whose rows keep to their sections

A row says where a leaf or a payload lies in its section, and nothing keeps it from pointing
beyond. An archive is contained where no row does that may be met: neither a pointer to a leaf
that may be opened nor a run, in any directory that a look-up or a scan may reach.

* `ArchiveContained` says so. It is decided by reading the directories.
* `TreeContained.runs`: then every run that a scan meets has its payload in the tile data
  section.

The condition is a recursion over the levels that may still be opened, as the walk is. A directory
that cannot be loaded has no rows to be met, so it is contained whatever its bytes: a broken
archive may be contained, and what a reader makes of it is an error. At the last level pointers are
not followed, and nothing is asked of them.

Because it is decidable, the condition can be checked of a given archive, and witnesses need no
proof of it by hand. The reader itself never checks it. It is the hypothesis under which an
archive may be laid out in another way (`Proofs/Reader/Relocation.lean`).
-/

set_option autoImplicit false

namespace TileArchive

/-- What a row is about lies in a section. The end of the row is a natural number here, so a
row whose end no word holds lies in no section. -/
def Entry.LiesIn (e : Entry) (s : Section) : Prop := e.stop ≤ s.length.toNat

instance (e : Entry) (s : Section) : Decidable (e.LiesIn s) :=
  inferInstanceAs (Decidable (_ ≤ _))

/-- The payload of a run lies in the tile data section. `leaf` says what holds of the leaf
behind a pointer. -/
def RowContained (h : Header) (leaf : Entry → Prop) (e : Entry) : Prop :=
  (e.isPointer = true → leaf e) ∧ (e.isPointer = false → e.LiesIn h.tileData)

/-- All rows of a directory that was read are contained. -/
def LoadedContained (h : Header) (leaf : Entry → Prop) : Except ReadError Directory → Prop
  | .error _ => True
  | .ok directory => ∀ e ∈ directory.entries, RowContained h leaf e

/-- The leaf behind a pointer lies in the section of the leaves and is contained, with `below`
levels below the directory of the pointer. -/
def LeafContained (h : Header) (answer : ByteRange → Except IoError Bytes) :
    (below : Nat) → Entry → Prop
  | 0, _ => True
  | below + 1, e => e.LiesIn h.leafDirectories ∧ LoadedContained h (LeafContained h answer below)
      ((loadDirectory h (h.leafRange e)).run answer)

/-- The directory in a range and all that may be opened below it are contained. `below` is
the number of levels that may be opened below this directory. -/
def TreeContained (h : Header) (answer : ByteRange → Except IoError Bytes) (below : Nat)
    (range : ByteRange) : Prop :=
  LoadedContained h (LeafContained h answer below) ((loadDirectory h range).run answer)

/-- All directories of an archive that may be opened are contained. What a row is about then
moves with its section. -/
def ArchiveContained (h : Header) (answer : ByteRange → Except IoError Bytes) : Prop :=
  ∀ range ∈ h.rootRange.toOption, TreeContained h answer (maxDirectories - 1) range

section Decidable

instance (h : Header) (leaf : Entry → Prop) [∀ e, Decidable (leaf e)] :
    (loaded : Except ReadError Directory) → Decidable (LoadedContained h leaf loaded)
  | .error _ => .isTrue trivial
  | .ok directory => inferInstanceAs (Decidable (∀ e ∈ directory.entries,
      (e.isPointer = true → leaf e) ∧ (e.isPointer = false → e.LiesIn h.tileData)))

instance LeafContained.decidable (h : Header) (answer : ByteRange → Except IoError Bytes) :
    (below : Nat) → (e : Entry) → Decidable (LeafContained h answer below e)
  | 0, _ => .isTrue trivial
  | below + 1, e =>
    have := LeafContained.decidable h answer below
    inferInstanceAs (Decidable (e.LiesIn h.leafDirectories ∧
      LoadedContained h (LeafContained h answer below)
        ((loadDirectory h (h.leafRange e)).run answer)))

end Decidable

instance (h : Header) (answer : ByteRange → Except IoError Bytes) (below : Nat)
    (range : ByteRange) : Decidable (TreeContained h answer below range) :=
  inferInstanceAs (Decidable (LoadedContained h (LeafContained h answer below) _))

instance (h : Header) (answer : ByteRange → Except IoError Bytes) :
    Decidable (ArchiveContained h answer) :=
  inferInstanceAs (Decidable (∀ range ∈ h.rootRange.toOption, _))

/-! ### Runs on a tour -/

/-- A run that is met on one tour and then another is met on one of them. -/
theorem Trail.mem_runs_append {t u : Trail WalkEvent} {e : Entry} (met : e ∈ (t ++ u).runs) :
    e ∈ t.runs ∨ e ∈ u.runs := by
  match t with
  | ⟨items, some error⟩ => exact .inl met
  | ⟨items, none⟩ =>
    rw [append_eq_of_error_none rfl, runs, List.filterMap_append] at met
    exact List.mem_append.mp met

/-- A run that is met because of some rows is met because of one of them. -/
theorem mem_rowRuns_of_mem_runs {leaf : Option (Entry → Trail WalkEvent)} {rows : List Entry}
    {e : Entry} (met : e ∈ (tourRows leaf rows).runs) : ∃ row ∈ rows, e ∈ rowRuns leaf row := by
  induction rows with
  | nil => cases met
  | cons row rest ih =>
      -- A run of the other rows comes from one of them.
      have later (met : e ∈ (tourRows leaf rest).runs) :
          ∃ row' ∈ row :: rest, e ∈ rowRuns leaf row' := by
        obtain ⟨row', member, mem⟩ := ih met
        exact ⟨row', List.mem_cons_of_mem row member, mem⟩
      by_cases pointer : row.isPointer = true
      · match leaf with
        | none =>
          rw [tourRows_pointer_none pointer] at met
          exact later met
        | some behind =>
          rw [tourRows_pointer _ pointer] at met
          rcases Trail.mem_runs_append met with here | there
          · exact ⟨row, List.mem_cons_self, (rowRuns_pointer behind pointer).symm ▸ here⟩
          · exact later there
      · rw [tourRows_run _ pointer] at met
        rcases List.mem_cons.mp met with rfl | there
        · exact ⟨e, List.mem_cons_self, (rowRuns_run leaf pointer).symm ▸ List.mem_singleton_self e⟩
        · exact later there

variable {h : Header} {answer : ByteRange → Except IoError Bytes}

/-- The runs met because of a contained directory are contained, if those behind pointers
are. This is the step of the induction on the levels of an archive. -/
theorem LoadedContained.runs {leaf : Entry → Prop} {behind : Option (Entry → Trail WalkEvent)}
    {loaded : Except ReadError Directory} (contained : LoadedContained h leaf loaded)
    (leaves : ∀ tour, behind = some tour → ∀ row, leaf row → ∀ e ∈ (tour row).runs,
      e.LiesIn h.tileData) : ∀ e ∈ (tourLoaded behind loaded).runs, e.LiesIn h.tileData := by
  intro e met
  cases loaded with
  | error error => cases met
  | ok directory =>
      -- It is enough to look at the row because of which the run is met.
      obtain ⟨row, member, mem⟩ := mem_rowRuns_of_mem_runs met
      obtain ⟨pointers, runs⟩ := contained row member
      by_cases pointer : row.isPointer = true
      · match behind with
        | none =>
          rw [rowRuns_pointer_none pointer] at mem
          cases mem
        | some tour =>
          rw [rowRuns_pointer _ pointer] at mem
          exact leaves tour rfl row (pointers pointer) e mem
      · rw [rowRuns_run _ pointer] at mem
        rw [List.mem_singleton.mp mem]
        exact runs (Bool.eq_false_iff.mpr pointer)

/-- Every run that a scan meets has its payload in the tile data section. The induction is on
the levels that may still be opened. -/
theorem TreeContained.runs {below : Nat} {range : ByteRange}
    (contained : TreeContained h answer below range) :
    ∀ e ∈ (tourDirectory h answer below range).runs, e.LiesIn h.tileData := by
  induction below generalizing range with
  | zero => exact LoadedContained.runs contained nofun
  | succ below ih =>
      refine LoadedContained.runs contained ?_
      rintro _ ⟨⟩ row leaf_contained
      exact ih leaf_contained.2

end TileArchive
