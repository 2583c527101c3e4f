import TileArchive.Proofs.Build.Leaves
import TileArchive.Proofs.Reader.Order

/-!
# `TileArchive.Proofs.Build.Tree`: the directories that a builder makes hold its rows

`DirectoryHolds` says that a directory, with all that may be opened below it, holds some runs:
a tour through it does not fail and meets just these, and everything is in order. It holds of a
directory of runs (`directoryHolds_runs`), and of a directory of pointers whose leaves hold
consecutive pieces (`directoryHolds_pointers`).

A builder makes a root directory of the one kind or the other; `holds_storeDirectories` says
that in both cases the root directory holds the rows it was made for.

## Order

Order is asked of a whole tree: every row of a leaf lies between the number of the pointer to it
and the number of the row behind this pointer, or the bound of the directory for the last one.
`rowsOrdered_pointers` proves this for any relation between pointers and pieces that gives a
pointer the first number of its piece. The induction is along the correspondence, and looks one
pair ahead for the bound.

## What a builder makes

`Makes` lists the directories that a builder writes: the root, and one leaf for each piece where
there are more rows than were asked for. It is what the assumption on packing is about, so that
nothing is assumed about bytes that are never packed. `spread_cases` tells the two kinds of root
apart.
-/

set_option autoImplicit false

namespace TileArchive

namespace Builder

/-! ### Pointers and their pieces -/

section

variable {R : Entry → List Entry → Prop} {pointers : List Entry} {parts : List (List Entry)}

/-- Every pointer has a piece. -/
theorem exists_piece (related : List.Forall₂ R pointers parts) {pointer : Entry}
    (member : pointer ∈ pointers) : ∃ piece ∈ parts, R pointer piece := by
  induction related with
  | nil => cases member
  | cons head _ ih =>
      rcases List.mem_cons.mp member with rfl | member
      · exact ⟨_, List.mem_cons_self, head⟩
      · obtain ⟨piece, piece_mem, piece_related⟩ := ih member
        exact ⟨piece, List.mem_cons_of_mem _ piece_mem, piece_related⟩

/-- A piece with a pointer has a first row, and its number is that of the pointer. -/
theorem exists_first {pointer : Entry} {piece : List Entry}
    (first : piece.head?.map Entry.tileId = some pointer.tileId) :
    ∃ e rest, piece = e :: rest ∧ e.tileId = pointer.tileId := by
  cases piece with
  | nil => cases first
  | cons e rest => exact ⟨e, rest, rfl, Option.some.inj first⟩

/-- Runs in order are rows in order. There are no pointers among them, so nothing is asked
of leaves. -/
theorem RunsInOrder.rowsOrdered {rows : List Entry} (runs : RunsInOrder rows)
    (leaf : Entry → Option Nat → Prop) {high : Option Nat} (ends : ∀ e ∈ rows, e.EndsBy high) :
    RowsOrdered leaf high rows := by
  induction rows with
  | nil => trivial
  | cons e rest ih =>
      have rest_ordered := ih (runs.sublist (List.sublist_cons_self e rest))
        fun e' member => ends e' (List.mem_cons_of_mem e member)
      refine ⟨?_, fun pointer => absurd pointer (runs.not_isPointer List.mem_cons_self),
        rest_ordered⟩
      -- A run ends before the next one, or at the bound of the directory.
      cases rest with
      | nil => exact ends e List.mem_cons_self
      | cons next others =>
          rintro b ⟨rfl⟩
          have run := runs.run e List.mem_cons_self
          have apart := (List.pairwise_cons.mp runs.apart).1 next List.mem_cons_self
          exact ⟨by omega, apart⟩

/-- Pointers to consecutive pieces are in order, as long as their leaves are. A leaf ends where
the next piece begins. -/
theorem rowsOrdered_pointers {leaf : Entry → Option Nat → Prop} {high : Option Nat}
    (heads : ∀ pointer piece, R pointer piece →
      pointer.isPointer = true ∧ piece.head?.map Entry.tileId = some pointer.tileId)
    (leaves : ∀ pointer piece bound, R pointer piece →
      (∀ e ∈ piece, pointer.tileId.toNat ≤ e.tileId.toNat) → (∀ e ∈ piece, e.EndsBy bound) →
      leaf pointer bound)
    (related : List.Forall₂ R pointers parts) (runs : RunsInOrder parts.flatten)
    (ends : ∀ e ∈ parts.flatten, e.EndsBy high) : RowsOrdered leaf high pointers := by
  induction related with
  | nil => trivial
  | @cons pointer piece pointers parts head rest ih =>
      rw [List.flatten_cons] at runs ends
      have rest_runs := runs.sublist (List.sublist_append_right piece parts.flatten)
      have rest_ends : ∀ e ∈ parts.flatten, e.EndsBy high := by
        intro e member
        exact ends e (List.mem_append_right piece member)
      obtain ⟨pointer_is, pointer_first⟩ := heads pointer piece head
      have bound_ends : ∀ e ∈ piece, e.EndsBy (boundAfter high pointers) := by
        intro e member
        have e_mem := List.mem_append_left parts.flatten member
        cases rest with
        | nil => exact ends e e_mem
        | @cons next next_piece _ parts next_head _ =>
            rintro b ⟨rfl⟩
            -- A run of this piece ends before the first run of the next one.
            obtain ⟨first, others, rfl, first_eq⟩ :=
              exists_first (heads next next_piece next_head).2
            have run := runs.run e e_mem
            have apart :=
              (List.pairwise_append.mp runs.apart).2.2 e member first List.mem_cons_self
            rw [← first_eq]
            exact ⟨by omega, apart⟩
      obtain ⟨first, others, rfl, first_eq⟩ := exists_first pointer_first
      have lower : ∀ e ∈ first :: others, pointer.tileId.toNat ≤ e.tileId.toNat := by
        intro e member
        rw [← first_eq]
        rcases List.mem_cons.mp member with rfl | member
        · exact Nat.le_refl _
        · have piece_runs := runs.sublist (List.sublist_append_left (first :: others) parts.flatten)
          exact UInt64.le_iff_toNat_le.mp
            (UInt64.le_of_lt ((List.pairwise_cons.mp piece_runs.increasing).1 e member))
      refine ⟨?_, fun _ => leaves pointer _ _ head lower bound_ends,
        ih rest_runs rest_ends⟩
      intro b b_mem
      have no_run : pointer.runLength.toNat = 0 := by
        rw [Entry.isPointer, beq_iff_eq] at pointer_is
        rw [pointer_is]
        rfl
      have first_ends := bound_ends first List.mem_cons_self b b_mem
      rw [first_eq] at first_ends
      exact ⟨first_ends.1, by omega⟩

end

/-! ### Directories that hold runs -/

section

variable {h : Header} {answer : ByteRange → Except IoError Bytes}

/-- The directory in a range and all that may be opened below it hold some runs, in order: a
tour of them does not fail and meets these runs, and the numbers behind a pointer lie
between its own and that of the next row. The bounds are left open, as the rows around a
leaf decide them. -/
structure DirectoryHolds (h : Header) (answer : ByteRange → Except IoError Bytes) (below : Nat)
    (range : ByteRange) (rows : List Entry) : Prop where
  whole : (tourDirectory h answer below range).error = none
  runs_eq : (tourDirectory h answer below range).runs = rows
  ordered : ∀ low high, (∀ e ∈ rows, low ≤ e.tileId.toNat) → (∀ e ∈ rows, e.EndsBy high) →
    TreeOrdered h answer below low high range

/-- A tour through a directory that is loaded is a tour through its rows. -/
theorem tourDirectory_eq {range : ByteRange} {rows : List Entry}
    (load_eq : (loadDirectory h range).run answer = .ok ⟨rows⟩) (below : Nat) :
    tourDirectory h answer below range = tourRows (leafTour h answer below) rows := by
  rw [tourDirectory, load_eq]
  rfl

/-- A directory of runs holds them. It does so with any number of levels below, since none
is used. -/
theorem directoryHolds_runs {range : ByteRange} {rows : List Entry} (runs : RunsInOrder rows)
    (load_eq : (loadDirectory h range).run answer = .ok ⟨rows⟩) (below : Nat) :
    DirectoryHolds h answer below range rows := by
  have whole : (tourRows (leafTour h answer below) rows).error = none :=
    tourRows_error_eq_none fun e member pointer => absurd pointer (runs.not_isPointer member)
  have each : ∀ e ∈ rows, rowRuns (leafTour h answer below) e = [e] := by
    intro e member
    exact rowRuns_run _ (runs.not_isPointer member)
  refine ⟨?_, ?_, ?_⟩
  · rw [tourDirectory_eq load_eq]
    exact whole
  · rw [tourDirectory_eq load_eq, (tourRows_whole whole).1]
    -- Every row is met as itself.
    clear whole load_eq runs
    induction rows with
    | nil => rfl
    | cons e rest ih =>
        rw [List.flatMap_cons, each e List.mem_cons_self,
          ih fun e' member => each e' (List.mem_cons_of_mem e member)]
        rfl
  · intro low high low_le ends
    rw [TreeOrdered, load_eq]
    exact ⟨low_le, runs.rowsOrdered _ ends⟩

/-- A pointer leads to a leaf directory that holds a piece of the rows. Where it does so for
every piece, a directory of the pointers holds all of them (`directoryHolds_pointers`). -/
structure LeadsTo (h : Header) (answer : ByteRange → Except IoError Bytes) (below : Nat)
    (pointer : Entry) (piece : List Entry) : Prop where
  isPointer : pointer.isPointer = true
  first : piece.head?.map Entry.tileId = some pointer.tileId
  holds : DirectoryHolds h answer below (h.leafRange pointer) piece

/-- The runs behind some pointers are those of their pieces. -/
theorem runs_pointers {below : Nat} {pointers : List Entry} {parts : List (List Entry)}
    (leads : List.Forall₂ (LeadsTo h answer below) pointers parts) :
    pointers.flatMap (rowRuns (leafTour h answer (below + 1))) = parts.flatten := by
  induction leads with
  | nil => rfl
  | cons head _ ih =>
      rw [List.flatMap_cons, List.flatten_cons, ih, leafTour_succ, rowRuns_pointer _ head.isPointer,
        head.holds.runs_eq]

/-- A directory of pointers holds the pieces behind them. It takes one level more than the
leaves do, and two are all that a builder makes. -/
theorem directoryHolds_pointers {below : Nat} {range : ByteRange} {pointers : List Entry}
    {parts : List (List Entry)} (runs : RunsInOrder parts.flatten)
    (load_eq : (loadDirectory h range).run answer = .ok ⟨pointers⟩)
    (leads : List.Forall₂ (LeadsTo h answer below) pointers parts) :
    DirectoryHolds h answer (below + 1) range parts.flatten := by
  -- A leaf that is met on the way is one of those behind the pointers, and these are whole.
  have whole : (tourRows (leafTour h answer (below + 1)) pointers).error = none := by
    refine tourRows_error_eq_none ?_
    intro pointer member _ behind behind_eq
    obtain ⟨piece, -, lead⟩ := exists_piece leads member
    rw [leafTour_succ] at behind_eq
    cases behind_eq
    exact lead.holds.whole
  -- Whole, the right runs, and in order. Each of them holds of the directory if it holds of
  -- all its leaves.
  refine ⟨?_, ?_, ?_⟩
  · rw [tourDirectory_eq load_eq]
    exact whole
  · rw [tourDirectory_eq load_eq, (tourRows_whole whole).1, runs_pointers leads]
  · intro low high low_le ends
    rw [TreeOrdered, load_eq]
    refine ⟨?_, rowsOrdered_pointers
      (fun _ _ lead => ⟨lead.isPointer, lead.first⟩)
      (fun _ _ _ lead lower piece_ends => lead.holds.ordered _ _ lower piece_ends)
      leads runs ends⟩
    intro pointer member
    obtain ⟨piece, piece_mem, lead⟩ := exists_piece leads member
    obtain ⟨first, others, rfl, first_eq⟩ := exists_first lead.first
    rw [← first_eq]
    exact low_le first (List.mem_flatten.mpr ⟨_, piece_mem, List.mem_cons_self⟩)

end

/-! ### The directories of a builder -/

variable {b : Builder} {gzip : Bytes → Bytes}

/-- The directories that are made for some rows: the root directory, and the leaves where
there are any. Packing is assumed to be undone for these and for no other directories. -/
inductive Makes (b : Builder) (gzip : Bytes → Bytes) (rows : List Entry) : List Entry → Prop where
  | root {root_rows : List Entry} {leaves : Bytes} :
      b.spread gzip rows = .ok (root_rows, leaves) → Makes b gzip rows root_rows
  | leaf {size : Nat} {piece : List Entry} :
      b.leafSize = some size → size < rows.length → piece ∈ pieces (size - 1) rows →
        Makes b gzip rows piece

/-- The rows of the root directory are all rows, or pointers to leaves for pieces of them.
Which of the two it is depends on the number of rows alone. -/
theorem spread_cases {rows root_rows : List Entry} {leaves : Bytes}
    (spread_eq : b.spread gzip rows = .ok (root_rows, leaves)) :
    root_rows = rows ∨ ∃ size, (∀ piece ∈ pieces size rows, b.Makes gzip rows piece) ∧
      b.storeLeaves gzip 0 (pieces size rows) = .ok (root_rows, leaves) := by
  unfold spread at spread_eq
  split at spread_eq
  · next size size_eq =>
    split at spread_eq
    · next many =>
      -- Every piece is a directory that the builder makes, as the assumption on packing wants
      -- to know.
      exact .inr ⟨size - 1, fun piece member => .leaf size_eq many member, spread_eq⟩
    · cases spread_eq
      exact .inl rfl
  · cases spread_eq
    exact .inl rfl

/-- The pointers of a root directory correspond to the pieces they were made for. -/
theorem spread_pointers {size : Nat} {rows pointers : List Entry} {leaves : Bytes}
    (stored : b.storeLeaves gzip 0 (pieces size rows) = .ok (pointers, leaves))
    (small : leaves.length ≤ Word.largest32) :
    List.Forall₂ (PointsTo b gzip leaves) pointers (pieces size rows) := by
  have from_start : b.storeLeaves gzip ([] : Bytes).length (pieces size rows)
      = .ok (pointers, leaves) := stored
  exact storeLeaves_pointers (fun _ => ne_nil_of_mem_pieces) from_start small

/-- Rows in order can always be spread, because every piece of them can be written. So
making an archive cannot fail on its leaves. -/
theorem exists_spread {rows : List Entry} (runs : RunsInOrder rows) :
    ∃ root_rows leaves, b.spread gzip rows = .ok (root_rows, leaves) := by
  have each (size : Nat) : ∀ piece ∈ pieces size rows, ∃ leaf,
      b.storeDirectory gzip piece = .ok leaf := by
    intro piece member
    -- A piece is a part of the rows in their order, so it is in order too.
    have piece_runs : RunsInOrder piece := by
      refine runs.sublist ?_
      have part := List.sublist_flatten_of_mem member
      rwa [pieces_flatten] at part
    exact exists_storeDirectory gzip piece_runs.increasing piece_runs.offset_lt
  unfold spread
  split
  · next size _ =>
    split
    · exact exists_storeLeaves (each _) 0
    · exact ⟨rows, [], rfl⟩
  · exact ⟨rows, [], rfl⟩

/-- The rows of the root directory can be written, whether they are runs or pointers. There
are no more of them than rows, so they can be counted as well. -/
theorem rootRows_writable {rows root_rows : List Entry} {leaves : Bytes} (runs : RunsInOrder rows)
    (spread_eq : b.spread gzip rows = .ok (root_rows, leaves))
    (small : leaves.length ≤ Word.largest32) :
    (root_rows.Pairwise fun e e' => e.tileId < e'.tileId) ∧
      (∀ e ∈ root_rows, e.offset.toNat < Word.largest) ∧ root_rows.length ≤ rows.length := by
  rcases spread_cases spread_eq with rfl | ⟨size, -, stored⟩
  · exact ⟨runs.increasing, runs.offset_lt, Nat.le_refl _⟩
  · have pointers := spread_pointers stored small
    have flat_runs : RunsInOrder (pieces size rows).flatten := by rwa [pieces_flatten]
    -- Pointers are in order because the first rows of their pieces are.
    have ordered : RowsOrdered (fun _ _ => True) none root_rows :=
      rowsOrdered_pointers (fun _ _ points => ⟨points.isPointer, points.first⟩)
        (fun _ _ _ _ _ _ => trivial) pointers flat_runs fun _ _ => nofun
    refine ⟨ordered.increasing, ?_, ?_⟩
    · intro e member
      obtain ⟨piece, -, points⟩ := exists_piece pointers member
      -- A pointer's offset lies inside of the leaves, which are short enough.
      obtain ⟨leaf, -, -, placed⟩ := points.stored
      exact placed.offset_lt small
    · rw [pointers.length_eq]
      exact length_pieces_le size rows

/-- The directories of some rows can be stored. -/
theorem exists_storeDirectories {rows : List Entry} (runs : RunsInOrder rows)
    (small : ∀ root_rows leaves, b.spread gzip rows = .ok (root_rows, leaves) →
      leaves.length ≤ Word.largest32) :
    ∃ root leaves, b.storeDirectories gzip rows = .ok (root, leaves) := by
  obtain ⟨root_rows, leaves, spread_eq⟩ : ∃ root_rows leaves,
      b.spread gzip rows = .ok (root_rows, leaves) := exists_spread runs
  obtain ⟨increasing, room, -⟩ := rootRows_writable runs spread_eq (small _ _ spread_eq)
  obtain ⟨root, root_eq⟩ := exists_storeDirectory (b := b) gzip increasing room
  refine ⟨root, leaves, ?_⟩
  rw [storeDirectories, spread_eq]
  simp only [bind, Except.bind, root_eq]
  rfl

/-- Storing the directories spreads the rows and then stores the root. Both steps are taken
out of the result, for lemmas about each. -/
theorem storeDirectories_eq_ok {rows : List Entry} {root leaves : Bytes}
    (stored : b.storeDirectories gzip rows = .ok (root, leaves)) :
    ∃ root_rows, b.spread gzip rows = .ok (root_rows, leaves) ∧
      b.storeDirectory gzip root_rows = .ok root := by
  rw [storeDirectories] at stored
  -- An error of either step would have been that of the whole.
  cases spread_eq : b.spread gzip rows with
  | error e =>
      rw [spread_eq] at stored
      cases stored
  | ok spread =>
      rw [spread_eq] at stored
      simp only [bind, Except.bind] at stored
      cases root_eq : b.storeDirectory gzip spread.1 with
      | error e =>
          rw [root_eq] at stored
          cases stored
      | ok root' =>
          rw [root_eq] at stored
          cases stored
          exact ⟨spread.1, rfl, root_eq⟩

/-- The root directory of an assembled archive is loaded, with its rows. Whether these are
runs or pointers is left open. -/
theorem exists_root_loaded {rows : List Entry}
    (unpacks : ∀ made, b.Makes gzip rows made → Unpacks b gzip made) {s : Sections}
    (small : s.Small) {h : Header} (compression : h.internalCompression = b.internalCompression)
    (runs : RunsInOrder rows)
    (stored : b.storeDirectories gzip rows = .ok (s.rootDirectory, s.leafDirectories)) :
    ∃ root_rows range, b.spread gzip rows = .ok (root_rows, s.leafDirectories) ∧
      (s.describe h).rootRange = .ok range ∧
      (loadDirectory (s.describe h) range).run (Content.read (s.assemble h))
        = .ok ⟨root_rows⟩ := by
  obtain ⟨root_rows, spread_eq, root_eq⟩ := storeDirectories_eq_ok stored
  obtain ⟨range, range_eq, length_eq, placed⟩ := small.rootRange h
  obtain ⟨-, -, length_le⟩ := rootRows_writable runs spread_eq small.leafDirectories
  have described : (s.describe h).internalCompression = b.internalCompression := compression
  exact ⟨root_rows, range, spread_eq, range_eq,
    loadDirectory_stored (unpacks root_rows (.root spread_eq)) described
      (Nat.le_trans length_le runs.length_le) root_eq placed length_eq⟩

/-- A leaf directory of an assembled archive is loaded through its pointer, with its piece of the
rows. -/
theorem PointsTo.loaded {s : Sections} {pointer : Entry} {piece : List Entry}
    (points : PointsTo b gzip s.leafDirectories pointer piece) (unpacks : Unpacks b gzip piece)
    (small : s.Small) {h : Header} (compression : h.internalCompression = b.internalCompression)
    (runs : RunsInOrder piece) :
    (loadDirectory (s.describe h) ((s.describe h).leafRange pointer)).run
      (Content.read (s.assemble h)) = .ok ⟨piece⟩ := by
  have described : (s.describe h).internalCompression = b.internalCompression := compression
  obtain ⟨leaf, leaf_eq, leaf_length, leaf_placed⟩ := points.stored
  exact loadDirectory_stored unpacks described runs.length_le leaf_eq
    (small.placed_leaf h leaf_placed) leaf_length

/-- The pointers of a root directory stand for pieces that can be loaded. -/
theorem spread_loadable {rows pointers : List Entry} {size : Nat} {leaves : Bytes}
    (unpacks : ∀ piece ∈ pieces size rows, Unpacks b gzip piece) (runs : RunsInOrder rows)
    (stored : b.storeLeaves gzip 0 (pieces size rows) = .ok (pointers, leaves))
    (small : leaves.length ≤ Word.largest32) :
    List.Forall₂ (fun pointer piece => PointsTo b gzip leaves pointer piece ∧
      RunsInOrder piece ∧ Unpacks b gzip piece) pointers (pieces size rows) := by
  have flat_runs : RunsInOrder (pieces size rows).flatten := by rwa [pieces_flatten]
  have loadable : ∀ piece ∈ pieces size rows, RunsInOrder piece ∧ Unpacks b gzip piece := by
    intro piece member
    exact ⟨flat_runs.sublist (List.sublist_flatten_of_mem member), unpacks piece member⟩
  refine List.Forall₂.flip (List.Forall₂.imp ?_ ((List.forall₂_and_left _ _).mpr
    ⟨loadable, List.Forall₂.flip (spread_pointers stored small)⟩))
  exact fun _ _ both => ⟨both.2, both.1⟩

/-- The root directory of an assembled archive holds the rows that it was made for. This is
all that is needed of directories for reading an archive back. -/
theorem holds_storeDirectories {rows : List Entry}
    (unpacks : ∀ made, b.Makes gzip rows made → Unpacks b gzip made) {s : Sections}
    (small : s.Small) {h : Header} (compression : h.internalCompression = b.internalCompression)
    (runs : RunsInOrder rows)
    (stored : b.storeDirectories gzip rows = .ok (s.rootDirectory, s.leafDirectories)) :
    ∃ range, (s.describe h).rootRange = .ok range ∧
      DirectoryHolds (s.describe h) (Content.read (s.assemble h)) (maxDirectories - 1) range
        rows := by
  obtain ⟨root_rows, range, spread_eq, range_eq, load_eq⟩ :=
    exists_root_loaded unpacks small compression runs stored
  refine ⟨range, range_eq, ?_⟩
  rcases spread_cases spread_eq with rfl | ⟨size, made, leaves_eq⟩
  · exact directoryHolds_runs runs load_eq _
  · have flat_runs : RunsInOrder (pieces size rows).flatten := by rwa [pieces_flatten]
    -- Every piece is loaded from the leaf that its pointer points to.
    have leads : List.Forall₂ (LeadsTo (s.describe h) (Content.read (s.assemble h)) 2) root_rows
        (pieces size rows) := by
      refine List.Forall₂.imp ?_ (spread_loadable (fun piece member =>
        unpacks piece (made piece member)) runs leaves_eq small.leafDirectories)
      rintro pointer piece ⟨points, leaf_runs, leaf_unpacks⟩
      exact ⟨points.isPointer, points.first, directoryHolds_runs leaf_runs
        (points.loaded leaf_unpacks small compression leaf_runs) 2⟩
    have holds := directoryHolds_pointers flat_runs load_eq leads
    rwa [pieces_flatten] at holds

end Builder

end TileArchive
