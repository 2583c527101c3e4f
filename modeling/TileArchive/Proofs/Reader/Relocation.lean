import TileArchive.Proofs.Reader.Coalescing
import TileArchive.Proofs.Reader.Contained

/-!
# `TileArchive.Proofs.Reader.Relocation`: the same sections at other places

Two archives may hold the same sections in another order, with gaps between them, or with bytes
that several sections share. Then a range of one archive has its counterpart in the other: the
same stretch of the same section.

* `Relocated` relates the archives, and `SameStretch` the ranges. `SameSection.fetch_eq` says
  that counterparts read the same.
* `loadDirectory_eq`, `fetchPayload_eq` and `loadMetadata_eq` follow for the parts of an archive.
* `run_lookUp_eq`, `run_listCoords_eq` and `run_listTiles_eq`: look-ups and listings never form
  another range, as long as the rows keep to their sections, so their results are the same.

## Why rows have to keep to their sections

A row of a directory gives a place relative to its section and a length, and nothing in the
format keeps it from pointing behind the section. What is there depends on the layout: the next
section, a gap, or nothing. Archives of which a reader would notice the layout in this way are
excluded by `ArchiveContained` (`Proofs/Reader/Contained.lean`), which speaks of the rows that a
reader comes to and of no others.

Places are added as words and stop at the largest one. For a row that keeps to its section the
sum is exact (`toNat_addSat`), because the section lies in the archive and the size of the
archive is a word.

## The order of the proof

First ranges are told apart: every range that a reader forms is a stretch of one of the four
sections (`stretch_row`, `range?_cases`). Then the loads of directories, payloads and metadata are
equal. Then the tours through all directories are equal, by induction on the levels
(`tourDirectory_eq`), and listings follow because they are what their tour gives. A look-up
descends by itself and has its own induction (`run_descend_eq`).
-/

set_option autoImplicit false

namespace TileArchive

/-! ### Archives that differ in their layout -/

/-- The section without its place. -/
def Section.unplaced (s : Section) : Section := { s with offset := 0 }

/-- The header without the places of the sections. Two headers that are equal without them
say the same of everything but where the sections lie. -/
def Header.unplaced (h : Header) : Header :=
  { h with
    rootDirectory := h.rootDirectory.unplaced
    metadata := h.metadata.unplaced
    leafDirectories := h.leafDirectories.unplaced
    tileData := h.tileData.unplaced }

/-- A section of two archives that lies inside of both and has the same bytes in both. It
may lie at any place in either, and it may overlap with others. -/
structure SameSection (bytes bytes' : Bytes) (s s' : Section) : Prop where
  inside : s.offset.toNat + s.length.toNat ≤ bytes.length
  inside' : s'.offset.toNat + s'.length.toNat ≤ bytes'.length
  content_eq : Bytes.slice bytes s.offset.toNat s.length.toNat
    = Bytes.slice bytes' s'.offset.toNat s'.length.toNat

/-- Two archives whose headers agree but for the places of the sections, and whose sections
are the same. Bytes between the sections or behind them may be anything. -/
structure Relocated (h h' : Header) (bytes bytes' : Bytes) : Prop where
  /-- The size of either archive is a word. -/
  sized : bytes.length ≤ Word.largest
  sized' : bytes'.length ≤ Word.largest
  unplaced_eq : h.unplaced = h'.unplaced
  root : SameSection bytes bytes' h.rootDirectory h'.rootDirectory
  metadata : SameSection bytes bytes' h.metadata h'.metadata
  leaves : SameSection bytes bytes' h.leafDirectories h'.leafDirectories
  tiles : SameSection bytes bytes' h.tileData h'.tileData

/-! ### Stretches of a section -/

/-- Two ranges that are the same stretch of a section, each in its archive. Reading them
gives the same bytes (`SameSection.read_eq`). -/
structure SameStretch (s s' : Section) (r r' : ByteRange) : Prop where
  length_eq : r.length = r'.length
  placed : ∃ start, r.offset.toNat = s.offset.toNat + start ∧
    r'.offset.toNat = s'.offset.toNat + start ∧ start + r.length.toNat ≤ s.length.toNat

/-- Counterparts are both without bytes or both with some. -/
theorem SameStretch.isEmpty_eq {s s' : Section} {r r' : ByteRange}
    (stretch : SameStretch s s' r r') : r.isEmpty = r'.isEmpty := by
  rw [ByteRange.isEmpty, stretch.length_eq, ByteRange.isEmpty]

namespace SameSection

variable {bytes bytes' : Bytes} {s s' : Section} (same : SameSection bytes bytes' s s')

include same

/-- The same section has the same length in both archives, since otherwise its bytes would
differ in number. -/
theorem length_eq : s.length.toNat = s'.length.toNat := by
  have lengths := congrArg List.length same.content_eq
  rwa [Bytes.length_slice same.inside, Bytes.length_slice same.inside'] at lengths

/-- What is read of the same stretch is the same. -/
theorem read_eq {r r' : ByteRange} (stretch : SameStretch s s' r r') :
    Content.read bytes r = Content.read bytes' r' := by
  obtain ⟨start, offset_eq, offset_eq', within⟩ := stretch.placed
  have length_eq := stretch.length_eq
  have inside := same.inside
  have inside' := same.inside'
  have lengths := same.length_eq
  -- Both reads lie inside, and are cut out of the content of the section at the same place.
  rw [Content.read, Content.read, if_pos (by omega), if_pos (by rw [← length_eq]; omega),
    offset_eq, offset_eq', ← length_eq, ← Bytes.slice_slice within, same.content_eq,
    Bytes.slice_slice (lengths ▸ within)]

/-- Counterparts are fetched alike. -/
theorem fetch_eq {r r' : ByteRange} (stretch : SameStretch s s' r r') :
    (fetchBytes r).run (Content.read bytes) = (fetchBytes r').run (Content.read bytes') := by
  show (Content.read bytes r).mapError ReadError.io = (Content.read bytes' r').mapError ReadError.io
  rw [same.read_eq stretch]

/-- The relation goes both ways. -/
theorem symm : SameSection bytes' bytes s' s := ⟨same.inside', same.inside, same.content_eq.symm⟩

/-- Positions inside a section do not stop at the largest word. -/
theorem toNat_addSat (sized : bytes.length ≤ Word.largest) {start : UInt64}
    (within : start.toNat ≤ s.length.toNat) :
    (Word.addSat s.offset start).toNat = s.offset.toNat + start.toNat := by
  have inside := same.inside
  rw [Word.toNat_addSat]
  omega

variable (sized : bytes.length ≤ Word.largest) (sized' : bytes'.length ≤ Word.largest)

include sized sized'

/-- What a row is about is the same stretch of its section. -/
theorem stretch_row {e : Entry} (lies : e.LiesIn s) :
    SameStretch s s' ⟨Word.addSat s.offset e.offset, e.length⟩
      ⟨Word.addSat s'.offset e.offset, e.length⟩ := by
  have lies : e.offset.toNat + e.length.toNat ≤ s.length.toNat := lies
  have lengths := same.length_eq
  exact ⟨rfl, e.offset.toNat, same.toNat_addSat sized (by omega),
    same.symm.toNat_addSat sized' (by omega), lies⟩

/-- A whole section can be read in both archives or in neither. This depends on its length,
which is the same in both. -/
theorem range?_cases (name : String) :
    (∃ e, s.range? name = .error e ∧ s'.range? name = .error e) ∨
      ∃ r r', s.range? name = .ok r ∧ s'.range? name = .ok r' ∧ SameStretch s s' r r' := by
  have lengths := same.length_eq
  -- Neither stop is cut to the largest word, so both sections count as long as they are.
  have stop_eq : s.stop.toNat - s.offset.toNat = s.length.toNat := by
    rw [Section.stop, same.toNat_addSat sized (Nat.le_refl _)]
    omega
  have stop_eq' : s'.stop.toNat - s'.offset.toNat = s.length.toNat := by
    rw [Section.stop, same.symm.toNat_addSat sized' (Nat.le_refl _)]
    omega
  simp only [Section.range?, stop_eq, stop_eq']
  split
  · next short =>
    have length_eq : (UInt32.ofNat s.length.toNat).toNat = s.length.toNat :=
      Word.toNat_ofNat32 short
    refine .inr ⟨_, _, rfl, rfl, rfl, 0, rfl, rfl, ?_⟩
    simp only [length_eq]
    omega
  · exact .inl ⟨_, rfl, rfl⟩

end SameSection

/-- The tour through some rows depends on the tours behind their pointers only. -/
theorem tourRows_congr {leaf leaf' : Entry → Trail WalkEvent} {rows : List Entry}
    (same : ∀ e ∈ rows, e.isPointer = true → leaf e = leaf' e) :
    tourRows (some leaf) rows = tourRows (some leaf') rows := by
  induction rows with
  | nil => rfl
  | cons e rest ih =>
      have rest_eq := ih fun later member => same later (List.mem_cons_of_mem e member)
      by_cases pointer : e.isPointer = true
      · rw [tourRows_pointer _ pointer, tourRows_pointer _ pointer, rest_eq,
          same e List.mem_cons_self pointer]
      · rw [tourRows_run _ pointer, tourRows_run _ pointer, rest_eq]

namespace Relocated

variable {h h' : Header} {bytes bytes' : Bytes} (moved : Relocated h h' bytes bytes')

include moved

/-! ### Directories and metadata -/

/-- Relocation keeps what the header says about compression. -/
theorem internalCompression_eq : h.internalCompression = h'.internalCompression :=
  show h.unplaced.internalCompression = h'.unplaced.internalCompression by rw [moved.unplaced_eq]

/-- Relocation keeps how stored directories are decoded. -/
theorem decodeDirectory_eq : decodeDirectory h = decodeDirectory h' := by
  funext data
  simp only [decodeDirectory, unwrapSection, moved.internalCompression_eq]

/-- Relocation keeps how stored metadata are decoded. -/
theorem decodeMetadata_eq : decodeMetadata h = decodeMetadata h' := by
  funext data
  simp only [decodeMetadata, unwrapSection, moved.internalCompression_eq]

/-- The metadata are the same. -/
theorem loadMetadata_eq :
    (loadMetadata h).run (Content.read bytes) = (loadMetadata h').run (Content.read bytes') := by
  unfold loadMetadata
  rcases moved.metadata.range?_cases moved.sized moved.sized' "metadata blob" with
    ⟨e, range_eq, range_eq'⟩ | ⟨r, r', range_eq, range_eq', stretch⟩
  · simp only [Header.metadataRange, range_eq, range_eq', Fetch.run]
  · rw [Header.metadataRange, Header.metadataRange, range_eq, range_eq']
    simp only [stretch.isEmpty_eq]
    split
    · rw [Fetch.run, Fetch.run]
    · rw [Fetch.run_bind, Fetch.run_bind, moved.metadata.fetch_eq stretch, moved.decodeMetadata_eq,
        Fetch.run, Fetch.run]

/-- The same stretch of a section holds the same directory. -/
theorem loadDirectory_eq {s s' : Section} (same : SameSection bytes bytes' s s')
    {r r' : ByteRange} (stretch : SameStretch s s' r r') :
    (loadDirectory h r).run (Content.read bytes)
      = (loadDirectory h' r').run (Content.read bytes') := by
  simp only [loadDirectory, stretch.isEmpty_eq]
  split
  · rw [Fetch.run, Fetch.run]
  · rw [Fetch.run_bind, Fetch.run_bind, same.fetch_eq stretch, moved.decodeDirectory_eq,
      Fetch.run, Fetch.run]

/-- The leaf behind a pointer is the same, as long as it lies in its section. -/
theorem loadLeaf_eq {e : Entry} (lies : e.LiesIn h.leafDirectories) :
    (loadDirectory h (h.leafRange e)).run (Content.read bytes)
      = (loadDirectory h' (h'.leafRange e)).run (Content.read bytes') :=
  moved.loadDirectory_eq moved.leaves
    (moved.leaves.stretch_row moved.sized moved.sized' lies)

/-- The payload of a run is the same, as long as it lies in its section. -/
theorem fetchPayload_eq {e : Entry} (lies : e.LiesIn h.tileData) :
    (fetchBytes (h.payloadRange e)).run (Content.read bytes)
      = (fetchBytes (h'.payloadRange e)).run (Content.read bytes') :=
  moved.tiles.fetch_eq (moved.tiles.stretch_row moved.sized moved.sized' lies)

/-! ### Tours -/

/-- The tour through the same directory is the same, as long as the rows keep to their sections.
The induction is on the levels that may still be opened. -/
theorem tourDirectory_eq {below : Nat} {r r' : ByteRange}
    (load_eq : (loadDirectory h r).run (Content.read bytes)
      = (loadDirectory h' r').run (Content.read bytes'))
    (contained : TreeContained h (Content.read bytes) below r) :
    tourDirectory h (Content.read bytes) below r
      = tourDirectory h' (Content.read bytes') below r' := by
  induction below generalizing r r' with
  | zero =>
      -- Pointers are passed over, so no leaf is asked for.
      rw [tourDirectory, tourDirectory, leafTour, leafTour, load_eq]
  | succ below ih =>
      rw [tourDirectory, tourDirectory, ← load_eq, leafTour_succ, leafTour_succ]
      unfold TreeContained at contained
      cases loaded : (loadDirectory h r).run (Content.read bytes) with
      | error e => rw [tourLoaded, tourLoaded]
      | ok directory =>
          rw [loaded] at contained
          refine tourRows_congr fun e member pointer => ?_
          obtain ⟨lies, leaf_contained⟩ := (contained e member).1 pointer
          exact ih (moved.loadLeaf_eq lies) leaf_contained

/-- The root directories can be read in both archives, and are the same, or in neither. -/
theorem rootRange_cases :
    (∃ e, h.rootRange = .error e ∧ h'.rootRange = .error e) ∨
      ∃ r r', h.rootRange = .ok r ∧ h'.rootRange = .ok r' ∧
        (loadDirectory h r).run (Content.read bytes)
          = (loadDirectory h' r').run (Content.read bytes') := by
  rcases moved.root.range?_cases moved.sized moved.sized' "root directory" with
    failed | ⟨r, r', root_eq, root_eq', stretch⟩
  · exact .inl failed
  · exact .inr ⟨r, r', root_eq, root_eq', moved.loadDirectory_eq moved.root stretch⟩

variable (contained : ArchiveContained h (Content.read bytes))

include contained

/-- The walk through all directories meets the same events in both archives. -/
theorem archiveTour_eq :
    archiveTour h (Content.read bytes) = archiveTour h' (Content.read bytes') := by
  unfold archiveTour
  rcases moved.rootRange_cases with ⟨e, root_eq, root_eq'⟩ | ⟨r, r', root_eq, root_eq', load_eq⟩
  · rw [root_eq, root_eq']
  · rw [root_eq, root_eq']
    exact moved.tourDirectory_eq load_eq (contained r (by rw [root_eq]; rfl))

omit moved in
/-- The runs that a walk meets keep to the tile data. -/
theorem lies_of_mem_runs {e : Entry} (met : e ∈ (archiveTour h (Content.read bytes)).runs) :
    e.LiesIn h.tileData := by
  unfold archiveTour at met
  split at met
  · cases met
  · next range root_eq => exact (contained range (by rw [root_eq]; rfl)).runs e met

/-! ### Look-ups -/

omit contained in
/-- A look-up in the same directory gives the same, if it does behind the pointers. A run or
a pointer that it meets lies inside of its section, where the archives agree. -/
theorem run_descend_succ_eq {id : UInt64} {depth : Nat} {leaf : Entry → Prop} {r r' : ByteRange}
    (load_eq : (loadDirectory h r).run (Content.read bytes)
      = (loadDirectory h' r').run (Content.read bytes'))
    (contained : LoadedContained h leaf ((loadDirectory h r).run (Content.read bytes)))
    (leaves : ∀ e, leaf e →
      (descend h id depth (h.leafRange e)).run (Need.truth h (Content.read bytes))
        = (descend h' id depth (h'.leafRange e)).run (Need.truth h' (Content.read bytes'))) :
    (descend h id (depth + 1) r).run (Need.truth h (Content.read bytes))
      = (descend h' id (depth + 1) r').run (Need.truth h' (Content.read bytes')) := by
  rw [run_descend_succ, run_descend_succ, ← load_eq]
  cases loaded : (loadDirectory h r).run (Content.read bytes) with
  | error e => rfl
  | ok directory =>
      rw [loaded] at contained
      cases found : directory.find? id with
      | none => simp only [found]
      | some e =>
          -- A row that is found is one of the directory, so it keeps to its section.
          obtain ⟨pointers, runs⟩ := contained e (Directory.find?_sound found).1
          simp only [found]
          by_cases pointer : e.isPointer = true
          · rw [if_pos pointer, if_pos pointer, leaves e (pointers pointer)]
          · rw [if_neg pointer, if_neg pointer, loadPayload, loadPayload,
              moved.fetchPayload_eq (runs (Bool.eq_false_iff.mpr pointer))]

omit contained in
/-- A look-up from the same directory on gives the same. The induction is on the levels that may
still be opened. -/
theorem run_descend_eq (id : UInt64) {below : Nat} {r r' : ByteRange}
    (load_eq : (loadDirectory h r).run (Content.read bytes)
      = (loadDirectory h' r').run (Content.read bytes'))
    (contained : TreeContained h (Content.read bytes) below r) :
    (descend h id (below + 1) r).run (Need.truth h (Content.read bytes))
      = (descend h' id (below + 1) r').run (Need.truth h' (Content.read bytes')) := by
  induction below generalizing r r' with
  | zero =>
      -- Behind a pointer of the last directory the look-up ends without a result.
      refine moved.run_descend_succ_eq load_eq contained fun e _ => ?_
      rw [descend, descend, Query.run, Query.run]
  | succ below ih =>
      refine moved.run_descend_succ_eq load_eq contained ?_
      rintro e ⟨lies, leaf_contained⟩
      exact ih (moved.loadLeaf_eq lies) leaf_contained

/-- A look-up finds the same in both archives. -/
theorem run_lookUp_eq (c : TileCoord) :
    (lookUp h c).run (Need.truth h (Content.read bytes))
      = (lookUp h' c).run (Need.truth h' (Content.read bytes')) := by
  unfold lookUp
  rcases moved.rootRange_cases with ⟨e, root_eq, root_eq'⟩ | ⟨r, r', root_eq, root_eq', load_eq⟩
  · simp only [root_eq, root_eq', Query.run]
  · rw [root_eq, root_eq']
    exact moved.run_descend_eq c.tileId load_eq (contained r (by rw [root_eq]; rfl))

/-! ### Listings -/

/-- What runs give, listed to a limit, is the same if it is for every run that keeps to its
section. -/
theorem run_listRuns_eq {α : Type}
    {onRun onRun' : Entry → Gathering α → Fetch (Gathering α ⊕ Listing α)}
    (runs : ∀ e g, e.LiesIn h.tileData →
      (onRun e g).run (Content.read bytes) = (onRun' e g).run (Content.read bytes'))
    (limit : Option Nat) :
    (listRuns h onRun limit).run (Content.read bytes)
      = (listRuns h' onRun' limit).run (Content.read bytes') := by
  by_cases nothing : limit = some 0
  · rw [listRuns, listRuns, if_pos nothing, if_pos nothing, Fetch.run, Fetch.run]
  · rw [listRuns, listRuns, if_neg nothing, if_neg nothing]
    refine (run_start_drive h _ _ _ fun _ => rfl).trans ?_
    refine .trans ?_ (run_start_drive h' _ _ _ fun _ => rfl).symm
    rw [← moved.archiveTour_eq contained]
    -- The tours are the same, so the events are, and only runs read anything.
    refine Trail.feed_congr (fun event member g => ?_) _
    cases event with
    | run e => exact runs e g (lies_of_mem_runs contained (List.mem_filterMap.mpr ⟨_, member, rfl⟩))
    | pointer => simp only [Fetch.run]
    | leave => simp only [Fetch.run]

/-- A listing of coordinates finds the same in both archives, whatever its limit. -/
theorem run_listCoords_eq (limit : Option Nat) :
    (listCoords h limit).run (Content.read bytes)
      = (listCoords h' limit).run (Content.read bytes') :=
  moved.run_listRuns_eq contained (fun _ _ _ => by rw [Fetch.run, Fetch.run]) limit

/-- A listing of tiles finds the same in both archives, whatever its limit. -/
theorem run_listTiles_eq (limit : Option Nat) :
    (listTiles h limit).run (Content.read bytes)
      = (listTiles h' limit).run (Content.read bytes') := by
  refine moved.run_listRuns_eq contained (fun e g lies => ?_) limit
  rw [Fetch.run_bind, Fetch.run_bind, moved.fetchPayload_eq lies]
  cases (fetchBytes (h'.payloadRange e)).run (Content.read bytes') with
  | error error => simp only [Fetch.run]
  | ok payload => simp only [Fetch.run]

end Relocated

end TileArchive
