import Mathlib.Algebra.GroupWithZero.Nat
import Mathlib.Data.Finset.Card
import TileArchive.Proofs.Build.Archive
import TileArchive.Proofs.Build.Compact
import TileArchive.Proofs.Build.ReadBack

/-!
# `TileArchive.Proofs.Build.Described`: an archive that was made is compact and says what it holds

`built_archive_is_compact`: tiles are added to a builder one after another, and the archive is made.
As long as everything fits its place, its rows are as few as can stand for the tiles, they lie in
the root directory or are spread over leaves of the size that was asked for, every distinct payload
is stored once, and the header tells all numbers and places as they are.

The numbers come from what the draft holds: the rows count as many tiles as there are, and these
are as many as the coordinates that were given a payload (`length_filled`), since a coordinate has
a number of its own.

## What is assumed

* `Builder.Fits`: the sections fit the lengths that the header and the rows have for them, and no
  run is too long to be counted.
* Unpacking undoes packing, for the parts that are packed. `Builder.Wraps` lists these: the
  metadata and the directories that are made, and none of them where the internal compression
  does not pack. So a builder without compression needs no assumption about the packing function.

## Where the rows are

`RootHolds` and `SpreadOver` say it in terms of a reader: the root directory is loaded from the
bytes with just these rows, or it has a pointer for each of some pieces, every pointer leads to a
leaf that is loaded with the rows of its piece, and the pieces together are all rows. A size of
zero counts as one.
-/

set_option autoImplicit false

namespace TileArchive

/-! ### Directories of an archive -/

/-- The root directory of an archive has some rows. The range is the one that the header
gives, so a header that gives none has no root directory in this sense. -/
def RootHolds (h : Header) (bytes : Bytes) (rows : List Entry) : Prop :=
  ∃ range, h.rootRange = .ok range ∧
    (loadDirectory h range).run (Content.read bytes) = .ok ⟨rows⟩

/-- A pointer has the number of the first of some rows and leads to the leaf directory that
holds them. The leaf directory is loaded from the archive, so nothing is said here of how it
is stored. -/
structure LeafHolds (h : Header) (bytes : Bytes) (pointer : Entry) (rows : List Entry) : Prop where
  isPointer : pointer.isPointer = true
  first : rows.head?.map Entry.tileId = some pointer.tileId
  loaded : (loadDirectory h (h.leafRange pointer)).run (Content.read bytes) = .ok ⟨rows⟩

/-- Rows are spread over leaf directories of at most `size` rows, one after another, and the root
directory has the pointers to these. -/
def SpreadOver (h : Header) (bytes : Bytes) (size : Nat) (rows : List Entry) : Prop :=
  ∃ pointers parts, RootHolds h bytes pointers ∧ parts.flatten = rows ∧
    (∀ piece ∈ parts, piece.length ≤ size) ∧ List.Forall₂ (LeafHolds h bytes) pointers parts

namespace Builder

/-! ### Numbers of tiles -/

/-- The rows of a draft count its tiles. -/
theorem Draft.Holds.addressed_eq {d : Draft} {tiles : List (UInt64 × Bytes)}
    (holds : d.Holds tiles) : d.addressed = tiles.length := by
  have row_length (row : Entry × Bytes) : (rowTiles row).length = row.1.runLength.toNat := by
    rw [rowTiles, List.length_map, List.length_range']
  have length_eq := congrArg List.length holds.tiles_eq
  rw [List.length_flatMap, List.map_reverse, List.sum_reverse, numbered, List.length_map]
    at length_eq
  simp only [row_length] at length_eq
  rw [← length_eq, addressed, List.sum_eq_foldl, List.foldl_map]

/-- A coordinate was given a payload if it is that of a tile. -/
theorem exists_lastPayload_iff {tiles : List Tile} {c : TileCoord} :
    (∃ payload, lastPayload tiles c = some payload) ↔ c ∈ tiles.map Tile.coord := by
  rw [← Option.isSome_iff_exists, lastPayload, Option.isSome_map, List.isSome_find?,
    List.any_eq_true, List.mem_map]
  simp only [List.mem_reverse, decide_eq_true_eq]

/-- There are as many tiles as different coordinates. A coordinate that was given several
times counts once, with the last payload given for it. -/
theorem length_filled (settings : Builder) (tiles : List Tile) :
    (filled settings tiles).tiles.length = (tiles.map Tile.coord).toFinset.card := by
  obtain ⟨increasing, mem_iff⟩ := filled_tiles settings tiles
  -- The builder keeps one tile for each number, and numbers stand for coordinates one to one.
  have ids_eq : ((filled settings tiles).tiles.map Prod.fst).toFinset
      = (tiles.map Tile.coord).toFinset.image TileCoord.tileId := by
    ext id
    rw [List.mem_toFinset, List.mem_map, Finset.mem_image]
    constructor
    · rintro ⟨t, member, rfl⟩
      obtain ⟨c, id_eq, given⟩ := (mem_iff t).mp member
      exact ⟨c, List.mem_toFinset.mpr (exists_lastPayload_iff.mp ⟨_, given⟩), id_eq⟩
    · rintro ⟨c, member, rfl⟩
      obtain ⟨payload, given⟩ := exists_lastPayload_iff.mpr (List.mem_toFinset.mp member)
      exact ⟨(c.tileId, payload), (mem_iff _).mpr ⟨c, rfl, given⟩, rfl⟩
  rw [← List.length_map Prod.fst, ← List.toFinset_card_of_nodup increasing.nodup, ids_eq,
    Finset.card_image_of_injective _ fun _ _ => TileCoord.tileId_injective]

/-- There are no more tiles than a word counts, since their numbers differ. -/
theorem Numbered.length_le {b : Builder} (numbered : b.Numbered) :
    b.tiles.length ≤ Word.largest := by
  rw [← List.length_map Prod.fst]
  refine length_le_largest (List.pairwise_map.mpr numbered.increasing) ?_
  intro id member
  obtain ⟨t, tile_mem, rfl⟩ := List.mem_map.mp member
  obtain ⟨c, coord_eq⟩ := numbered.coord t tile_mem
  rw [← coord_eq]
  exact TileCoord.lt_largest_of_ofTileId (TileCoord.ofTileId_tileId c)

/-! ### Rows of an archive -/

variable {b : Builder} {gzip : Bytes → Bytes}

/-- More rows than were asked for are spread over leaves. -/
theorem spread_of_many {rows : List Entry} {size : Nat} (size_eq : b.leafSize = some size)
    (many : size < rows.length) :
    b.spread gzip rows = b.storeLeaves gzip 0 (pieces (size - 1) rows) := by
  rw [spread, size_eq]
  exact if_pos many

/-- No more rows than were asked for stay in the root directory, and there are no leaves. -/
theorem spread_of_few {rows : List Entry}
    (few : ∀ size, b.leafSize = some size → rows.length ≤ size) :
    b.spread gzip rows = .ok (rows, []) := by
  rw [spread]
  split
  · next size size_eq => exact if_neg (Nat.not_lt.mpr (few size size_eq))
  · rfl

section

variable {rows : List Entry} {s : Sections} {h : Header}

/-- More rows than a leaf may hold are spread over leaves. The pieces are cut from the rows
in their order, and none of them has more rows than were asked for. -/
theorem spreadOver_storeDirectories
    (unpacks : ∀ made, b.Makes gzip rows made → Unpacks b gzip made) (small : s.Small)
    (compression : h.internalCompression = b.internalCompression) (runs : RunsInOrder rows)
    (stored : b.storeDirectories gzip rows = .ok (s.rootDirectory, s.leafDirectories))
    {size : Nat} (size_eq : b.leafSize = some size) (many : size < rows.length) :
    SpreadOver (s.describe h) (s.assemble h) (max size 1) rows := by
  obtain ⟨pointers, range, spread_eq, range_eq, load_eq⟩ :=
    exists_root_loaded unpacks small compression runs stored
  rw [spread_of_many size_eq many] at spread_eq
  refine ⟨pointers, pieces (size - 1) rows, ⟨range, range_eq, load_eq⟩,
    pieces_flatten (size - 1) rows, ?_, ?_⟩
  · -- The loop of the builder fills a leaf up to one row less than the size before it
    -- adds the last.
    intro piece member
    have := length_le_of_mem_pieces member
    omega
  · refine List.Forall₂.imp ?_ (spread_loadable (fun piece member =>
      unpacks piece (.leaf size_eq many member)) runs spread_eq small.leafDirectories)
    rintro pointer piece ⟨points, leaf_runs, leaf_unpacks⟩
    exact ⟨points.isPointer, points.first,
      points.loaded leaf_unpacks small compression leaf_runs⟩

/-- Rows that a leaf may hold stay in the root directory, and there are no leaves. -/
theorem rootHolds_storeDirectories
    (unpacks : ∀ made, b.Makes gzip rows made → Unpacks b gzip made) (small : s.Small)
    (compression : h.internalCompression = b.internalCompression) (runs : RunsInOrder rows)
    (stored : b.storeDirectories gzip rows = .ok (s.rootDirectory, s.leafDirectories))
    (few : ∀ size, b.leafSize = some size → rows.length ≤ size) :
    RootHolds (s.describe h) (s.assemble h) rows ∧ s.leafDirectories = [] := by
  obtain ⟨root_rows, range, spread_eq, range_eq, load_eq⟩ :=
    exists_root_loaded unpacks small compression runs stored
  rw [spread_of_few few] at spread_eq
  obtain ⟨rfl, leaves_eq⟩ := Prod.mk.inj (Except.ok.inj spread_eq)
  exact ⟨⟨range, range_eq, load_eq⟩, leaves_eq.symm⟩

end

/-! ### Drafts of a builder -/

/-- The rows of the draft are compact. -/
theorem Fits.compact (fits : b.Fits gzip) (numbered : b.Numbered) :
    Compact b.draft.rows.reverse := by
  have runs := fits.runsInOrder numbered
  refine ⟨?_, ?_, ?_⟩
  · intro row member
    exact runs.run row.1 (List.mem_map.mpr ⟨row, member, rfl⟩)
  · have apart := runs.apart
    rwa [Draft.entries, List.pairwise_map] at apart
  · rw [List.isChain_reverse]
    exact (thrifty_draft b).separated

/-- The rows of the draft stand for the tiles. -/
theorem Fits.standsFor (fits : b.Fits gzip) : StandsFor b.draft.rows.reverse b.tiles := by
  intro id payload
  simp only [(holds_draft fits.tileData fits.runs).mem_iff, List.mem_reverse]

/-- As many payloads are stored as there are different ones. -/
theorem length_stored (b : Builder) : b.draft.stored.length = (contents b.tiles).length := by
  rw [← (thrifty_draft b).stored, List.length_map, List.length_reverse]

/-- The numbers in the header are those of the draft. They are kept as words in the header,
and this says that none of them is cut. -/
theorem Fits.counts (fits : b.Fits gzip) (numbered : b.Numbered) :
    (b.header b.draft).addressedTiles.toNat = b.tiles.length ∧
      (b.header b.draft).tileEntries.toNat = b.draft.rows.length ∧
      (b.header b.draft).tileContents.toNat = (contents b.tiles).length := by
  -- Each count is cut to a word when the header is made, so each has to be shown to fit: rows
  -- because they stand for different numbers, and distinct payloads because there are no more
  -- than tiles.
  have runs := fits.runsInOrder numbered
  have rows_le : b.draft.rows.length ≤ Word.largest := by
    have bound := runs.length_le
    rwa [Draft.entries, List.length_map, List.length_reverse] at bound
  refine ⟨?_, Word.toNat_ofNat rows_le, ?_⟩
  · show (UInt64.ofNat b.draft.addressed).toNat = _
    rw [(holds_draft fits.tileData fits.runs).addressed_eq]
    exact Word.toNat_ofNat numbered.length_le
  · show (UInt64.ofNat b.draft.stored.length).toNat = _
    rw [length_stored]
    exact Word.toNat_ofNat (Nat.le_trans (length_contents_le b.tiles) numbered.length_le)

end Builder

/-- Tiles are added to a builder with any settings, and the archive is made. Whatever packs gzip
members, as long as unpacking undoes it and everything fits its place, the archive is made, and
its rows stand for the tiles: they are runs in order, none of which could be joined with the next,
and nothing that stands for the same tiles has fewer rows. They are spread over leaves of the
wanted size exactly where there are more of them than that. The header tells the numbers of
coordinates, of rows and of distinct payloads; the tile data are the distinct payloads in the
order of their first use; and the header and the four sections divide the archive. -/
theorem built_archive_is_compact {settings : Builder} {tiles : List Tile} {gzip : Bytes → Bytes}
    (unpacks : ∀ x, (Builder.filled settings tiles).Wraps gzip x → Gzip.gunzip (gzip x) = .ok x)
    (fits : (Builder.filled settings tiles).Fits gzip) :
    ∃ bytes h, (Builder.filled settings tiles).buildWith gzip = .ok bytes ∧
      Header.decode bytes = .ok h ∧
      ∃ (listed : List (UInt64 × Bytes)) (rows : List (Entry × Bytes)),
        Builder.Increasing listed ∧
        (∀ t, t ∈ listed ↔ ∃ c : TileCoord, c.tileId = t.1 ∧ lastPayload tiles c = some t.2) ∧
        Builder.StandsFor rows listed ∧ Builder.Compact rows ∧
        (rows.IsChain fun row next => row.2 ≠ next.2 ∨ ∃ id : UInt64,
          row.1.tileId.toNat + row.1.runLength.toNat ≤ id.toNat ∧
            id.toNat < next.1.tileId.toNat ∧ ∀ payload, (id, payload) ∉ listed) ∧
        (∀ others, Builder.StandsFor others listed → rows.length ≤ others.length) ∧
        (∀ row ∈ rows,
          (loadPayload (h.payloadRange row.1)).run (Content.read bytes) = .ok row.2) ∧
        (∀ size, settings.leafSize = some size → size < rows.length →
          SpreadOver h bytes (max size 1) (rows.map Prod.fst)) ∧
        ((∀ size, settings.leafSize = some size → rows.length ≤ size) →
          RootHolds h bytes (rows.map Prod.fst) ∧ h.leafDirectories.length = 0) ∧
        h.addressedTiles.toNat = (tiles.map Tile.coord).toFinset.card ∧
        h.tileEntries.toNat = rows.length ∧
        ∃ contents : List Bytes, contents = (listed.map Prod.snd).eraseDups ∧
          contents.Nodup ∧
          (∀ payload, payload ∈ contents ↔ ∃ c, lastPayload tiles c = some payload) ∧
          h.tileContents.toNat = contents.length ∧
          h.tileData.length.toNat = (contents.map List.length).sum ∧
          Bytes.slice bytes h.tileData.offset.toNat h.tileData.length.toNat
            = contents.flatten ∧
          h.Divides bytes := by
  have numbered := Builder.numbered_filled settings tiles
  obtain ⟨increasing, mem_iff⟩ := Builder.filled_tiles settings tiles
  have size_eq := Builder.leafSize_filled settings tiles
  have count_eq := Builder.length_filled settings tiles
  -- What has been said so far is all that matters of how the builder was filled.
  generalize Builder.filled settings tiles = b at *
  obtain ⟨s, sections_eq, small, -, data_eq, stored⟩ := fits.exists_sections numbered
  have compact := fits.compact numbered
  have stands := fits.standsFor
  have runs := fits.runsInOrder numbered
  obtain ⟨addressed_eq, entries_eq, contents_eq⟩ := fits.counts numbered
  have directories_unpack : ∀ rows, b.Makes gzip b.draft.entries rows →
      Builder.Unpacks b gzip rows := by
    intro rows made packed written written_eq
    exact unpacks written (.directory packed made written_eq)
  have entries_length : b.draft.entries.length = b.draft.rows.reverse.length := List.length_map _
  have data_length : (s.describe (b.header b.draft)).tileData.length.toNat = s.tileData.length :=
    Word.toNat_ofNat (Nat.le_trans small.tileData (by decide))
  refine ⟨s.assemble (b.header b.draft), s.describe (b.header b.draft), ?_,
    Sections.decode_assemble rfl, b.tiles, b.draft.rows.reverse, increasing, mem_iff, stands,
    compact, compact.gap_or_differ stands, fun others => compact.length_le increasing stands, ?_,
    ?_, ?_, addressed_eq.trans count_eq, ?_, Builder.contents b.tiles, rfl,
    Builder.nodup_contents b.tiles, ?_, contents_eq, ?_, ?_, small.divides _⟩
  · rw [Builder.buildWith, sections_eq]
    rfl
  · -- A payload is read where the draft has put it, in the section of the tile data.
    intro row member
    have placed :=
      (Builder.holds_draft fits.tileData fits.runs).rows row (List.mem_reverse.mp member)
    exact (small.placed_payload _ (data_eq ▸ placed.placed)).run_fetchBytes placed.length_eq
  · -- More rows than fit one directory are spread over leaves, and otherwise the root
    -- holds them.
    intro size given many
    exact Builder.spreadOver_storeDirectories directories_unpack small rfl runs stored
      (size_eq.trans given) (entries_length ▸ many)
  · intro few
    obtain ⟨root, leaves_eq⟩ :=
      Builder.rootHolds_storeDirectories (h := b.header b.draft) directories_unpack small rfl runs
        stored fun size given => entries_length ▸ few size (size_eq.symm.trans given)
    refine ⟨root, ?_⟩
    show UInt64.ofNat s.leafDirectories.length = 0
    rw [leaves_eq]
    rfl
  · rw [List.length_reverse]
    exact entries_eq
  · intro payload
    rw [Builder.mem_contents_iff]
    constructor
    · rintro ⟨t, member, rfl⟩
      obtain ⟨c, -, given⟩ := (mem_iff t).mp member
      exact ⟨c, given⟩
    · rintro ⟨c, given⟩
      exact ⟨(c.tileId, payload), (mem_iff _).mpr ⟨c, rfl, given⟩, rfl⟩
  · rw [data_length, data_eq, (Builder.thrifty_draft b).tileData, List.length_flatten]
  · rw [data_length, (small.placed_tileData _).slice_eq, data_eq,
      (Builder.thrifty_draft b).tileData]

/-- The scattered tiles need four rows, for five coordinates and three payloads, and each row has a
leaf of its own. -/
theorem built_archive_is_compact_scattered :
    (∀ x, (Builder.filled scatteredSettings scatteredTiles).Wraps Gzip.gzip x →
      Gzip.gunzip (Gzip.gzip x) = .ok x) ∧
    (Builder.filled scatteredSettings scatteredTiles).Fits Gzip.gzip ∧
    ∃ bytes h, (Builder.filled scatteredSettings scatteredTiles).build = .ok bytes ∧
      Header.decode bytes = .ok h ∧
      ∃ (listed : List (UInt64 × Bytes)) (rows : List (Entry × Bytes)),
        Builder.StandsFor rows listed ∧ rows.length = 4 ∧
        (∀ others, Builder.StandsFor others listed → 4 ≤ others.length) ∧
        SpreadOver h bytes 1 (rows.map Prod.fst) ∧
        h.addressedTiles.toNat = 5 ∧ h.tileEntries.toNat = 4 ∧
        ∃ contents : List Bytes, contents.Nodup ∧ contents.length = 3 ∧
          (∀ payload, payload ∈ contents ↔ ∃ c, lastPayload scatteredTiles c = some payload) ∧
          h.tileData.length.toNat = (contents.map List.length).sum ∧
          h.Divides bytes := by
  obtain ⟨bytes, h, build_eq, decode_eq, listed, rows, -, -, stands, -, -, fewest, -, spread, -, -,
    rows_eq, contents, -, apart, mem_iff, contents_eq, data_length, -, divides⟩ :=
    built_archive_is_compact (fun _ => unpacks_scattered) fits_scattered
  -- The three numbers are found by building the archive once.
  have counts : (Builder.filled scatteredSettings scatteredTiles).build.toOption.bind
      (fun bytes => (Header.decode bytes).toOption.map fun h =>
        (h.addressedTiles.toNat, h.tileEntries.toNat, h.tileContents.toNat))
      = some (5, 4, 3) := by decide +kernel
  rw [Builder.build, build_eq, Except.toOption, Option.bind_some, decode_eq] at counts
  obtain ⟨addressed, entries, distinct⟩ : h.addressedTiles.toNat = 5 ∧ h.tileEntries.toNat = 4 ∧
      h.tileContents.toNat = 3 := by simpa [Except.toOption] using counts
  have rows_length : rows.length = 4 := rows_eq.symm.trans entries
  refine ⟨fun _ => unpacks_scattered, fits_scattered, bytes, h, build_eq, decode_eq, listed, rows,
    stands, rows_length, ?_, ?_, addressed, entries, contents, apart,
    contents_eq.symm.trans distinct, mem_iff, data_length, divides⟩
  · intro others others_stand
    exact rows_length ▸ fewest others others_stand
  · exact spread 1 rfl (by omega)

end TileArchive
