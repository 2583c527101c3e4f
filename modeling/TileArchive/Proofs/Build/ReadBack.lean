import TileArchive.Proofs.Build.Archive
import TileArchive.Proofs.Reader.Agreement
import TileArchive.Proofs.Reader.Coalescing

/-!
# `TileArchive.Proofs.Build.ReadBack`: an archive that was made is read back

`built_archive_reads_back`: tiles are added to a builder one after another, and the archive is
made. As long as everything fits its place, making it succeeds, the archive opens, and a reader
gives back what was added: a look-up finds the last payload given for a coordinate and nothing
elsewhere, each of the three listings has every tile once in the order of the tile numbers, and
the metadata are those of the text given to the builder.

The two assumptions are those of `Proofs/Build/Described.lean`: everything fits its place, and
unpacking undoes packing for the parts that are packed, which are none without internal
compression.

## From the bytes to the answers

`Builder.Archived` says what is found in the bytes. The scan through such an archive does not fail
(`Archived.scan_error`) and has exactly the tiles of the builder (`Archived.mem_scan_iff`), and the
archive is in order. All answers of a reader follow from this one scan: the listings are the scan,
and a look-up finds what the scan has (`lookUp_of_mem_scan`) and nothing else
(`Archived.run_lookUp_eq_none`). None of them depends on what the reader was asked before, which is
`answered_directly` and `answered_toQuery`.
-/

set_option autoImplicit false

namespace TileArchive

namespace Builder

section

variable {b : Builder} {h : Header} {bytes : Bytes}

/-- The runs of the archive are read, and each of their tiles has a coordinate. -/
theorem Archived.entryTiles_error (archived : b.Archived h bytes) (numbered : b.Numbered)
    {row : Entry × Bytes} (member : row ∈ b.draft.rows) :
    (entryTiles h (Content.read bytes) row.1).error = none := by
  have coords_whole : (entryCoords row.1).error = none := by
    refine coordsFrom_error_eq_none ?_
    intro n low_le lt
    obtain ⟨t, tile_mem, id_eq, -⟩ := archived.draft.exists_tile member low_le lt
    obtain ⟨c, coord_eq⟩ := numbered.coord t tile_mem
    exact ⟨c, by rw [coord_eq, id_eq]⟩
  rw [entryTiles, archived.payloads row member]
  exact coords_whole

/-- The scan of the archive does not fail. -/
theorem Archived.scan_error (archived : b.Archived h bytes) (numbered : b.Numbered) :
    (scan h (Content.read bytes) (entryTiles h (Content.read bytes))).error = none := by
  obtain ⟨range, range_eq, holds⟩ := archived.directories
  refine scan_error_eq_none range_eq holds.whole ?_
  intro e member
  rw [holds.runs_eq] at member
  obtain ⟨row, row_mem, rfl⟩ := Draft.mem_entries_iff.mp member
  exact archived.entryTiles_error numbered row_mem

/-- The directories of an archive that was made are in order. -/
theorem Archived.ordered (archived : b.Archived h bytes) :
    ArchiveOrdered h (Content.read bytes) := by
  obtain ⟨range, range_eq, holds⟩ := archived.directories
  rw [ArchiveOrdered, range_eq]
  rintro _ ⟨rfl⟩
  exact holds.ordered 0 none (fun _ _ => Nat.zero_le _) fun _ _ => nofun

/-- A run of the archive that covers a number has the payload of a tile with this number. -/
theorem Archived.covered_iff (archived : b.Archived h bytes) {id : UInt64} {payload : Bytes} :
    (∃ e ∈ b.draft.entries, e.covers id = true ∧
        (loadPayload (h.payloadRange e)).run (Content.read bytes) = .ok payload)
      ↔ (id, payload) ∈ b.tiles := by
  rw [archived.draft.mem_iff]
  constructor
  · rintro ⟨e, member, covered, load_eq⟩
    obtain ⟨row, row_mem, rfl⟩ := Draft.mem_entries_iff.mp member
    have read := archived.payloads row row_mem
    exact ⟨row, row_mem, covered, Except.ok.inj (read.symm.trans load_eq)⟩
  · rintro ⟨row, row_mem, covered, rfl⟩
    exact ⟨row.1, Draft.mem_entries_iff.mpr ⟨row, row_mem, rfl⟩, covered,
      archived.payloads row row_mem⟩

/-- The scan finds the tiles of the builder. -/
theorem Archived.mem_scan_iff (archived : b.Archived h bytes) (numbered : b.Numbered)
    {c : TileCoord} {payload : Bytes} :
    ⟨c, payload⟩ ∈ (scan h (Content.read bytes) (entryTiles h (Content.read bytes))).items
      ↔ (c.tileId, payload) ∈ b.tiles := by
  obtain ⟨range, range_eq, holds⟩ := archived.directories
  obtain ⟨range', range_eq', -, mem_iff⟩ :=
    TileArchive.mem_scan_iff (archived.scan_error numbered)
  obtain rfl : range = range' := Except.ok.inj (range_eq.symm.trans range_eq')
  rw [mem_iff, holds.runs_eq, archived.covered_iff]

/-- A look-up of a number without a tile finds nothing. -/
theorem Archived.run_lookUp_eq_none (archived : b.Archived h bytes) {c : TileCoord}
    (absent : ∀ payload, (c.tileId, payload) ∉ b.tiles) :
    (lookUp h c).run (Need.truth h (Content.read bytes)) = .ok none := by
  obtain ⟨range, range_eq, holds⟩ := archived.directories
  rw [lookUp, range_eq]
  rcases run_descend_cases holds.whole c.tileId with nothing | ⟨e, member, covered, -⟩
  · exact nothing
  · -- A run that covers the number would have a tile for it.
    rw [holds.runs_eq] at member
    obtain ⟨row, row_mem, rfl⟩ := Draft.mem_entries_iff.mp member
    exact absurd (archived.covered_iff.mp ⟨row.1, member, covered, archived.payloads row row_mem⟩)
      (absent row.2)

end

/-- The tiles that were added are in order, each under the number of its coordinate. -/
theorem numbered_filled (settings : Builder) (tiles : List Tile) :
    (filled settings tiles).Numbered := by
  obtain ⟨increasing, mem_iff⟩ := filled_tiles settings tiles
  refine ⟨increasing, ?_⟩
  intro t member
  obtain ⟨c, id_eq, -⟩ := (mem_iff t).mp member
  exact ⟨c, id_eq⟩

/-- A tile with the number of a coordinate is the last one given for it. -/
theorem mem_filled_iff (settings : Builder) (tiles : List Tile) (c : TileCoord) (payload : Bytes) :
    (c.tileId, payload) ∈ (filled settings tiles).tiles ↔ lastPayload tiles c = some payload := by
  rw [(filled_tiles settings tiles).2]
  constructor
  · rintro ⟨c', id_eq, given⟩
    rwa [← TileCoord.tileId_injective id_eq]
  · exact fun given => ⟨c, rfl, given⟩

end Builder

/-- Tiles are added to a builder with any settings, and the archive is made. Whatever packs gzip
members, as long as unpacking undoes it and everything fits its place, the archive is made and
opens. Whatever is asked first, a look-up then finds the last payload given for a coordinate and
nothing elsewhere; all listings end with success and have every tile that was added once, in
the order of the tile numbers; and the metadata are those of the given text. -/
theorem built_archive_reads_back {settings : Builder} {tiles : List Tile} {gzip : Bytes → Bytes}
    {config : ReaderConfig}
    (unpacks : ∀ x, (Builder.filled settings tiles).Wraps gzip x → Gzip.gunzip (gzip x) = .ok x)
    (fits : (Builder.filled settings tiles).Fits gzip) (valid : config.validate = .ok ()) :
    ∃ bytes source r, (Builder.filled settings tiles).buildWith gzip = .ok bytes ∧
      Reader.open? config (.ofBytes bytes) = (source, some (.ok r)) ∧
      ∃ listed : List Tile, (listed.map fun t => t.coord.tileId).Pairwise (· < ·) ∧
        (∀ c payload, ⟨c, payload⟩ ∈ listed ↔ lastPayload tiles c = some payload) ∧
        ∀ history, let s := (ReaderSession.new r).after history
          (∀ c, (s.run (.tile c)).2 = some (.payload (.ok (lastPayload tiles c)))) ∧
          (s.run (.coords none)).2 = some (.coords ⟨listed.map Tile.coord, .complete⟩) ∧
          (s.run (.tiles none)).2 = some (.tiles ⟨listed, .complete⟩) ∧
          (s.run .visit).2 = some (.visited ⟨listed, .complete⟩) ∧
          (s.run .metadata).2 = some (.metadata
            (if settings.metadata.isEmpty then .ok .empty
              else (Metadata.decode settings.metadata).mapError .metadata)) := by
  have numbered := Builder.numbered_filled settings tiles
  obtain ⟨h, bytes, build_eq, archived⟩ := fits.exists_archived numbered unpacks
  obtain ⟨source, r, opened, rfl, rfl, idle⟩ := Reader.open?_ofBytes archived.decoded valid
  have whole := archived.scan_error numbered
  have mem_iff (c : TileCoord) (payload : Bytes) :
      ⟨c, payload⟩ ∈ (scan r.header (Content.read bytes)
          (entryTiles r.header (Content.read bytes))).items
        ↔ lastPayload tiles c = some payload := by
    rw [archived.mem_scan_iff numbered, Builder.mem_filled_iff]
  -- A look-up ends at the run that covers the number, if any does.
  have lookUp_eq (c : TileCoord) : (lookUp r.header c).run
      (Need.truth r.header (Content.read bytes)) = .ok (lastPayload tiles c) := by
    cases given : lastPayload tiles c with
    | some payload =>
        exact lookUp_of_mem_scan whole archived.ordered ((mem_iff c payload).mpr given)
    | none =>
        refine archived.run_lookUp_eq_none ?_
        intro payload member
        rw [Builder.mem_filled_iff, given] at member
        cases member
  -- All listings are told by the scan, and the scan is whole.
  have tiles_eq := run_listTiles r.header (Content.read bytes)
  have coords_eq := run_listCoords r.header (Content.read bytes)
  have visit_eq := run_visitTiles_of_whole archived.addressable
    (ReaderConfig.coalesceThreshold_le valid) whole
  rw [Listing.ofTrail_of_whole whole] at tiles_eq visit_eq
  rw [scan_entryCoords whole, Listing.ofTrail_of_whole rfl] at coords_eq
  refine ⟨bytes, source, r, build_eq, opened, _, scan_increasing whole archived.ordered, mem_iff,
    ?_⟩
  intro history
  refine ⟨?_, answered_toQuery idle history rfl coords_eq,
    answered_toQuery idle history rfl tiles_eq, answered_toQuery idle history rfl visit_eq, ?_⟩
  · intro c
    rw [answered_directly idle, Request.direct, Request.query, Query.run_bind, lookUp_eq]
    rfl
  · have metadata_eq := archived.metadata
    rw [Builder.metadata_filled] at metadata_eq
    rw [answered_directly idle, ← metadata_eq]
    rfl

/-- Settings under which every row gets a leaf directory of its own. -/
def scatteredSettings : Builder :=
  { Builder.empty with metadata := [123, 125], internalCompression := .gzip }.withLeafSize 0

/-- Tiles that make a run of two, an empty payload after a gap, and a payload that is stored
before that of the row before it. The first tile is replaced by the last. -/
def scatteredTiles : List Tile :=
  [⟨⟨0, 0, 0, by decide, by decide, by decide⟩, [1]⟩,
    ⟨⟨1, 0, 0, by decide, by decide, by decide⟩, [7]⟩,
    ⟨⟨1, 0, 1, by decide, by decide, by decide⟩, [7]⟩,
    ⟨⟨1, 1, 0, by decide, by decide, by decide⟩, []⟩,
    ⟨⟨2, 0, 0, by decide, by decide, by decide⟩, [9]⟩,
    ⟨⟨0, 0, 0, by decide, by decide, by decide⟩, [9]⟩]

/-- The archive of the example fits its places. The bounds are checked on the sections that
are made, and a run that is too long would have a number that no tile has. -/
theorem fits_scattered : (Builder.filled scatteredSettings scatteredTiles).Fits Gzip.gzip := by
  have leaves_small : ((Builder.filled scatteredSettings scatteredTiles).spread Gzip.gzip
      (Builder.filled scatteredSettings scatteredTiles).draft.entries).toOption.all
        fun stored => stored.2.length ≤ Word.largest32 := by decide +kernel
  have root_small : ((Builder.filled scatteredSettings scatteredTiles).storeDirectories Gzip.gzip
      (Builder.filled scatteredSettings scatteredTiles).draft.entries).toOption.all
        fun stored => stored.1.length ≤ Word.largest32 := by decide +kernel
  refine ⟨by decide +kernel, by decide +kernel, ?_, ?_, ?_⟩
  · intro _ _ eq
    rw [eq] at leaves_small
    exact of_decide_eq_true leaves_small
  · intro _ _ eq
    rw [eq] at root_small
    exact of_decide_eq_true root_small
  · rintro ⟨first, payload, all⟩
    have low : ∀ t ∈ (Builder.filled scatteredSettings scatteredTiles).tiles, t.1.toNat < 6 := by
      decide +kernel
    obtain ⟨t, member, id_eq, -⟩ := all 6 (by decide)
    have id_lt := low t member
    omega

/-- What is packed in the archive of the example is short enough to be unpacked again: its
metadata, its root directory and its leaves. -/
theorem unpacks_scattered {x : Bytes}
    (wraps : (Builder.filled scatteredSettings scatteredTiles).Wraps Gzip.gzip x) :
    Gzip.gunzip (Gzip.gzip x) = .ok x := by
  apply Gzip.gunzip_gzip
  cases wraps with
  | metadata => decide
  | directory _ made written_eq =>
      cases made with
      | root spread_eq =>
          have small : ((Builder.filled scatteredSettings scatteredTiles).spread Gzip.gzip
              (Builder.filled scatteredSettings scatteredTiles).draft.entries).toOption.all
                fun stored => (Directory.encode ⟨stored.1⟩).toOption.all
                  fun written => written.length ≤ Gzip.maxContent := by decide +kernel
          rw [spread_eq] at small
          simp only [Except.toOption, Option.all_some, written_eq] at small
          exact of_decide_eq_true small
      | leaf size_eq _ member =>
          have small : (Builder.pieces 0
              (Builder.filled scatteredSettings scatteredTiles).draft.entries).all
                fun piece => (Directory.encode ⟨piece⟩).toOption.all
                  fun written => written.length ≤ Gzip.maxContent := by decide +kernel
          cases size_eq
          have piece_small := List.all_eq_true.mp small _ member
          rw [written_eq] at piece_small
          exact of_decide_eq_true piece_small

/-- The scattered tiles are read back from an archive whose gzip members are made here. The
requests come after a visit and a call for the metadata, so the caches are not empty. -/
theorem built_archive_reads_back_scattered :
    (∀ x, (Builder.filled scatteredSettings scatteredTiles).Wraps Gzip.gzip x →
      Gzip.gunzip (Gzip.gzip x) = .ok x) ∧
    (Builder.filled scatteredSettings scatteredTiles).Fits Gzip.gzip ∧
    ReaderConfig.standard.validate = .ok () ∧
    ∃ bytes source r, (Builder.filled scatteredSettings scatteredTiles).build = .ok bytes ∧
      Reader.open? .standard (.ofBytes bytes) = (source, some (.ok r)) ∧
      ∃ listed : List Tile, (listed.map fun t => t.coord.tileId).Pairwise (· < ·) ∧
        (∀ c payload, ⟨c, payload⟩ ∈ listed ↔ lastPayload scatteredTiles c = some payload) ∧
        let s := (ReaderSession.new r).after [.visit, .metadata]
        (s.run (.tile ⟨0, 0, 0, by decide, by decide, by decide⟩)).2
          = some (.payload (.ok (some [9]))) ∧
        (s.run (.tile ⟨1, 1, 1, by decide, by decide, by decide⟩)).2
          = some (.payload (.ok none)) ∧
        (s.run (.coords none)).2 = some (.coords ⟨listed.map Tile.coord, .complete⟩) ∧
        (s.run (.tiles none)).2 = some (.tiles ⟨listed, .complete⟩) ∧
        (s.run .visit).2 = some (.visited ⟨listed, .complete⟩) ∧
        (s.run .metadata).2
          = some (.metadata ((Metadata.decode [123, 125]).mapError .metadata)) := by
  have valid : ReaderConfig.standard.validate = .ok () := rfl
  obtain ⟨bytes, source, r, build_eq, opened, listed, increasing, mem_iff, answered⟩ :=
    built_archive_reads_back (fun _ => unpacks_scattered) fits_scattered valid
  obtain ⟨lookUp_eq, coords_eq, tiles_eq, visit_eq, metadata_eq⟩ := answered [.visit, .metadata]
  exact ⟨fun _ => unpacks_scattered, fits_scattered, valid, bytes, source, r, build_eq, opened,
    listed, increasing, mem_iff, lookUp_eq _, lookUp_eq _, coords_eq, tiles_eq, visit_eq,
    metadata_eq⟩

end TileArchive
