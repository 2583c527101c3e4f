import TileArchive.Proofs.Build.Tree

/-!
# `TileArchive.Proofs.Build.Archive`: everything in an archive that was made is found

As long as everything fits its place (`Builder.Fits`), an archive can be made of a builder.
`Builder.Archived` says what is found in its bytes: the header, a root directory that holds the
rows of the draft, the payload of every row, and the metadata. `Fits.exists_archived` takes the
archive apart in the order in which it was put together: the draft holds the tiles, the
directories hold the rows of the draft, and the sections lie where the header says.

`Builder.Wraps` lists what is packed, and the assumption that unpacking undoes packing is about
these byte strings only. Without internal compression there are none. With it, they are the
metadata, unless there is none, and every directory that is made. Metadata above the largest size
that may be unpacked can therefore be archived without compression, but not read back with it.

An empty metadata section is not read at all, so that a builder without metadata is read back as
the empty metadata and not as an error of the reader.
-/

set_option autoImplicit false

namespace TileArchive

namespace Builder

/-- Everything fits its place: no section and no directory reaches `2 ^ 32` bytes, and no
run reaches `2 ^ 32` tiles. A leaf directory is part of its section, so it needs no bound of
its own. These are the lengths that rows and reads have half a word for. Offsets need no
assumption, since four short sections cannot reach the end of a word. -/
structure Fits (b : Builder) (gzip : Bytes → Bytes) : Prop where
  tileData : b.draft.tileData.length ≤ Word.largest32
  metadata : (b.storeMetadata gzip).length ≤ Word.largest32
  leafDirectories : ∀ rows leaves, b.spread gzip b.draft.entries = .ok (rows, leaves) →
    leaves.length ≤ Word.largest32
  rootDirectory : ∀ root leaves, b.storeDirectories gzip b.draft.entries = .ok (root, leaves) →
    root.length ≤ Word.largest32
  runs : ¬ LongRun b.tiles

/-- What is packed for the archive, where its parts are stored as gzip members: the text of the
metadata, unless it is empty, and the directories as they are written. Under any other setting
nothing is packed. -/
inductive Wraps (b : Builder) (gzip : Bytes → Bytes) : Bytes → Prop where
  | metadata (packed : b.internalCompression = .gzip) (some_text : b.metadata ≠ []) :
      Wraps b gzip b.metadata
  | directory (packed : b.internalCompression = .gzip) {rows : List Entry} {written : Bytes}
      (made : b.Makes gzip b.draft.entries rows)
      (written_eq : Directory.encode ⟨rows⟩ = .ok written) : Wraps b gzip written

/-- The tiles of a builder are in order, and each number is that of a coordinate. Every
builder that was filled by adding tiles is so (`numbered_filled`). -/
structure Numbered (b : Builder) : Prop where
  increasing : Increasing b.tiles
  coord : ∀ t ∈ b.tiles, ∃ c : TileCoord, c.tileId = t.1

section

variable {b : Builder} {gzip : Bytes → Bytes}

/-- The rows of the draft are runs in order. Their numbers are those of tiles and their
offsets are places in the tile data, so both are well below the largest word. -/
theorem Fits.runsInOrder (fits : b.Fits gzip) (numbered : b.Numbered) :
    RunsInOrder b.draft.entries := by
  have holds := holds_draft fits.tileData fits.runs
  refine ⟨?_, holds.entries_apart numbered.increasing, ?_,
    ?_⟩
  · intro e member
    obtain ⟨row, row_mem, rfl⟩ := Draft.mem_entries_iff.mp member
    exact (holds.rows row row_mem).run
  · intro e member
    obtain ⟨row, row_mem, rfl⟩ := Draft.mem_entries_iff.mp member
    have run := (holds.rows row row_mem).run
    obtain ⟨t, tile_mem, id_eq, -⟩ := holds.exists_tile row_mem (Nat.le_refl _) (by omega)
    obtain ⟨c, coord_eq⟩ := numbered.coord t tile_mem
    rw [← id_eq, ← coord_eq]
    exact TileCoord.lt_largest_of_ofTileId (TileCoord.ofTileId_tileId c)
  · intro e member
    obtain ⟨row, row_mem, rfl⟩ := Draft.mem_entries_iff.mp member
    exact (holds.rows row row_mem).placed.offset_lt fits.tileData

/-- The sections of the archive can be made, and each fits one read. -/
theorem Fits.exists_sections (fits : b.Fits gzip) (numbered : b.Numbered) :
    ∃ s : Sections, b.sections gzip = .ok s ∧ s.Small ∧ s.metadata = b.storeMetadata gzip ∧
      s.tileData = b.draft.tileData ∧
      b.storeDirectories gzip b.draft.entries = .ok (s.rootDirectory, s.leafDirectories) := by
  obtain ⟨root, leaves, stored⟩ :=
    exists_storeDirectories (fits.runsInOrder numbered) fits.leafDirectories
  obtain ⟨root_rows, spread_eq, -⟩ := storeDirectories_eq_ok stored
  refine ⟨⟨root, b.storeMetadata gzip, leaves, b.draft.tileData⟩, ?_, ?_, rfl, rfl, stored⟩
  · rw [sections, stored]
    rfl
  · exact ⟨fits.rootDirectory _ _ stored, fits.metadata, fits.leafDirectories _ _ spread_eq,
      fits.tileData⟩

/-! ### What is read from the sections -/

/-- What is found in the bytes of an archive that was made of a builder: the header, a tree
of directories that holds the rows of the draft, a payload for each row, and the metadata.
All that a reader does with the archive follows from these. -/
structure Archived (b : Builder) (h : Header) (bytes : Bytes) : Prop where
  addressable : Content.Addressable bytes
  decoded : Header.decode bytes = .ok h
  draft : b.draft.Holds b.tiles
  directories : ∃ range, h.rootRange = .ok range ∧
    DirectoryHolds h (Content.read bytes) (maxDirectories - 1) range b.draft.entries
  payloads : ∀ row ∈ b.draft.rows,
    (fetchBytes (h.payloadRange row.1)).run (Content.read bytes) = .ok row.2
  metadata : (loadMetadata h).run (Content.read bytes)
    = if b.metadata.isEmpty then .ok .empty
      else (Metadata.decode b.metadata).mapError .metadata

/-- The stored metadata are those of the text. A text without bytes is stored as no section
at all, and is read as metadata that say nothing. -/
theorem run_loadMetadata
    (unpacks : b.internalCompression = .gzip → b.metadata ≠ [] →
      Gzip.gunzip (gzip b.metadata) = .ok b.metadata) {s : Sections}
    (small : s.Small) {h : Header} (compression : h.internalCompression = b.internalCompression)
    (metadata_eq : s.metadata = b.storeMetadata gzip) :
    (loadMetadata (s.describe h)).run (Content.read (s.assemble h))
      = if b.metadata.isEmpty then .ok .empty
        else (Metadata.decode b.metadata).mapError .metadata := by
  obtain ⟨range, range_eq, length_eq, placed⟩ := small.metadataRange h
  have described : (s.describe h).internalCompression = b.internalCompression := compression
  rw [loadMetadata, range_eq]
  simp only
  rw [storeMetadata] at metadata_eq
  by_cases empty : b.metadata.isEmpty = true
  · -- Without a text the section is empty, and is not read.
    rw [if_pos empty] at metadata_eq ⊢
    have range_empty : range.isEmpty = true := by
      rw [metadata_eq] at length_eq
      rw [ByteRange.isEmpty, beq_iff_eq, ← UInt32.toNat_inj]
      exact length_eq
    rw [if_pos range_empty]
    rfl
  · rw [if_neg empty] at metadata_eq ⊢
    have some_text : b.metadata ≠ [] := fun nil => empty (List.isEmpty_iff.mpr nil)
    have unpacked (packed : b.internalCompression = .gzip) :
        Gzip.gunzip (gzip b.metadata) = .ok b.metadata := unpacks packed some_text
    have not_nil : s.metadata ≠ [] := by
      rw [metadata_eq]
      exact Compression.wrapWith_ne_nil unpacked some_text
    have range_not_empty : ¬ range.isEmpty = true := by
      intro range_empty
      rw [ByteRange.isEmpty, beq_iff_eq] at range_empty
      rw [range_empty] at length_eq
      exact not_nil (List.length_eq_zero_iff.mp length_eq.symm)
    rw [if_neg range_not_empty, Fetch.run_bind, placed.run_fetchBytes length_eq, metadata_eq]
    show decodeMetadata (s.describe h) (b.internalCompression.wrapWith gzip b.metadata) = _
    rw [decodeMetadata, unwrapSection, described, Compression.unwrap_wrapWith unpacked]
    rfl

/-- The archive is made, and everything is found in it. Here the parts come together: the
draft, the layout of the sections, and the tree of directories. -/
theorem Fits.exists_archived (fits : b.Fits gzip) (numbered : b.Numbered)
    (unpacks : ∀ x, b.Wraps gzip x → Gzip.gunzip (gzip x) = .ok x) :
    ∃ h bytes, b.buildWith gzip = .ok bytes ∧ b.Archived h bytes := by
  obtain ⟨s, sections_eq, small, metadata_eq, data_eq, stored⟩ := fits.exists_sections numbered
  have compression : (b.header b.draft).internalCompression = b.internalCompression := rfl
  have holds := holds_draft fits.tileData fits.runs
  have directories_unpack : ∀ rows, b.Makes gzip b.draft.entries rows → Unpacks b gzip rows := by
    intro rows made packed written written_eq
    exact unpacks written (.directory packed made written_eq)
  refine ⟨s.describe (b.header b.draft), s.assemble (b.header b.draft), ?_, ?_⟩
  · rw [buildWith, sections_eq]
    rfl
  · exact {
      addressable := small.length_assemble_lt _
      decoded := Sections.decode_assemble rfl
      draft := holds
      directories := holds_storeDirectories directories_unpack small compression
        (fits.runsInOrder numbered) stored
      payloads := fun row member => by
        have placed := holds.rows row member
        exact (small.placed_payload _ (data_eq ▸ placed.placed)).run_fetchBytes placed.length_eq
      metadata := run_loadMetadata (fun packed some_text => unpacks _ (.metadata packed some_text))
        small compression metadata_eq }

end

end Builder

end TileArchive
