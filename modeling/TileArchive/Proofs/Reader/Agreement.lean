import TileArchive.Proofs.Reader.Opening
import TileArchive.Proofs.Reader.Order
import TileArchive.Proofs.Reader.Transparency

/-!
# `TileArchive.Proofs.Reader.Agreement`: looking up and listing agree

A look-up searches its way down from the root directory, and a listing goes through all
directories. `lookUp_agrees_with_listing`: where the listing comes to its end, it has every
tile that a look-up finds. Where the directories are in order, it has no others, and lists
each tile once, in the order of the tile numbers.

The first direction needs no order. A look-up that finds a payload came to it through rows of
directories, and a listing that comes to its end has come through all rows of all directories, so
it has met this one. The other direction is where order is needed: a listing may meet a run that no
look-up comes to, because an earlier row hides it or because its leaf reaches beyond the numbers of
its pointer.

Both requests are compared in what they answer after histories of their own. What was asked before
does not show (`answered_directly`), so the proof is about the bytes of the archive alone.
-/

set_option autoImplicit false

namespace TileArchive

section

variable {h : Header} {answer : ByteRange → Except IoError Bytes}

/-- A scan that does not fail finds the tiles that are covered by a run with their payload. -/
theorem mem_scan_iff (whole : (scan h answer (entryTiles h answer)).error = none) :
    ∃ range, h.rootRange = .ok range ∧
      (tourDirectory h answer (maxDirectories - 1) range).error = none ∧
      ∀ c payload, ⟨c, payload⟩ ∈ (scan h answer (entryTiles h answer)).items
        ↔ ∃ e ∈ (tourDirectory h answer (maxDirectories - 1) range).runs,
          e.covers c.tileId = true ∧ (loadPayload (h.payloadRange e)).run answer = .ok payload := by
  obtain ⟨range, root_eq, tour_whole, runs_whole, items_eq⟩ := scan_whole whole
  refine ⟨range, root_eq, tour_whole, ?_⟩
  intro c payload
  rw [items_eq, List.mem_flatMap]
  refine ⟨fun ⟨e, member, tile_mem⟩ => ⟨e, member, ?_⟩,
    fun ⟨e, member, rest⟩ => ⟨e, member, ?_⟩⟩
  · exact (mem_entryTiles_iff (runs_whole e member)).mp tile_mem
  · exact (mem_entryTiles_iff (runs_whole e member)).mpr rest

/-- A tile that is looked up with success is found by a scan that does not fail. -/
theorem mem_scan_of_lookUp (whole : (scan h answer (entryTiles h answer)).error = none)
    {c : TileCoord} {payload : Bytes}
    (found : (lookUp h c).run (Need.truth h answer) = .ok (some payload)) :
    ⟨c, payload⟩ ∈ (scan h answer (entryTiles h answer)).items := by
  obtain ⟨range, root_eq, tour_whole, mem_iff⟩ := mem_scan_iff whole
  rw [lookUp, root_eq] at found
  exact (mem_iff c payload).mpr (mem_runs_of_run_descend tour_whole found)

/-- Where the directories are in order, a tile that a scan finds is looked up with success. -/
theorem lookUp_of_mem_scan (whole : (scan h answer (entryTiles h answer)).error = none)
    (ordered : ArchiveOrdered h answer) {c : TileCoord} {payload : Bytes}
    (member : ⟨c, payload⟩ ∈ (scan h answer (entryTiles h answer)).items) :
    (lookUp h c).run (Need.truth h answer) = .ok (some payload) := by
  obtain ⟨range, root_eq, tour_whole, mem_iff⟩ := mem_scan_iff whole
  obtain ⟨e, run_mem, covered, load_eq⟩ := (mem_iff c payload).mp member
  have tree_ordered := ordered range (by rw [root_eq]; rfl)
  rw [lookUp, root_eq]
  refine (tree_ordered.run_descend tour_whole run_mem covered).trans ?_
  rw [load_eq]
  rfl

/-- Where the directories are in order, a scan finds tiles in the order of their numbers.
Within a run this is how its tiles are numbered, and between runs it is that no run reaches
into the next. -/
theorem scan_increasing (whole : (scan h answer (entryTiles h answer)).error = none)
    (ordered : ArchiveOrdered h answer) :
    ((scan h answer (entryTiles h answer)).items.map fun t => t.coord.tileId).Pairwise
      (· < ·) := by
  obtain ⟨range, root_eq, tour_whole, runs_whole, items_eq⟩ := scan_whole whole
  have disjoint := TreeOrdered.disjoint (ordered range (by rw [root_eq]; rfl)) tour_whole
  have ids_eq : ∀ e ∈ (tourDirectory h answer (maxDirectories - 1) range).runs,
      (entryTiles h answer e).items.map (fun t => t.coord.tileId.toNat)
        = List.range' e.tileId.toNat e.runLength.toNat := by
    intro e member
    obtain ⟨payload, -, coords_whole, tiles_eq⟩ := entryTiles_whole (runs_whole e member)
    rw [tiles_eq, List.map_map]
    exact coordsFrom_whole coords_whole
  have numbers : ((scan h answer (entryTiles h answer)).items.map
      fun t => t.coord.tileId.toNat).Pairwise (· < ·) := by
    rw [items_eq, List.map_flatMap, List.pairwise_flatMap]
    refine ⟨?_, disjoint.pairwise.imp_of_mem ?_⟩
    · intro e member
      rw [ids_eq e member]
      exact List.pairwise_lt_range'
    · intro e e' member member' apart
      rw [ids_eq e member, ids_eq e' member']
      intro id id_mem id' id_mem'
      rw [List.mem_range'_1] at id_mem id_mem'
      omega
  rw [List.pairwise_map] at numbers ⊢
  exact numbers.imp fun lt => UInt64.lt_iff_toNat_lt.mpr lt

end

/-- Where no reads fail, the tiles are listed as the bytes have them. -/
theorem listed_directly {bytes : Bytes} {r : Reader} (idle : r.Idle (Content.read bytes) [])
    (history : List Request) :
    (((ReaderSession.new r).after history).run (.tiles none)).2
      = some (.tiles (.ofTrail (scan r.header (Content.read bytes)
          (entryTiles r.header (Content.read bytes))))) :=
  answered_toQuery idle history rfl (run_listTiles r.header (Content.read bytes))

/-- Whatever was asked before, a listing of an archive that comes to its end has every tile that
a look-up finds. Where all directories are in order, the tile numbers in the listing increase,
no tile is listed twice, and a look-up finds exactly the tiles of the listing. -/
theorem lookUp_agrees_with_listing {bytes : Bytes} {config : ReaderConfig} {h : Header}
    (decoded : Header.decode bytes = .ok h) (valid : config.validate = .ok ()) :
    ∃ source r, Reader.open? config (.ofBytes bytes) = (source, some (.ok r)) ∧
      ∀ history history', ∃ listed,
        (((ReaderSession.new r).after history).run (.tiles none)).2 = some (.tiles listed) ∧
        (listed.ending = .complete →
          (∀ c payload, (((ReaderSession.new r).after history').run (.tile c)).2
              = some (.payload (.ok (some payload))) → ⟨c, payload⟩ ∈ listed.items) ∧
          (ArchiveOrdered h (Content.read bytes) →
            (listed.items.map fun t => t.coord.tileId).Pairwise (· < ·) ∧
            (listed.items.map Tile.coord).Nodup ∧
            ∀ c payload, (((ReaderSession.new r).after history').run (.tile c)).2
              = some (.payload (.ok (some payload))) ↔ ⟨c, payload⟩ ∈ listed.items)) := by
  obtain ⟨source, r, opened, rfl, rfl, idle⟩ := Reader.open?_ofBytes decoded valid
  have response_iff : ∀ (history : List Request) (c : TileCoord) (payload : Bytes),
      (((ReaderSession.new r).after history).run (.tile c)).2
          = some (.payload (.ok (some payload)))
        ↔ (lookUp r.header c).run (Need.truth r.header (Content.read bytes))
          = .ok (some payload) := by
    intro history c payload
    rw [answered_directly idle, Request.direct, Request.query, Query.run_bind]
    exact ⟨fun same => by injection same with same; injection same, fun same => by rw [same]; rfl⟩
  refine ⟨source, r, opened, ?_⟩
  intro history history'
  refine ⟨.ofTrail (scan r.header (Content.read bytes) (entryTiles r.header (Content.read bytes))),
    listed_directly idle history, ?_⟩
  intro complete
  have whole := (Listing.ending_ofTrail_eq_complete_iff _).mp complete
  simp only [response_iff]
  refine ⟨fun c payload => mem_scan_of_lookUp whole, ?_⟩
  intro ordered
  have increasing := scan_increasing whole ordered
  refine ⟨increasing, ?_, fun c payload => ⟨mem_scan_of_lookUp whole,
    lookUp_of_mem_scan whole ordered⟩⟩
  -- Equal coordinates would have equal numbers.
  rw [List.pairwise_map] at increasing
  refine List.pairwise_map.mpr (increasing.imp ?_)
  intro t t' lt same
  rw [same] at lt
  exact UInt64.lt_irrefl _ lt

/-- An archive with a leaf is listed to its end, and its directories are in order. So after
a visit a look-up gives just the payloads that the listing has. -/
theorem lookUp_agrees_with_listing_leafArchive :
    (∃ h, Header.decode leafArchive = .ok h ∧ ArchiveOrdered h (Content.read leafArchive)) ∧
    ReaderConfig.standard.validate = .ok () ∧
    ∃ source r listed, Reader.open? .standard (.ofBytes leafArchive) = (source, some (.ok r)) ∧
      ((ReaderSession.new r).run (.tiles none)).2 = some (.tiles listed) ∧
      listed.ending = .complete ∧
      (listed.items.map fun t => t.coord.tileId).Pairwise (· < ·) ∧
      (listed.items.map Tile.coord).Nodup ∧
      ∀ c payload, (((ReaderSession.new r).after [.visit]).run (.tile c)).2
        = some (.payload (.ok (some payload))) ↔ ⟨c, payload⟩ ∈ listed.items := by
  obtain ⟨h, decoded, ordered, whole⟩ : ∃ h, Header.decode leafArchive = .ok h ∧
      ArchiveOrdered h (Content.read leafArchive) ∧
      (scan h (Content.read leafArchive) (entryTiles h (Content.read leafArchive))).error = none :=
    ⟨_, by cbv, by decide +kernel, by decide +kernel⟩
  have valid : ReaderConfig.standard.validate = .ok () := rfl
  obtain ⟨source, r, opened, agree⟩ := lookUp_agrees_with_listing decoded valid
  obtain ⟨listed, list_eq, agreed⟩ := agree [] [.visit]
  have complete : listed.ending = .complete := by
    obtain ⟨source', r', opened', rfl, -, idle⟩ := Reader.open?_ofBytes decoded valid
    obtain ⟨-, rfl⟩ : source = source' ∧ r = r' := by
      rw [opened] at opened'
      cases opened'
      exact ⟨rfl, rfl⟩
    rw [listed_directly idle []] at list_eq
    cases list_eq
    exact (Listing.ending_ofTrail_eq_complete_iff _).mpr whole
  exact ⟨⟨h, decoded, ordered⟩, valid, source, r, listed, opened, list_eq, complete,
    (agreed complete).2 ordered⟩

end TileArchive
