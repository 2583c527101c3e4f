import TileArchive.Build.Builder
import TileArchive.Proofs.TileCoord
import TileArchive.Reader.Listing

/-!
# `TileArchive.Proofs.Build.Tiles`: the tiles of a builder

`Builder.filled` adds tiles one after another. `filled_tiles`: their numbers then increase, and
the payload under a number is the last one that was given for its coordinate, since a later
tile replaces an earlier one. The induction goes along the added tiles from their end: the last
one is added to what the tiles before it have made.

A builder keeps its tiles in a list ordered by number. `mem_putTile_iff` says what is in the list
after a tile was put in, and `increasing_putTile` that it stays ordered. Both compare the number
with that of the first tile in the list, as `putTile` does: it comes before, behind, or is the
same. In the last case no other tile has the number, because the list increases.

Coordinates and numbers correspond one to one (`TileCoord.tileId_injective`), so a tile that is
replaced is one with the same coordinate.

`LongRun` is the one thing about tiles that a builder cannot write: more than `2 ^ 32 - 1`
consecutive ones with the same payload, whose count no run length holds.
-/

set_option autoImplicit false

namespace TileArchive

/-- The payload that was given last for a coordinate. A tile that is added twice replaces
the first one, and this is what the archive should hold of it. -/
def lastPayload (tiles : List Tile) (c : TileCoord) : Option Bytes :=
  (tiles.reverse.find? fun t => t.coord = c).map Tile.payload

/-- The last tile given for a coordinate counts. -/
theorem lastPayload_append (tiles : List Tile) (t : Tile) (c : TileCoord) :
    lastPayload (tiles ++ [t]) c = if t.coord = c then some t.payload else lastPayload tiles c := by
  by_cases same : t.coord = c
  · simp [lastPayload, same]
  · simp [lastPayload, same]

namespace Builder

/-- The numbers of the tiles increase. No number occurs twice then, so a number has one
payload at most. -/
def Increasing (tiles : List (UInt64 × Bytes)) : Prop := tiles.Pairwise fun t t' => t.1 < t'.1

/-- The builder with these settings to which some tiles have been added, one after another.
Tiles that the settings hold already are left out, so that the list says all that was added. -/
def filled (settings : Builder) (tiles : List Tile) : Builder :=
  tiles.foldl (fun b t => b.add t.coord t.payload) { settings with tiles := [], zooms := none }

/-- There are `2 ^ 32` tiles with consecutive numbers and one payload, more than a row
counts. The builder joins such tiles in one row, so it cannot write them. -/
def LongRun (tiles : List (UInt64 × Bytes)) : Prop :=
  ∃ first payload, ∀ k ≤ Word.largest32, ∃ t ∈ tiles, t.1.toNat = first + k ∧ t.2 = payload

/-- A run that is too long stays too long when tiles are added. -/
theorem LongRun.mono {tiles more : List (UInt64 × Bytes)} (long : LongRun tiles)
    (subset : ∀ t ∈ tiles, t ∈ more) : LongRun more := by
  obtain ⟨first, payload, all⟩ := long
  refine ⟨first, payload, ?_⟩
  intro k small
  obtain ⟨t, member, same⟩ := all k small
  exact ⟨t, subset t member, same⟩

/-- Increasing numbers are all different. -/
theorem Increasing.nodup {tiles : List (UInt64 × Bytes)} (increasing : Increasing tiles) :
    (tiles.map Prod.fst).Nodup := by
  rw [List.Nodup, List.pairwise_map]
  exact increasing.imp fun lt => UInt64.ne_of_lt lt

/-! ### Putting a tile in its place -/

/-- Where numbers increase, the new payload takes the place of one with the same number. All
other tiles stay. -/
theorem mem_putTile_iff {tiles : List (UInt64 × Bytes)} (increasing : Increasing tiles)
    (id : UInt64) (payload : Bytes) (t : UInt64 × Bytes) :
    t ∈ putTile id payload tiles ↔ t = (id, payload) ∨ t ∈ tiles ∧ t.1 ≠ id := by
  induction tiles with
  | nil => simp [putTile]
  | cons first rest ih =>
      obtain ⟨first_lt, rest_increasing⟩ := List.pairwise_cons.mp increasing
      rw [putTile]
      by_cases before : id < first.1
      · -- All tiles lie after the new one.
        have others : ∀ t ∈ first :: rest, t.1 ≠ id := by
          intro t member same
          rcases List.mem_cons.mp member with rfl | member
          · exact UInt64.lt_irrefl _ (same ▸ before)
          · exact UInt64.lt_irrefl _ (UInt64.lt_trans (same ▸ before) (first_lt t member))
        rw [if_pos before, List.mem_cons]
        exact or_congr_right (and_iff_left_of_imp (others t)).symm
      · rw [if_neg before]
        by_cases after : first.1 < id
        · -- The first tile stays, and the new one is put among the rest.
          have first_ne : first.1 ≠ id := fun same => UInt64.lt_irrefl _ (same ▸ after)
          rw [if_pos after, List.mem_cons, ih rest_increasing, List.mem_cons]
          constructor
          · rintro (rfl | new | old)
            · exact .inr ⟨.inl rfl, first_ne⟩
            · exact .inl new
            · exact .inr ⟨.inr old.1, old.2⟩
          · rintro (new | ⟨rfl | old, ne⟩)
            · exact .inr (.inl new)
            · exact .inl rfl
            · exact .inr (.inr ⟨old, ne⟩)
        · -- The first tile has the number, and no other does.
          have same : first.1 = id := UInt64.le_antisymm (UInt64.not_lt.mp before)
            (UInt64.not_lt.mp after)
          have others : ∀ t ∈ rest, t.1 ≠ id := by
            intro t member eq
            exact UInt64.lt_irrefl _ (same.trans eq.symm ▸ first_lt t member)
          rw [if_neg after, List.mem_cons, List.mem_cons]
          constructor
          · rintro (new | old)
            · exact .inl new
            · exact .inr ⟨.inr old, others t old⟩
          · rintro (new | ⟨rfl | old, ne⟩)
            · exact .inl new
            · exact absurd same ne
            · exact .inr old

/-- Tiles in order are so after one of them was put in. It goes in front of the first that
is higher, or takes the place of the one with its number. -/
theorem increasing_putTile {tiles : List (UInt64 × Bytes)} (increasing : Increasing tiles)
    (id : UInt64) (payload : Bytes) : Increasing (putTile id payload tiles) := by
  induction tiles with
  | nil => exact List.pairwise_singleton _ _
  | cons first rest ih =>
      obtain ⟨first_lt, rest_increasing⟩ := List.pairwise_cons.mp increasing
      rw [putTile]
      by_cases before : id < first.1
      · rw [if_pos before]
        refine List.pairwise_cons.mpr ⟨?_, increasing⟩
        intro t member
        rcases List.mem_cons.mp member with rfl | member
        · exact before
        · exact UInt64.lt_trans before (first_lt t member)
      · rw [if_neg before]
        by_cases after : first.1 < id
        · rw [if_pos after]
          refine List.pairwise_cons.mpr ⟨?_, ih rest_increasing⟩
          intro t member
          rcases (mem_putTile_iff rest_increasing id payload t).mp member with rfl | ⟨old, -⟩
          · exact after
          · exact first_lt t old
        · have same : first.1 = id := UInt64.le_antisymm (UInt64.not_lt.mp before)
            (UInt64.not_lt.mp after)
          rw [if_neg after]
          refine List.pairwise_cons.mpr ⟨?_, rest_increasing⟩
          intro t member
          show id < t.1
          rw [← same]
          exact first_lt t member

/-! ### Adding tiles one after another -/

/-- The tiles are added one after another. -/
theorem filled_append (settings : Builder) (tiles : List Tile) (t : Tile) :
    filled settings (tiles ++ [t]) = (filled settings tiles).add t.coord t.payload := by
  rw [filled, List.foldl_append]
  rfl

/-- The numbers of the tiles that were added increase, and each has the last payload given.
The induction is on the tiles with the last one first, as it is the last one that counts. -/
theorem filled_tiles (settings : Builder) (tiles : List Tile) :
    Increasing (filled settings tiles).tiles ∧ ∀ t,
      t ∈ (filled settings tiles).tiles
        ↔ ∃ c : TileCoord, c.tileId = t.1 ∧ lastPayload tiles c = some t.2 := by
  induction reversed : tiles.reverse generalizing tiles with
  | nil =>
      obtain rfl := List.reverse_eq_nil_iff.mp reversed
      refine ⟨.nil, ?_⟩
      intro t
      constructor
      · intro member
        cases member
      · rintro ⟨c, -, given⟩
        cases given
  | cons last before ih =>
      obtain rfl : tiles = before.reverse ++ [last] := by
        rw [← List.reverse_cons, ← reversed, List.reverse_reverse]
      obtain ⟨increasing, mem_iff⟩ := ih before.reverse (List.reverse_reverse before)
      rw [filled_append]
      refine ⟨increasing_putTile increasing _ _, ?_⟩
      intro t
      show t ∈ putTile last.coord.tileId last.payload (filled settings before.reverse).tiles ↔ _
      rw [mem_putTile_iff increasing, mem_iff]
      simp only [lastPayload_append]
      constructor
      · rintro (rfl | ⟨⟨c, id_eq, given⟩, ne⟩)
        · exact ⟨last.coord, rfl, if_pos rfl⟩
        · -- The payload was given before, and the last tile lies elsewhere.
          have other : last.coord ≠ c := by
            intro same
            rw [← id_eq, ← same] at ne
            exact ne rfl
          exact ⟨c, id_eq, by rw [if_neg other, given]⟩
      · rintro ⟨c, id_eq, given⟩
        by_cases same : last.coord = c
        · rw [if_pos same] at given
          exact .inl (Prod.ext (by rw [← id_eq, same]) (Option.some.inj given).symm)
        · rw [if_neg same] at given
          have ne : t.1 ≠ last.coord.tileId := by
            intro eq
            exact same (TileCoord.tileId_injective (eq.symm.trans id_eq.symm))
          exact .inr ⟨⟨c, id_eq, given⟩, ne⟩

/-- Adding tiles changes the list of tiles and the zooms and nothing else. -/
theorem exists_foldl_add_eq (tiles : List Tile) (b : Builder) : ∃ listed zooms,
    tiles.foldl (fun b t => b.add t.coord t.payload) b
      = { b with tiles := listed, zooms := zooms } := by
  induction tiles generalizing b with
  | nil => exact ⟨b.tiles, b.zooms, rfl⟩
  | cons t rest ih => exact ih (b.add t.coord t.payload)

/-- Adding tiles leaves the metadata alone. -/
theorem metadata_filled (settings : Builder) (tiles : List Tile) :
    (filled settings tiles).metadata = settings.metadata := by
  obtain ⟨listed, zooms, eq⟩ :=
    exists_foldl_add_eq tiles { settings with tiles := [], zooms := none }
  rw [filled, eq]

/-- Adding tiles leaves the size of leaf directories alone. -/
theorem leafSize_filled (settings : Builder) (tiles : List Tile) :
    (filled settings tiles).leafSize = settings.leafSize := by
  obtain ⟨listed, zooms, eq⟩ :=
    exists_foldl_add_eq tiles { settings with tiles := [], zooms := none }
  rw [filled, eq]

end Builder

end TileArchive
