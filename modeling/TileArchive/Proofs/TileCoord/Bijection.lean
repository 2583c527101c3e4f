import Mathlib.Data.Set.Function
import TileArchive.Proofs.TileCoord.Words

/-!
# `TileArchive.Proofs.TileCoord.Bijection`: every tile has a number of its own

The tiles of a zoom and the numbers of the zoom correspond one to one (`bijOn_tileId`), and
`TileCoord.ofTileId` is the way back: it finds the tile of every number below the end of the
last zoom, and refuses all others. Both ways are computed in machine words without an overflow.
`tileId_bijective` puts this together.

The bases of the zooms are written as `(gridArea z - 1) / 3` here, the sum of the areas of all
zooms before, and `gridArea_sub_one_div` says that this is what is looked up in the table. The
tiles of a zoom are those that `TileCoord.of?` gives out for it, so that a tile outside of the
grid is not among them (`exists_of?_iff`).

That a number is hit by some tile follows from the way back, not from counting: the tile found
for a number has this number.
-/

set_option autoImplicit false

namespace TileArchive.TileCoord

/-- A tile that is given out for a zoom, a column and a row is the one with these three; and
every tile is given out for its own, because it carries the proof that it lies on its grid. -/
theorem of?_eq_ok_iff {z x y : Nat} {c : TileCoord} :
    of? z x y = .ok c ↔ c.z = z ∧ c.x = x ∧ c.y = y := by
  constructor
  · intro made
    unfold of? at made
    split at made
    · split at made
      · cases made
        exact ⟨rfl, rfl, rfl⟩
      · cases made
    · cases made
  · intro ⟨same_zoom, same_column, same_row⟩
    subst same_zoom same_column same_row
    rw [of?, dif_pos c.z_le, dif_pos ⟨c.x_lt, c.y_lt⟩]

/-- The tiles that are accepted at a zoom. -/
theorem exists_of?_iff {z : Nat} {c : TileCoord} : (∃ x y, of? z x y = .ok c) ↔ c.z = z := by
  simp [of?_eq_ok_iff]

/-- The number of tiles on lower zooms is a geometric sum. -/
theorem gridArea_sub_one_div (z : Nat) : (gridArea z - 1) / 3 = zoomBase z := by
  rw [gridArea_eq]
  omega

/-- The number of a tile lies among the numbers of its zoom. -/
theorem tileId_mem_zoom (c : TileCoord) :
    zoomBase c.z ≤ c.tileId.toNat ∧ c.tileId.toNat < zoomBase (c.z + 1) := by
  obtain ⟨id_eq, place_lt⟩ := c.toNat_tileId
  rw [zoomBase_succ]
  omega

/-- Every number of a zoom is the number of a tile of the zoom. -/
theorem exists_tile_of_zoom {z : Nat} (z_le : z ≤ maxZoom) {id : UInt64}
    (base_le : zoomBase z ≤ id.toNat) (id_lt : id.toNat < zoomBase (z + 1)) :
    ∃ c, ofTileId id = .ok c ∧ c.z = z ∧ c.tileId = id := by
  obtain ⟨c, found, zoom_eq, -⟩ :=
    exists_ofTileId (zoomOf?_eq_some_iff.mpr ⟨z_le, base_le, id_lt⟩)
  exact ⟨c, found, zoom_eq, tileId_of_ofTileId found⟩

/-- The tiles of a zoom and the numbers of the zoom correspond one to one. The numbers are
those from the end of the zoom before up to its own, as powers of four add up. -/
theorem bijOn_tileId {z : Nat} (z_le : z ≤ maxZoom) :
    Set.BijOn (fun c : TileCoord => c.tileId.toNat) {c | ∃ x y, of? z x y = .ok c}
      {id | (gridArea z - 1) / 3 ≤ id ∧ id < (gridArea (z + 1) - 1) / 3} := by
  simp only [exists_of?_iff, gridArea_sub_one_div]
  refine ⟨?_, ?_, ?_⟩
  · intro c zoom_eq
    obtain rfl : c.z = z := zoom_eq
    exact c.tileId_mem_zoom
  · intro c _ c' _ same
    exact tileId_injective (UInt64.toNat_inj.mp same)
  · intro id ⟨base_le, id_lt⟩
    have end_le := zoomBase_le_largest (Nat.succ_le_succ z_le)
    have id_eq : (UInt64.ofNat id).toNat = id :=
      Word.toNat_ofNat (Nat.le_of_lt (Nat.lt_of_lt_of_le id_lt end_le))
    rw [← id_eq] at base_le id_lt
    obtain ⟨c, -, zoom_eq, number_eq⟩ := exists_tile_of_zoom z_le base_le id_lt
    exact ⟨c, zoom_eq, (congrArg UInt64.toNat number_eq).trans id_eq⟩

/-- Tile numbers are a bijection. At every zoom the accepted tiles are numbered one to one with
the numbers of the zoom. The tile with the number of a tile is that tile, every number below the
end of the last zoom is the number of the tile that is found for it, and every other number is
refused. In both directions no sum, difference or product of words overflows. -/
theorem tileId_bijective :
    (∀ z ≤ maxZoom, Set.BijOn (fun c : TileCoord => c.tileId.toNat)
      {c | ∃ x y, of? z x y = .ok c}
      {id | (gridArea z - 1) / 3 ≤ id ∧ id < (gridArea (z + 1) - 1) / 3}) ∧
    (∀ c : TileCoord, ofTileId c.tileId = .ok c) ∧
    (∀ id : UInt64, if id.toNat < (gridArea (maxZoom + 1) - 1) / 3
      then ∃ c, ofTileId id = .ok c ∧ of? c.z c.x c.y = .ok c ∧ c.tileId = id
      else ofTileId id = .error (.idOutOfRange id)) ∧
    (∀ c : TileCoord, checkedTileId c = some c.tileId) ∧
    ∀ id, checkedOfTileId id = some ((ofTileId id).map fun c => (c.z, c.x, c.y)) := by
  refine ⟨fun z z_le => bijOn_tileId z_le, ofTileId_tileId, ?_, checkedTileId_eq,
    checkedOfTileId_eq⟩
  intro id
  rw [gridArea_sub_one_div]
  split
  · next id_lt =>
    cases zoom_eq : zoomOf? id.toNat with
    | none => exact absurd id_lt (Nat.not_lt.mpr (zoomOf?_eq_none_iff.mp zoom_eq))
    | some z =>
        obtain ⟨c, found, -⟩ := exists_ofTileId zoom_eq
        exact ⟨c, found, of?_eq_ok_iff.mpr ⟨rfl, rfl, rfl⟩, tileId_of_ofTileId found⟩
  · next not_lt =>
    exact ofTileId_eq_error (zoomOf?_eq_none_iff.mpr (Nat.not_lt.mp not_lt))

/-- The sixteen tiles of zoom two have the numbers from five on, and the number after the last
zoom is refused. -/
theorem tileId_bijective_zoom_two :
    Set.BijOn (fun c : TileCoord => c.tileId.toNat) {c | ∃ x y, of? 2 x y = .ok c}
      {id | 5 ≤ id ∧ id < 21} ∧
    (∃ c, ofTileId 20 = .ok c ∧ of? c.z c.x c.y = .ok c ∧ c.tileId = 20) ∧
    ofTileId 6148914691236517205 = .error (.idOutOfRange 6148914691236517205) := by
  obtain ⟨bijective, -, found, -⟩ := tileId_bijective
  exact ⟨bijective 2 (by decide), found 20, found 6148914691236517205⟩

end TileArchive.TileCoord
