import TileArchive.Proofs.Bytes
import TileArchive.Proofs.TileCoord

/-!
# `TileArchive.Proofs.TileCoord.Adjacent`: the curve has no jumps

The curve through a square starts in the corner `(0, 0)` and ends in the corner
`(gridSide k - 1, 0)` (`curvePoint_first`, `curvePoint_last`). The turns of the four quadrants
put the end of each next to the start of the one after it (`adjacent_quadrants`), and inside of a
quadrant the curve is a turned curve of one level less. So by induction on the levels the curve
goes on to a neighbour at every step (`adjacent_curvePoint`), and tiles with consecutive numbers
of one zoom are neighbours on the map (`adjacent_of_consecutive`).

The induction splits on whether two consecutive places lie in one quadrant. If so the hypothesis
applies, because turns and shifts keep neighbours neighbours (`Adjacent.rotate`,
`Adjacent.quadrantPoint`). If not, the first is the end of one quadrant and the second the start
of the next, and there are three such pairs.

Between two zooms the curve does jump: the last tile of a zoom and the first of the next are not
even on the same grid, which is why both numbers have to lie between the bases of one zoom.
-/

set_option autoImplicit false

namespace TileArchive.TileCoord

/-- Two points differ by one in one coordinate, and not in the other. The squares that they
stand for have a side in common then. -/
def Adjacent (p q : Nat × Nat) : Prop :=
  (p.1 = q.1 ∧ (p.2 + 1 = q.2 ∨ q.2 + 1 = p.2)) ∨ (p.2 = q.2 ∧ (p.1 + 1 = q.1 ∨ q.1 + 1 = p.1))

/-! ### Neighbours stay neighbours -/

/-- A turn keeps neighbours neighbours: it mirrors the square or exchanges columns and rows. -/
theorem Adjacent.rotate {side : Nat} (rx ry : Nat) {p q : Nat × Nat} (adjacent : Adjacent p q)
    (inside : Inside side p) (inside' : Inside side q) :
    Adjacent (rotate side rx ry p) (rotate side rx ry q) := by
  unfold Adjacent Inside at *
  unfold TileCoord.rotate
  split
  · split
    · simp only
      omega
    · simp only
      omega
  · exact adjacent

/-- Neighbours in a square stay neighbours when the square becomes a quadrant of a larger
one. -/
theorem Adjacent.quadrantPoint (side rx ry : Nat) {p q : Nat × Nat} (adjacent : Adjacent p q) :
    Adjacent (quadrantPoint side rx ry p) (quadrantPoint side rx ry q) := by
  unfold Adjacent TileCoord.quadrantPoint at *
  simp only
  omega

/-! ### The ends of the curve -/

/-- The curve starts in the upper left corner, whatever the level. -/
theorem curvePoint_first (k : Nat) : curvePoint k 0 = (0, 0) := by
  induction k with
  | zero => rfl
  | succ k ih =>
      rw [curvePoint_succ, Nat.zero_div, ih]
      simp [columnBit, rowBit, rotate, quadrantPoint]

/-- The curve ends in the upper right corner, whatever the level. -/
theorem curvePoint_last (k : Nat) : curvePoint k (gridArea k - 1) = (gridSide k - 1, 0) := by
  induction k with
  | zero => rfl
  | succ k ih =>
      have area_pos := gridArea_pos k
      have side_pos := gridSide_pos k
      have split : gridArea (k + 1) - 1 = gridArea k * 3 + (gridArea k - 1) := by
        rw [gridArea_succ]
        omega
      -- The last quadrant is the upper right one, and its turn keeps the end of the curve.
      rw [split, curvePoint_quadrant (by omega), ih, gridSide_succ]
      simp [columnBit, rowBit, rotate, quadrantPoint]
      omega

/-! ### From quadrant to quadrant -/

/-- The curve through a quadrant ends next to the start of the curve through the next one.
There are three such steps, and the turns of the quadrants are what makes their ends meet. -/
theorem adjacent_quadrants {side digit : Nat} (side_pos : 0 < side) (digit_lt : digit < 3) :
    Adjacent
      (quadrantPoint side (columnBit digit) (rowBit digit)
        (rotate side (columnBit digit) (rowBit digit) (side - 1, 0)))
      (quadrantPoint side (columnBit (digit + 1)) (rowBit (digit + 1))
        (rotate side (columnBit (digit + 1)) (rowBit (digit + 1)) (0, 0))) := by
  match digit with
  | 0 =>
      -- Down, from the upper left quadrant to the lower left one.
      simp [Adjacent, columnBit, rowBit, rotate, quadrantPoint]
      omega
  | 1 =>
      -- To the right, between the lower quadrants, neither of which is turned.
      simp [Adjacent, columnBit, rowBit, rotate, quadrantPoint]
      omega
  | 2 =>
      -- Up, from the lower right quadrant to the upper right one.
      simp [Adjacent, columnBit, rowBit, rotate, quadrantPoint]
      omega

/-- Every step of the curve goes to a neighbour. The step stays in a quadrant, where it is
one of a smaller curve that was turned, or it leads from one quadrant into the next. -/
theorem adjacent_curvePoint {k t : Nat} (next_lt : t + 1 < gridArea k) :
    Adjacent (curvePoint k t) (curvePoint k (t + 1)) := by
  induction k generalizing t with
  | zero => exact absurd next_lt (by simp [gridArea])
  | succ k ih =>
      have split : gridArea k * (t / gridArea k) + t % gridArea k = t := Nat.div_add_mod _ _
      have rest_lt : t % gridArea k < gridArea k := Nat.mod_lt _ (gridArea_pos k)
      rw [← split]
      generalize t / gridArea k = digit at split ⊢
      generalize t % gridArea k = rest at split rest_lt ⊢
      by_cases more : rest + 1 < gridArea k
      · -- Both places lie in one quadrant.
        rw [Nat.add_assoc, curvePoint_quadrant rest_lt, curvePoint_quadrant more]
        exact ((ih more).rotate _ _ (curvePoint_lt k _) (curvePoint_lt k _)).quadrantPoint _ _ _
      · have last : rest = gridArea k - 1 := by omega
        have next : gridArea k * digit + rest + 1 = gridArea k * (digit + 1) + 0 := by
          rw [Nat.mul_succ]
          omega
        have digit_lt : digit + 1 < 4 := by
          rw [gridArea_succ, Nat.mul_comm] at next_lt
          exact Nat.lt_of_mul_lt_mul_left (Nat.lt_of_le_of_lt (by omega) next_lt)
        rw [next, curvePoint_quadrant rest_lt, curvePoint_quadrant (gridArea_pos k), last,
          curvePoint_last, curvePoint_first]
        exact adjacent_quadrants (gridSide_pos k) (Nat.lt_of_succ_lt_succ digit_lt)

/-! ### Consecutive tile numbers -/

/-- Tiles with consecutive numbers of a zoom are neighbours on the map. From the last number
of a zoom to the first of the next nothing is claimed. -/
theorem adjacent_of_consecutive {z : Nat} (z_le : z ≤ maxZoom) {id : UInt64}
    (base_le : zoomBase z ≤ id.toNat) (next_lt : id.toNat + 1 < zoomBase (z + 1)) :
    ∃ c c', ofTileId id = .ok c ∧ ofTileId (id + 1) = .ok c' ∧ c.z = z ∧ c'.z = z ∧
      Adjacent (c.x, c.y) (c'.x, c'.y) := by
  have end_le := zoomBase_le_largest (Nat.succ_le_succ z_le)
  have next_eq : (id + 1).toNat = id.toNat + 1 :=
    Word.toNat_add (Nat.le_of_lt (Nat.lt_of_lt_of_le next_lt end_le))
  obtain ⟨c, found, zoom_eq, point_eq⟩ :=
    exists_ofTileId (zoomOf?_eq_some_iff.mpr ⟨z_le, base_le, by omega⟩)
  obtain ⟨c', found', zoom_eq', point_eq'⟩ := @exists_ofTileId (id + 1) z
    (zoomOf?_eq_some_iff.mpr ⟨z_le, by omega, by omega⟩)
  refine ⟨c, c', found, found', zoom_eq, zoom_eq', ?_⟩
  have next_place : id.toNat + 1 - zoomBase z = id.toNat - zoomBase z + 1 := by omega
  rw [point_eq, point_eq', next_eq, next_place]
  apply adjacent_curvePoint
  rw [zoomBase_succ] at next_lt
  omega

/-- The last tile of the first quadrant at zoom two, and the tile after it. -/
theorem adjacent_of_consecutive_quadrants :
    ∃ c c', ofTileId 8 = .ok c ∧ ofTileId 9 = .ok c' ∧ c.z = 2 ∧ c'.z = 2 ∧
      Adjacent (c.x, c.y) (c'.x, c'.y) :=
  @adjacent_of_consecutive 2 (by decide) 8 (by decide) (by decide)

end TileArchive.TileCoord
