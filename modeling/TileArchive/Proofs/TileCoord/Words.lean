import TileArchive.Proofs.Checked
import TileArchive.Proofs.TileCoord

/-!
# `TileArchive.Proofs.TileCoord.Words`: tile numbers in machine words

`TileCoord.tileId` and `TileCoord.ofTileId` count in natural numbers. Here the two walks along
the curve are loops over 64-bit words, and every sum, difference and product in them is checked:
it has no result where it does not fit a word.

* `descend?_spec` and `ascend?_spec` say what one round of each loop does. The invariants
  `Descent.Reaches` and `Ascent.Reaches` relate its words to the curve.
* `checkedTileId_eq` and `checkedOfTileId_eq` say that the loops end without a failed check, and
  with the results that are computed in natural numbers.
-/

set_option autoImplicit false

namespace TileArchive

namespace TileCoord

/-- The column and the row of a pair of words. -/
def point (p : UInt64 × UInt64) : Nat × Nat := (p.1.toNat, p.2.toNat)

/-! ### Bounds -/

/-- The area of every zoom fits a word. -/
theorem gridArea_le_largest {k : Nat} (le : k ≤ maxZoom) : gridArea k ≤ Word.largest := by
  have base_le := zoomBase_mono le
  have last : gridArea maxZoom ≤ Word.largest := by decide
  rw [gridArea_eq] at last ⊢
  omega

/-- The columns and rows of every zoom fit half a word. -/
theorem gridSide_le_largest32 {k : Nat} (le : k ≤ maxZoom) : gridSide k ≤ Word.largest32 :=
  Nat.le_trans (Nat.pow_le_pow_right (by decide) le) (by decide)

/-- The side of a grid is a machine word, for every zoom there is. -/
theorem gridSide_le_largest {k : Nat} (le : k ≤ maxZoom) : gridSide k ≤ Word.largest :=
  Nat.le_trans (gridSide_le_largest32 le) (by decide)

/-- The side of a zoom is a shifted one. -/
theorem toNat_shift {z : Nat} (le : z ≤ maxZoom) :
    ((1 : UInt64) <<< UInt64.ofNat z).toNat = gridSide z := by
  have all : ∀ z < maxZoom + 1, ((1 : UInt64) <<< UInt64.ofNat z).toNat = gridSide z := by decide
  exact all z (Nat.lt_succ_of_le le)

/-- Half a side is the side one level below, so the walk from the top halves its way down. -/
theorem gridSide_succ_div (k : Nat) : gridSide (k + 1) / 2 = gridSide k := by
  rw [gridSide_succ]
  omega

/-! ### Turns -/

/-- `rotate` with checked differences. -/
def checkedRotate (n rx ry : UInt64) (p : UInt64 × UInt64) : Option (UInt64 × UInt64) :=
  if ry = 0 then
    if rx = 1 then do
      let x ← Word.sub? (← Word.sub? n 1) p.1
      let y ← Word.sub? (← Word.sub? n 1) p.2
      return (y, x)
    else some (p.2, p.1)
  else some p

/-- Inside of the square no difference of a turn is negative. The turned point is the one
that is computed without words. -/
theorem checkedRotate_spec {n : UInt64} (rx ry : UInt64) {p : UInt64 × UInt64}
    (inside : Inside n.toNat (point p)) :
    ∃ q, checkedRotate n rx ry p = some q ∧
      point q = rotate n.toNat rx.toNat ry.toNat (point p) := by
  obtain ⟨x_lt, y_lt⟩ := inside
  simp only [point] at x_lt y_lt
  have zero_iff : ry = 0 ↔ ry.toNat = 0 := by simp [← UInt64.toNat_inj]
  have one_iff : rx = 1 ↔ rx.toNat = 1 := by simp [← UInt64.toNat_inj]
  have one_eq : (1 : UInt64).toNat = 1 := rfl
  unfold checkedRotate rotate
  simp only [zero_iff, one_iff]
  split
  · split
    · -- Only the turn about the far corner subtracts, and both coordinates are at most
      -- the last one.
      obtain ⟨far, far_eq, far_val⟩ :=
        Word.exists_sub? (show (1 : UInt64).toNat ≤ n.toNat by omega)
      obtain ⟨x, x_eq, x_val⟩ := Word.exists_sub? (show p.1.toNat ≤ far.toNat by omega)
      obtain ⟨y, y_eq, y_val⟩ := Word.exists_sub? (show p.2.toNat ≤ far.toNat by omega)
      exact ⟨(y, x), by simp [far_eq, x_eq, y_eq], by simp [point, x_val, y_val, far_val]⟩
    · exact ⟨(p.2, p.1), rfl, rfl⟩
  · exact ⟨p, rfl, rfl⟩

/-! ### Bits and quadrants -/

/-- One if the bit of `side` is set in the word, and zero if not. -/
def bitAt (w side : UInt64) : UInt64 := if 0 < w &&& side then 1 else 0

/-- The number of tiles in the quadrants before the one with the given bits. -/
def checkedQuadrant (side rx ry : UInt64) : Option UInt64 := do
  let area ← Word.mul? side side
  Word.mul? area ((← Word.mul? 3 rx) ^^^ ry)

/-- A column or row moved into the quadrant with the given bit. -/
def checkedMove (side bit m : UInt64) : Option UInt64 := do
  Word.add? m (← Word.mul? side bit)

/-- The bit of a power of two is found by a bitwise and, or by a division. Words are tested
in the one way, and the curve is defined in the other. -/
theorem and_gridSide_pos_iff (m k : Nat) : 0 < m &&& gridSide k ↔ m / gridSide k % 2 = 1 := by
  show 0 < m &&& 2 ^ k ↔ m / 2 ^ k % 2 = 1
  have bit_eq : m.testBit k = true ↔ m / 2 ^ k % 2 = 1 := by
    rw [Nat.testBit_eq_decide_div_mod_eq, decide_eq_true_iff]
  have and_eq : m &&& 2 ^ k = if m.testBit k then 2 ^ k else 0 := by
    -- A power of two has one bit, so all other bits of the conjunction are clear.
    apply Nat.eq_of_testBit_eq
    intro i
    by_cases same : k = i
    · subst same
      cases set : m.testBit k <;> simp [set]
    · cases m.testBit k <;> simp [same]
  rw [← bit_eq, and_eq]
  cases m.testBit k with
  | false => simp
  | true => exact iff_of_true (Nat.two_pow_pos k) rfl

/-- The bit that is asked for with a mask is the one that the division finds. -/
theorem toNat_bitAt {w side : UInt64} {k : Nat} (side_eq : side.toNat = gridSide k) :
    (bitAt w side).toNat = w.toNat / gridSide k % 2 := by
  have set_iff : 0 < w &&& side ↔ w.toNat / gridSide k % 2 = 1 := by
    rw [UInt64.lt_iff_toNat_lt, UInt64.toNat_and, side_eq]
    exact and_gridSide_pos_iff w.toNat k
  unfold bitAt
  split
  · next set => exact (set_iff.mp set).symm
  · next clear =>
    rw [set_iff] at clear
    show 0 = w.toNat / gridSide k % 2
    omega

/-- What is added for a quadrant is computed without an overflow, where the place it belongs
to is a machine word. -/
theorem checkedQuadrant_spec {side rx ry : UInt64} {k : Nat} (side_eq : side.toNat = gridSide k)
    (le : k ≤ maxZoom) (rx_lt : rx.toNat < 2)
    (fits : gridSide k * gridSide k * quadrant rx.toNat ry.toNat ≤ Word.largest) :
    ∃ before, checkedQuadrant side rx ry = some before ∧
      before.toNat = gridSide k * gridSide k * quadrant rx.toNat ry.toNat := by
  have area_le : gridSide k * gridSide k ≤ Word.largest := by
    rw [gridSide_mul_self]
    exact gridArea_le_largest le
  -- Each product is checked on its own: the area of the square, three times the bit of the
  -- column, and the two together.
  have thrice_le : 3 * rx.toNat ≤ Word.largest :=
    Nat.le_trans (Nat.mul_le_mul_left 3 (Nat.le_of_lt rx_lt)) (by decide)
  rw [← side_eq] at fits area_le ⊢
  obtain ⟨area, area_eq, area_val⟩ := Word.exists_mul? area_le
  obtain ⟨thrice, thrice_eq, thrice_val⟩ := @Word.exists_mul? 3 rx thrice_le
  have digit_eq : (thrice ^^^ ry).toNat = quadrant rx.toNat ry.toNat := by
    rw [UInt64.toNat_xor, thrice_val]
    rfl
  rw [← area_val, ← digit_eq] at fits ⊢
  obtain ⟨before, before_eq, before_val⟩ := Word.exists_mul? fits
  exact ⟨before, by simp [checkedQuadrant, area_eq, thrice_eq, before_eq], before_val⟩

/-- A coordinate is moved into its quadrant without an overflow, where the moved one is a
machine word. -/
theorem checkedMove_spec {side bit m : UInt64}
    (fits : m.toNat + side.toNat * bit.toNat ≤ Word.largest) :
    ∃ moved, checkedMove side bit m = some moved ∧
      moved.toNat = m.toNat + side.toNat * bit.toNat := by
  obtain ⟨shift, shift_eq, shift_val⟩ :=
    Word.exists_mul? (show side.toNat * bit.toNat ≤ Word.largest by omega)
  rw [← shift_val] at fits ⊢
  obtain ⟨moved, moved_eq, moved_val⟩ := Word.exists_add? fits
  exact ⟨moved, by simp [checkedMove, shift_eq, moved_eq], moved_val⟩

/-! ### From a point to its place -/

/-- What the walk from the coarsest quadrant to the finest keeps: the side of the quadrant,
the point as seen from inside of it, and the sum of the quadrants before it. The point is
turned in each round and keeps its high bits, which later rounds do not look at. -/
structure Descent where
  side : UInt64
  point : UInt64 × UInt64
  sum : UInt64

/-- One round of the walk: adds the quadrants before the point, and turns the grid. -/
def descend? (n : UInt64) (s : Descent) : Option Descent := do
  let rx := bitAt s.point.1 s.side
  let ry := bitAt s.point.2 s.side
  let sum ← Word.add? s.sum (← checkedQuadrant s.side rx ry)
  let point ← checkedRotate n rx ry s.point
  return { side := s.side / 2, point, sum }

/-- The number of a tile, with checked arithmetic. A side has no more than 64 bits to shift out,
so that a loop that is not over by then would never end. -/
def checkedTileId (c : TileCoord) : Option UInt64 := do
  let n := (1 : UInt64) <<< UInt64.ofNat c.z
  let start : Descent := ⟨n / 2, (UInt64.ofNat c.x, UInt64.ofNat c.y), 0⟩
  let last ← Word.loop? (fun s => decide (0 < s.side)) (descend? n) 64 start
  Word.add? (UInt64.ofNat (zoomBase c.z)) last.sum

/-- With `left` levels still to look at, the walk is on its way to the place `place`: what
was summed up and what the levels that are left will add make up the place. -/
structure Descent.Reaches (n place left : Nat) (s : Descent) : Prop where
  side_eq : s.side.toNat = gridSide left / 2
  inside : Inside n (TileCoord.point s.point)
  sum_eq : s.sum.toNat + curveIndex n left (TileCoord.point s.point) = place
  left_le : left ≤ maxZoom

/-- One round of the walk. The quadrants that it adds are a part of the place, so they fit a word
if the place does. -/
theorem descend?_spec {n : UInt64} {place left : Nat} (fits : place ≤ Word.largest) {s : Descent}
    (reaches : s.Reaches n.toNat place (left + 1)) :
    ∃ s', descend? n s = some s' ∧ s'.Reaches n.toNat place left := by
  have ⟨side_eq, inside, sum_eq, left_le⟩ := reaches
  rw [gridSide_succ_div] at side_eq
  have rx_eq := toNat_bitAt (w := s.point.1) side_eq
  have ry_eq := toNat_bitAt (w := s.point.2) side_eq
  have rx_lt : (bitAt s.point.1 s.side).toNat < 2 := rx_eq ▸ Nat.mod_lt _ Nat.two_pos
  unfold descend?
  generalize bitAt s.point.1 s.side = rx at rx_eq rx_lt ⊢
  generalize bitAt s.point.2 s.side = ry at ry_eq ⊢
  obtain ⟨q, rotate_eq, point_eq⟩ := checkedRotate_spec rx ry inside
  -- The place of the point, one level unfolded.
  have unfolded : s.sum.toNat + (gridSide left * gridSide left * quadrant rx.toNat ry.toNat
      + curveIndex n.toNat left (TileCoord.point q)) = place := by
    rw [point_eq, rx_eq, ry_eq]
    exact sum_eq
  obtain ⟨before, before_eq, before_val⟩ :=
    @checkedQuadrant_spec s.side rx ry left side_eq (by omega) rx_lt (by omega)
  obtain ⟨sum, add_eq, sum_val⟩ :=
    Word.exists_add? (show s.sum.toNat + before.toNat ≤ Word.largest by omega)
  refine ⟨⟨s.side / 2, q, sum⟩, by simp [before_eq, add_eq, rotate_eq], ?_⟩
  exact
    { side_eq := by
        show (s.side / 2).toNat = gridSide left / 2
        rw [UInt64.toNat_div, side_eq]
        rfl
      inside := by
        show Inside n.toNat (TileCoord.point q)
        rw [point_eq]
        exact rotate_lt _ _ inside.1 inside.2
      sum_eq := by
        show sum.toNat + curveIndex n.toNat left (TileCoord.point q) = place
        omega
      left_le := by omega }

/-- The loop ends once every level has been looked at. It is allowed as many rounds as a
word has bits, and there are never more levels than half of these. -/
theorem descent_ends {n : UInt64} {place left : Nat} (fits : place ≤ Word.largest) {s : Descent}
    (reaches : s.Reaches n.toNat place left) :
    ∃ last, Word.loop? (fun s => decide (0 < s.side)) (descend? n) 64 s = some last ∧
      last.Reaches n.toNat place 0 := by
  have enough : left ≤ 64 := Nat.le_trans reaches.left_le (by decide)
  -- The invariant counts the levels that are left. The loop ends when the side is zero, which
  -- is after the last of them.
  apply Word.loop?_ends (fun left (s : Descent) => s.Reaches n.toNat place left) _ _ enough reaches
  · intro s ended
    have side_eq : s.side.toNat = 0 := ended.side_eq
    rw [decide_eq_false_iff_not, UInt64.lt_iff_toNat_lt]
    exact Nat.not_lt.mpr (Nat.le_of_eq side_eq)
  · intro left s reaches
    have side_pos : 0 < s.side := by
      rw [UInt64.lt_iff_toNat_lt, reaches.side_eq, gridSide_succ_div]
      exact gridSide_pos left
    exact ⟨decide_eq_true side_pos, descend?_spec fits reaches⟩

/-- Before the first round every level is still to look at. Nothing is summed up, and the
point is that of the tile. -/
theorem reaches_start (c : TileCoord) {n : UInt64} (side_eq : n.toNat = gridSide c.z) :
    Descent.Reaches n.toNat (squareIndex c.z (c.x, c.y)) c.z
      ⟨n / 2, (UInt64.ofNat c.x, UInt64.ofNat c.y), 0⟩ := by
  have side_le := gridSide_le_largest c.z_le
  have x_eq : (UInt64.ofNat c.x).toNat = c.x :=
    Word.toNat_ofNat (Nat.le_trans (Nat.le_of_lt c.x_lt) side_le)
  have y_eq : (UInt64.ofNat c.y).toNat = c.y :=
    Word.toNat_ofNat (Nat.le_trans (Nat.le_of_lt c.y_lt) side_le)
  -- The coordinates of a tile are less than the side, so no word is cut.
  have point_eq : TileCoord.point (UInt64.ofNat c.x, UInt64.ofNat c.y) = (c.x, c.y) :=
    Prod.ext x_eq y_eq
  exact
    { side_eq := by
        show (n / 2).toNat = gridSide c.z / 2
        rw [UInt64.toNat_div, side_eq]
        rfl
      inside := by
        rw [point_eq, side_eq]
        exact ⟨c.x_lt, c.y_lt⟩
      sum_eq := by
        rw [point_eq, side_eq]
        exact Nat.zero_add _
      left_le := c.z_le }

/-- The number of a tile is computed without a failed check. -/
theorem checkedTileId_eq (c : TileCoord) : checkedTileId c = some c.tileId := by
  obtain ⟨id_eq, -⟩ := c.toNat_tileId
  -- That the number of every tile is a word bounds all sums on the way to it.
  have id_le := Word.toNat_le_largest c.tileId
  have base_eq : (UInt64.ofNat (zoomBase c.z)).toNat = zoomBase c.z :=
    Word.toNat_ofNat (zoomBase_le_largest (Nat.le_succ_of_le c.z_le))
  obtain ⟨last, loop_eq, ended⟩ :=
    descent_ends (by omega) (reaches_start c (toNat_shift c.z_le))
  have sum_eq : last.sum.toNat = squareIndex c.z (c.x, c.y) := ended.sum_eq
  obtain ⟨id, add_eq, id_val⟩ := Word.exists_add?
    (show (UInt64.ofNat (zoomBase c.z)).toNat + last.sum.toNat ≤ Word.largest by omega)
  have same : id = c.tileId := UInt64.toNat_inj.mp (by omega)
  simp [checkedTileId, loop_eq, add_eq, same]

/-! ### From a place to its point -/

/-- What the walk from the finest quadrant to the coarsest keeps: the side of the square
found so far, the digits of the place that are left, and the point in the square. Two bits
of the place are used up in each round. -/
structure Ascent where
  side : UInt64
  digits : UInt64
  point : UInt64 × UInt64

/-- One round of the walk: turns the square into place, and moves it into its quadrant. -/
def ascend? (s : Ascent) : Option Ascent := do
  let rx := 1 &&& (s.digits / 2)
  let ry := 1 &&& (s.digits ^^^ rx)
  let p ← checkedRotate s.side rx ry s.point
  let x ← checkedMove s.side rx p.1
  let y ← checkedMove s.side ry p.2
  let side ← Word.mul? s.side 2
  return { side, digits := s.digits / 4, point := (x, y) }

/-- Zoom, column and row of a tile number, with checked arithmetic. Columns and rows are cut to
32 bits. -/
def checkedOfTileId (id : UInt64) : Option (Except TileIdError (Nat × Nat × Nat)) :=
  match zoomOf? id.toNat with
  | none => some (.error (.idOutOfRange id))
  | some z => do
    let n := (1 : UInt64) <<< UInt64.ofNat z
    let place ← Word.sub? id (UInt64.ofNat (zoomBase z))
    let last ← Word.loop? (fun s => decide (s.side < n)) ascend? 64 ⟨1, place, (0, 0)⟩
    return .ok (z, last.point.1.toUInt32.toNat, last.point.2.toUInt32.toNat)

/-- After `k` levels the walk has found the point of the low digits of the place, in a
square whose side fits `k` bits. -/
structure Ascent.Reaches (place k : Nat) (s : Ascent) : Prop where
  side_eq : s.side.toNat = gridSide k
  digits_eq : s.digits.toNat = place / gridArea k
  point_eq : TileCoord.point s.point = curvePoint k place

/-- One round of the walk. The moved point lies in the square of the next level, whose side fits a
word. -/
theorem ascend?_spec {place k : Nat} (k_lt : k < maxZoom) {s : Ascent}
    (reaches : s.Reaches place k) : ∃ s', ascend? s = some s' ∧ s'.Reaches place (k + 1) := by
  have ⟨side_eq, digits_eq, point_eq⟩ := reaches
  have side_le := gridSide_le_largest (Nat.succ_le_of_lt k_lt)
  have rx_eq : (1 &&& (s.digits / 2)).toNat = columnBit (place / gridArea k) := by
    rw [UInt64.toNat_and, UInt64.toNat_div, digits_eq]
    exact Nat.one_and_eq_mod_two _
  have ry_eq : (1 &&& (s.digits ^^^ (1 &&& (s.digits / 2)))).toNat
      = rowBit (place / gridArea k) := by
    rw [UInt64.toNat_and, UInt64.toNat_xor, rx_eq, digits_eq]
    exact Nat.one_and_eq_mod_two _
  have inside : Inside s.side.toNat (TileCoord.point s.point) := by
    rw [side_eq, point_eq]
    exact curvePoint_lt k place
  simp only [ascend?]
  -- From here on only what the two bits are worth matters, not how they are taken out.
  generalize 1 &&& (s.digits / 2) = rx at rx_eq ry_eq ⊢
  generalize 1 &&& (s.digits ^^^ rx) = ry at ry_eq ⊢
  obtain ⟨q, rotate_eq, q_eq⟩ := checkedRotate_spec rx ry inside
  -- Turning and then moving is what the curve does from one level to the next.
  have moved_eq : curvePoint (k + 1) place
      = (q.1.toNat + s.side.toNat * rx.toNat, q.2.toNat + s.side.toNat * ry.toNat) := by
    show _ = quadrantPoint s.side.toNat rx.toNat ry.toNat (TileCoord.point q)
    rw [curvePoint_succ, q_eq, side_eq, rx_eq, ry_eq, point_eq]
  obtain ⟨x_lt, y_lt⟩ := curvePoint_lt (k + 1) place
  rw [moved_eq] at x_lt y_lt
  obtain ⟨x, x_eq, x_val⟩ := checkedMove_spec (Nat.le_of_lt (Nat.lt_of_lt_of_le x_lt side_le))
  obtain ⟨y, y_eq, y_val⟩ := checkedMove_spec (Nat.le_of_lt (Nat.lt_of_lt_of_le y_lt side_le))
  have double : s.side.toNat * (2 : UInt64).toNat = gridSide (k + 1) := by
    rw [side_eq, gridSide_succ]
    exact Nat.mul_two _
  obtain ⟨side, mul_eq, side_val⟩ := Word.exists_mul? (double ▸ side_le)
  refine ⟨⟨side, s.digits / 4, (x, y)⟩, by simp [rotate_eq, x_eq, y_eq, mul_eq], ?_⟩
  exact
    { side_eq := side_val.trans double
      digits_eq := by
        show (s.digits / 4).toNat = place / gridArea (k + 1)
        rw [UInt64.toNat_div, digits_eq, gridArea_succ, Nat.mul_comm, ← Nat.div_div_eq_div_mul]
        rfl
      point_eq := by
        rw [moved_eq]
        exact Prod.ext x_val y_val }

/-- The loop ends with the square of the zoom. It starts with a single tile, and the side
doubles in each round. -/
theorem ascent_ends {n : UInt64} {z place : Nat} (z_le : z ≤ maxZoom)
    (side_eq : n.toNat = gridSide z) {s : Ascent} (reaches : s.Reaches place 0) :
    ∃ last, Word.loop? (fun s => decide (s.side < n)) ascend? 64 s = some last ∧
      last.Reaches place z := by
  have enough : z ≤ 64 := Nat.le_trans z_le (by decide)
  -- The rounds are counted down by the loop and up by the walk.
  let inv (left : Nat) (s : Ascent) : Prop := ∃ k, k + left = z ∧ s.Reaches place k
  have done : ∀ s, inv 0 s → decide (s.side < n) = false := by
    intro s ⟨k, k_eq, reaches⟩
    rw [decide_eq_false_iff_not, UInt64.lt_iff_toNat_lt, reaches.side_eq, side_eq, ← k_eq]
    exact Nat.lt_irrefl _
  have next : ∀ left s, inv (left + 1) s →
      decide (s.side < n) = true ∧ ∃ s', ascend? s = some s' ∧ inv left s' := by
    intro left s ⟨k, k_eq, reaches⟩
    obtain ⟨s', ascend_eq, reaches'⟩ := ascend?_spec (show k < maxZoom by omega) reaches
    have side_lt : gridSide k < gridSide z := Nat.pow_lt_pow_right (by decide) (by omega)
    rw [decide_eq_true_iff, UInt64.lt_iff_toNat_lt, reaches.side_eq, side_eq]
    exact ⟨side_lt, s', ascend_eq, k + 1, by omega, reaches'⟩
  obtain ⟨last, loop_eq, k, rfl, reaches'⟩ :=
    Word.loop?_ends inv done next enough ⟨0, Nat.zero_add z, reaches⟩
  exact ⟨last, loop_eq, reaches'⟩

/-- Zoom, column and row of a tile number are found without a failed check, and no column or row
is cut. -/
theorem checkedOfTileId_eq (id : UInt64) :
    checkedOfTileId id = some ((ofTileId id).map fun c => (c.z, c.x, c.y)) := by
  unfold checkedOfTileId
  cases zoom_eq : zoomOf? id.toNat with
  | none =>
      rw [ofTileId_eq_error zoom_eq]
      rfl
  | some z =>
      obtain ⟨z_le, base_le, -⟩ := zoomOf?_eq_some_iff.mp zoom_eq
      obtain ⟨c, found, rfl, c_eq⟩ := exists_ofTileId zoom_eq
      have base_eq : (UInt64.ofNat (zoomBase c.z)).toNat = zoomBase c.z :=
        Word.toNat_ofNat (zoomBase_le_largest (Nat.le_succ_of_le z_le))
      obtain ⟨place, place_eq, place_val⟩ :=
        Word.exists_sub? (show (UInt64.ofNat (zoomBase c.z)).toNat ≤ id.toNat by omega)
      have start : Ascent.Reaches place.toNat 0 ⟨1, place, (0, 0)⟩ :=
        { side_eq := rfl, digits_eq := (Nat.div_one _).symm, point_eq := rfl }
      obtain ⟨last, loop_eq, reaches⟩ := ascent_ends z_le (toNat_shift z_le) start
      have point_eq : point last.point = (c.x, c.y) := by
        rw [reaches.point_eq, place_val, base_eq, c_eq]
      have x_eq : last.point.1.toNat = c.x := congrArg Prod.fst point_eq
      have y_eq : last.point.2.toNat = c.y := congrArg Prod.snd point_eq
      have side_le := gridSide_le_largest32 z_le
      -- The loop works on 64-bit words, and what it ends with is cut to 32 bits. No bit is
      -- lost, since the side of every zoom fits 32 bits.
      have x_uncut : last.point.1.toUInt32.toNat = c.x :=
        x_eq ▸ Word.toNat_toUInt32 (x_eq ▸ Nat.le_trans (Nat.le_of_lt c.x_lt) side_le)
      have y_uncut : last.point.2.toUInt32.toNat = c.y :=
        y_eq ▸ Word.toNat_toUInt32 (y_eq ▸ Nat.le_trans (Nat.le_of_lt c.y_lt) side_le)
      rw [found]
      simp only [place_eq, loop_eq, x_uncut, y_uncut, Option.bind_eq_bind, Option.bind_some,
        Option.pure_def]
      rfl

end TileCoord

end TileArchive
