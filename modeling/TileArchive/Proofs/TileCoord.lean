import TileArchive.Bytes
import TileArchive.TileCoord

/-!
# `TileArchive.Proofs.TileCoord`: tile numbers and coordinates are the same thing

The Hilbert curve through a square of side `gridSide k` visits every point once.

* `squareIndex` is the place of a point on the curve. One level of the curve is a quadrant and
  the turned curve inside of it: `squareIndex_quadrant` and `curvePoint_quadrant` say so for the
  two directions, and the round trips `curvePoint_squareIndex` and `squareIndex_curvePoint`
  follow by induction on the levels.
* `TileCoord.ofTileId_tileId` and `TileCoord.tileId_of_ofTileId` are the round trips between
  coordinates and tile numbers.

## The two directions take the levels in different orders

The way from a point to its place starts with the widest square and looks at the highest bits of
column and row first. It keeps the side of the whole grid for all its turns, so that the bits
above those it has looked at are turned as well; `curveIndex_eq` says that they do not matter. The
way back starts with a single point and the lowest digit of the place, and puts quadrants together
to ever wider squares; `curvePoint_add` says that the digits above those it has used do not
matter. With both facts the two directions meet at every level.

A turn is its own inverse (`rotate_rotate`) and keeps points inside of the square, and this is all
that the round trips need to know of it.

## Zooms

Tile numbers of all zooms stand in one row, zoom by zoom. `zoomBase` is the number of the first
tile of a zoom, and `zoomOf?_eq_some_iff` is what is known of the zoom found for a number: it lies
between the base of this zoom and the base of the next.
-/

set_option autoImplicit false

namespace TileArchive

/-! ### Sides and areas -/

/-- A square has at least one column and one row, also on level zero. -/
theorem gridSide_pos (k : Nat) : 0 < gridSide k := Nat.pow_pos (by decide)

/-- A square has at least one point. -/
theorem gridArea_pos (k : Nat) : 0 < gridArea k := Nat.pow_pos (by decide)

/-- A square is four quadrants, each with the area of the square one level below. -/
theorem gridArea_succ (k : Nat) : gridArea (k + 1) = 4 * gridArea k := Nat.mul_comm _ _

/-- The area of a square is its side times its side: the curve counts with the former, the
walk from the top multiplies sides. -/
theorem gridSide_mul_self (k : Nat) : gridSide k * gridSide k = gridArea k := by
  show 2 ^ k * 2 ^ k = 4 ^ k
  rw [← Nat.mul_pow]

/-- The side of a square divides the side of every larger one, both being powers of two. -/
theorem gridSide_dvd {j k : Nat} (le : j ≤ k) : gridSide j ∣ gridSide k :=
  Nat.pow_dvd_pow 2 le

namespace TileCoord

/-! ### Turns -/

/-- A point lies in the square of the given side. -/
def Inside (side : Nat) (p : Nat × Nat) : Prop := p.1 < side ∧ p.2 < side

/-- Turning twice changes nothing. -/
theorem rotate_rotate {side : Nat} (rx ry : Nat) {p : Nat × Nat} (inside : Inside side p) :
    rotate side rx ry (rotate side rx ry p) = p := by
  obtain ⟨x_lt, y_lt⟩ := inside
  unfold rotate
  split
  · split
    · exact Prod.ext (by simp only; omega) (by simp only; omega)
    · rfl
  · rfl

/-- Counted from the far end of a wider square, a place is counted from the far end of its own
square. -/
theorem reflect_mod {side n y : Nat} (divides : side ∣ n) (y_lt : y < n) :
    (n - 1 - y) % side = side - 1 - y % side := by
  obtain ⟨m, rfl⟩ := divides
  have side_pos : 0 < side := Nat.pos_of_mul_pos_right (Nat.zero_lt_of_lt y_lt)
  have rest_lt : y % side < side := Nat.mod_lt y side_pos
  have y_eq : side * (y / side) + y % side = y := Nat.div_add_mod y side
  have quotient_lt : y / side < m := Nat.div_lt_of_lt_mul y_lt
  -- The wider square is so many narrower ones before the place, its own, and `d` behind it.
  obtain ⟨d, rfl⟩ : ∃ d, m = y / side + 1 + d := ⟨m - (y / side + 1), by omega⟩
  have split : side * (y / side + 1 + d) = side * (y / side) + side + side * d := by
    rw [Nat.mul_add, Nat.mul_add, Nat.mul_one]
  have far : side * (y / side + 1 + d) - 1 - y = side * d + (side - 1 - y % side) := by omega
  rw [far, Nat.mul_add_mod, Nat.mod_eq_of_lt (by omega)]

/-- A turn of a wider square turns the square of the low bits. -/
theorem rotate_mod {side n : Nat} (divides : side ∣ n) (rx ry : Nat) {p : Nat × Nat}
    (inside : Inside n p) :
    ((rotate n rx ry p).1 % side, (rotate n rx ry p).2 % side)
      = rotate side rx ry (p.1 % side, p.2 % side) := by
  unfold rotate
  split
  · split
    · exact Prod.ext (reflect_mod divides inside.2) (reflect_mod divides inside.1)
    · rfl
  · rfl

/-! ### Quadrants -/

/-- The column bit of a quadrant along the curve. -/
def columnBit (digit : Nat) : Nat := digit / 2 % 2

/-- The row bit of a quadrant along the curve. -/
def rowBit (digit : Nat) : Nat := (digit ^^^ columnBit digit) % 2

/-- The number along the curve of the quadrant with the given bits. -/
def quadrant (rx ry : Nat) : Nat := (3 * rx) ^^^ ry

/-- The number of a quadrant on the curve is found again from its column and its row: the
four quadrants are told apart by these two bits. -/
theorem quadrant_bits {digit : Nat} (small : digit < 4) :
    quadrant (columnBit digit) (rowBit digit) = digit := by
  have all : ∀ d < 4, quadrant (columnBit d) (rowBit d) = d := by decide
  exact all digit small

/-- The column and the row of a quadrant are found again from its number on the curve. -/
theorem bits_quadrant {rx ry : Nat} (rx_lt : rx < 2) (ry_lt : ry < 2) :
    quadrant rx ry < 4 ∧ columnBit (quadrant rx ry) = rx ∧ rowBit (quadrant rx ry) = ry := by
  have all : ∀ a < 2, ∀ b < 2,
      quadrant a b < 4 ∧ columnBit (quadrant a b) = a ∧ rowBit (quadrant a b) = b := by decide
  exact all rx rx_lt ry ry_lt

/-- The column of a quadrant is left or right. -/
theorem columnBit_lt (digit : Nat) : columnBit digit < 2 := Nat.mod_lt _ (by decide)

/-- The row of a quadrant is upper or lower. -/
theorem rowBit_lt (digit : Nat) : rowBit digit < 2 := Nat.mod_lt _ (by decide)

/-- Only the low two bits of a digit count. -/
theorem columnBit_add (a digit : Nat) : columnBit (4 * a + digit) = columnBit digit := by
  unfold columnBit
  omega

/-- Whole levels above do not change the row of a quadrant, as for the column. -/
theorem rowBit_add (a digit : Nat) : rowBit (4 * a + digit) = rowBit digit := by
  have xor_mod (m n : Nat) : (m ^^^ n) % 2 = m % 2 ^^^ n % 2 := Nat.xor_mod_two_pow (n := 1)
  unfold rowBit
  rw [columnBit_add, xor_mod, xor_mod digit]
  congr 1
  omega

/-- The point of a square with twice the side that lies in the given quadrant. The point
itself is counted from the corner of the quadrant. -/
def quadrantPoint (side rx ry : Nat) (p : Nat × Nat) : Nat × Nat :=
  (p.1 + side * rx, p.2 + side * ry)

/-- A point of a quadrant is a point of the square that the quadrant is one fourth of. -/
theorem inside_quadrantPoint {k rx ry : Nat} (rx_lt : rx < 2) (ry_lt : ry < 2) {p : Nat × Nat}
    (inside : Inside (gridSide k) p) :
    Inside (gridSide (k + 1)) (quadrantPoint (gridSide k) rx ry p) := by
  have bit_le {b : Nat} (b_lt : b < 2) : gridSide k * b ≤ gridSide k := by
    simpa using Nat.mul_le_mul_left (gridSide k) (show b ≤ 1 by omega)
  have x_le := bit_le rx_lt
  have y_le := bit_le ry_lt
  obtain ⟨x_lt, y_lt⟩ := inside
  rw [gridSide_succ]
  exact ⟨show p.1 + gridSide k * rx < _ by omega, show p.2 + gridSide k * ry < _ by omega⟩

/-- Every point of a square lies in a quadrant. -/
theorem eq_quadrantPoint {k : Nat} {p : Nat × Nat} (inside : Inside (gridSide (k + 1)) p) :
    ∃ rx ry q, rx < 2 ∧ ry < 2 ∧ Inside (gridSide k) q ∧
      p = quadrantPoint (gridSide k) rx ry q := by
  obtain ⟨x_lt, y_lt⟩ := inside
  rw [gridSide_succ, ← Nat.mul_two] at x_lt y_lt
  have split (n : Nat) : n = n % gridSide k + gridSide k * (n / gridSide k) :=
    (Nat.mod_add_div n (gridSide k)).symm
  exact ⟨p.1 / gridSide k, p.2 / gridSide k, (p.1 % gridSide k, p.2 % gridSide k),
    Nat.div_lt_of_lt_mul x_lt, Nat.div_lt_of_lt_mul y_lt,
    ⟨Nat.mod_lt _ (gridSide_pos k), Nat.mod_lt _ (gridSide_pos k)⟩,
    Prod.ext (split p.1) (split p.2)⟩

/-! ### The curve through a square -/

/-- The place of a point on the curve through a square of side `gridSide k`. The turns of
the walk are taken at this side, whatever square this one is part of. -/
def squareIndex (k : Nat) (p : Nat × Nat) : Nat := curveIndex (gridSide k) k p

/-- In a wider grid only the low bits of column and row count. Turning in the wider grid
does to the low bits what turning in the own one does. -/
theorem curveIndex_eq {n k : Nat} (divides : gridSide k ∣ n) {p : Nat × Nat} (inside : Inside n p) :
    curveIndex n k p = squareIndex k (p.1 % gridSide k, p.2 % gridSide k) := by
  induction k generalizing n p with
  | zero => rfl
  | succ k ih =>
      have divides' : gridSide k ∣ n := Nat.dvd_trans (gridSide_dvd (Nat.le_succ k)) divides
      -- Both sides look at the same bit, and what is left below it is the same for both.
      have low (m : Nat) : m % gridSide (k + 1) / gridSide k % 2 = m / gridSide k % 2 := by
        rw [gridSide_succ, ← Nat.mul_two, Nat.mod_mul_right_div_self, Nat.mod_mod]
      have low' (m : Nat) : m % gridSide (k + 1) % gridSide k = m % gridSide k :=
        Nat.mod_mod_of_dvd m (gridSide_dvd (Nat.le_succ k))
      have inside' : Inside (gridSide (k + 1)) (p.1 % gridSide (k + 1), p.2 % gridSide (k + 1)) :=
        ⟨Nat.mod_lt _ (gridSide_pos _), Nat.mod_lt _ (gridSide_pos _)⟩
      rw [squareIndex, curveIndex, curveIndex]
      simp only [low]
      rw [ih divides' (rotate_lt _ _ inside.1 inside.2), rotate_mod divides' _ _ inside,
        ih (gridSide_dvd (Nat.le_succ k)) (rotate_lt _ _ inside'.1 inside'.2),
        rotate_mod (gridSide_dvd (Nat.le_succ k)) _ _ inside', low', low']

/-- One level of the curve: the quadrant counts a quarter of the area, and in it the place on
the turned curve is added. -/
theorem squareIndex_quadrant {k rx ry : Nat} (rx_lt : rx < 2) (ry_lt : ry < 2) {p : Nat × Nat}
    (inside : Inside (gridSide k) p) :
    squareIndex (k + 1) (quadrantPoint (gridSide k) rx ry p)
      = gridArea k * quadrant rx ry + squareIndex k (rotate (gridSide k) rx ry p) := by
  have bit_eq {m b : Nat} (m_lt : m < gridSide k) (b_lt : b < 2) :
      (m + gridSide k * b) / gridSide k % 2 = b := by
    rw [Nat.add_mul_div_left _ _ (gridSide_pos k), Nat.div_eq_of_lt m_lt, Nat.zero_add,
      Nat.mod_eq_of_lt b_lt]
  have rest_eq {m b : Nat} (m_lt : m < gridSide k) : (m + gridSide k * b) % gridSide k = m := by
    rw [Nat.add_mul_mod_self_left, Nat.mod_eq_of_lt m_lt]
  -- The point in the wider square. Its bits at this level are those of the quadrant, and what
  -- is left below them is the point in the quadrant.
  let q := quadrantPoint (gridSide k) rx ry p
  have inside' : Inside (gridSide (k + 1)) q := inside_quadrantPoint rx_lt ry_lt inside
  have divides : gridSide k ∣ gridSide (k + 1) := gridSide_dvd (Nat.le_succ k)
  have column_eq : q.1 / gridSide k % 2 = rx := bit_eq inside.1 rx_lt
  have row_eq : q.2 / gridSide k % 2 = ry := bit_eq inside.2 ry_lt
  have low_eq : (q.1 % gridSide k, q.2 % gridSide k) = p :=
    Prod.ext (rest_eq inside.1) (rest_eq inside.2)
  show squareIndex (k + 1) q = _
  rw [squareIndex, curveIndex]
  simp only [column_eq, row_eq]
  rw [gridSide_mul_self, curveIndex_eq divides (rotate_lt _ _ inside'.1 inside'.2),
    rotate_mod divides rx ry inside', low_eq]
  rfl

/-- One level of the curve, from a place to its point. -/
theorem curvePoint_succ (k t : Nat) :
    curvePoint (k + 1) t
      = quadrantPoint (gridSide k) (columnBit (t / gridArea k)) (rowBit (t / gridArea k))
          (rotate (gridSide k) (columnBit (t / gridArea k)) (rowBit (t / gridArea k))
            (curvePoint k t)) := rfl

/-- Only the low digits of a place count. -/
theorem curvePoint_add (k a t : Nat) : curvePoint k (gridArea k * a + t) = curvePoint k t := by
  induction k generalizing a t with
  | zero => rfl
  | succ k ih =>
      have split : gridArea (k + 1) * a + t = gridArea k * (4 * a) + t := by
        rw [gridArea_succ, Nat.mul_comm 4, Nat.mul_assoc]
      -- Whole areas of the wider square are multiples of four areas of its quadrants.
      rw [split, curvePoint_succ, curvePoint_succ, ih, Nat.mul_add_div (gridArea_pos k),
        columnBit_add, rowBit_add]

/-- From a place to its point, one level: the first digit gives the quadrant, and the rest
of the place gives a point on the curve one level below, turned as this quadrant demands. -/
theorem curvePoint_quadrant {k digit t : Nat} (t_lt : t < gridArea k) :
    curvePoint (k + 1) (gridArea k * digit + t)
      = quadrantPoint (gridSide k) (columnBit digit) (rowBit digit)
          (rotate (gridSide k) (columnBit digit) (rowBit digit) (curvePoint k t)) := by
  rw [curvePoint_succ, curvePoint_add, Nat.mul_add_div (gridArea_pos k), Nat.div_eq_of_lt t_lt,
    Nat.add_zero]

/-- From a point to its place and back. The induction is on the levels: the quadrant is told
by the highest digit, and turning twice is turning back. -/
theorem curvePoint_squareIndex {k : Nat} {p : Nat × Nat} (inside : Inside (gridSide k) p) :
    squareIndex k p < gridArea k ∧ curvePoint k (squareIndex k p) = p := by
  induction k generalizing p with
  | zero =>
      obtain ⟨x_lt, y_lt⟩ := inside
      have side_eq : gridSide 0 = 1 := rfl
      exact ⟨Nat.one_pos, Prod.ext (show 0 = p.1 by omega) (show 0 = p.2 by omega)⟩
  | succ k ih =>
      -- Every point lies in a quadrant, so the hypothesis is used at the turned point
      -- inside of it.
      obtain ⟨rx, ry, q, rx_lt, ry_lt, inside', rfl⟩ := eq_quadrantPoint inside
      obtain ⟨digit_lt, column_eq, row_eq⟩ := bits_quadrant rx_lt ry_lt
      obtain ⟨place_lt, point_eq⟩ := ih (rotate_lt rx ry inside'.1 inside'.2)
      rw [squareIndex_quadrant rx_lt ry_lt inside']
      constructor
      · have full : gridArea k * quadrant rx ry ≤ gridArea k * 3 :=
          Nat.mul_le_mul_left _ (by omega)
        rw [gridArea_succ]
        omega
      · rw [curvePoint_quadrant place_lt, column_eq, row_eq, point_eq, rotate_rotate _ _ inside']

/-- From a place on the curve to its point and back. The place is cut into its highest digit
and the rest, as the point is into quadrant and point. -/
theorem squareIndex_curvePoint {k t : Nat} (t_lt : t < gridArea k) :
    squareIndex k (curvePoint k t) = t := by
  induction k generalizing t with
  | zero => exact (Nat.lt_one_iff.mp t_lt).symm
  | succ k ih =>
      -- A place is the digit of its quadrant and a place one level below.
      have digit_lt : t / gridArea k < 4 := by
        rw [gridArea_succ, Nat.mul_comm] at t_lt
        exact Nat.div_lt_of_lt_mul t_lt
      have rest_lt : t % gridArea k < gridArea k := Nat.mod_lt _ (gridArea_pos k)
      have split : gridArea k * (t / gridArea k) + t % gridArea k = t := Nat.div_add_mod _ _
      have inside : Inside (gridSide k) (curvePoint k (t % gridArea k)) := curvePoint_lt k _
      have point_eq : curvePoint (k + 1) (gridArea k * (t / gridArea k) + t % gridArea k) = _ :=
        curvePoint_quadrant rest_lt
      rw [split] at point_eq
      rw [point_eq, squareIndex_quadrant (columnBit_lt _) (rowBit_lt _)
        (rotate_lt _ _ inside.1 inside.2), rotate_rotate _ _ inside, ih rest_lt,
        quadrant_bits digit_lt, split]

/-! ### Zooms -/

/-- The tiles of a zoom follow those of all lower zooms. -/
theorem gridArea_eq (z : Nat) : gridArea z = 3 * zoomBase z + 1 := by
  induction z with
  | zero => rfl
  | succ z ih =>
      show gridArea (z + 1) = 3 * (gridArea (z + 1) / 3) + 1
      rw [gridArea_succ]
      omega

/-- The tiles of a zoom fill the numbers up to the first of the next zoom. -/
theorem zoomBase_succ (z : Nat) : zoomBase (z + 1) = zoomBase z + gridArea z := by
  have area := gridArea_eq z
  have area' := gridArea_eq (z + 1)
  rw [gridArea_succ] at area'
  omega

/-- Later zooms have larger numbers. -/
theorem zoomBase_mono {y z : Nat} (le : y ≤ z) : zoomBase y ≤ zoomBase z := by
  induction le with
  | refl => exact Nat.le_refl _
  | step _ ih =>
      rw [zoomBase_succ]
      omega

/-- All tile numbers fit a word. -/
theorem zoomBase_le_largest {z : Nat} (le : z ≤ maxZoom + 1) : zoomBase z ≤ Word.largest :=
  Nat.le_trans (zoomBase_mono le) (by decide)

/-- The zoom that is found is the one in whose numbers the number lies. Zooms are tried
upwards, so the first that ends beyond the number is the one. -/
theorem zoomFrom_eq_some_iff {id count first z : Nat} (above : zoomBase first ≤ id) :
    zoomFrom id count first = some z
      ↔ first ≤ z ∧ z < first + count ∧ zoomBase z ≤ id ∧ id < zoomBase (z + 1) := by
  induction count generalizing first with
  | zero =>
      rw [zoomFrom]
      constructor
      · intro found
        cases found
      · intro found
        omega
  | succ count ih =>
      rw [zoomFrom]
      by_cases here : id < zoomBase (first + 1)
      · rw [if_pos here]
        constructor
        · rintro ⟨rfl⟩
          exact ⟨Nat.le_refl _, by omega, above, here⟩
        · rintro ⟨first_le, -, base_le, -⟩
          -- Zooms have their numbers one behind another, so a number of this zoom is none of
          -- a later one.
          have not_later : ¬ first + 1 ≤ z := fun later => by
            have := zoomBase_mono later
            omega
          rw [show first = z by omega]
      · rw [if_neg here, ih (Nat.not_lt.mp here)]
        constructor
        · rintro ⟨first_le, z_lt, rest⟩
          exact ⟨by omega, by omega, rest⟩
        · rintro ⟨first_le, z_lt, base_le, id_lt⟩
          have not_first : first ≠ z := by
            intro same
            subst same
            exact here id_lt
          exact ⟨by omega, by omega, base_le, id_lt⟩

/-- A number belongs to the zoom whose first number is not above it, while that of the next
zoom is. -/
theorem zoomOf?_eq_some_iff {id z : Nat} :
    zoomOf? id = some z ↔ z ≤ maxZoom ∧ zoomBase z ≤ id ∧ id < zoomBase (z + 1) := by
  rw [zoomOf?, zoomFrom_eq_some_iff (show zoomBase 0 ≤ id from Nat.zero_le _)]
  constructor
  · rintro ⟨-, z_lt, rest⟩
    exact ⟨by omega, rest⟩
  · rintro ⟨z_le, rest⟩
    exact ⟨by omega, by omega, rest⟩

/-- No zoom is found just for the numbers from the end of the last zoom that is tried. -/
theorem zoomFrom_eq_none_iff {id count first : Nat} (above : zoomBase first ≤ id) :
    zoomFrom id count first = none ↔ zoomBase (first + count) ≤ id := by
  induction count generalizing first with
  | zero => simp [zoomFrom, above]
  | succ count ih =>
      have mono := zoomBase_mono (show first + 1 ≤ first + (count + 1) by omega)
      rw [zoomFrom]
      by_cases here : id < zoomBase (first + 1)
      · simp only [if_pos here, reduceCtorEq, false_iff]
        omega
      · rw [if_neg here, ih (Nat.not_lt.mp here), Nat.add_assoc, Nat.add_comm 1]

/-- Only numbers behind the last zoom belong to none. -/
theorem zoomOf?_eq_none_iff {id : Nat} : zoomOf? id = none ↔ zoomBase (maxZoom + 1) ≤ id := by
  rw [zoomOf?, zoomFrom_eq_none_iff (show zoomBase 0 ≤ id from Nat.zero_le _), Nat.zero_add]

/-! ### Tile numbers -/

/-- The tiles of a zoom end where those of the last zoom do, or before. -/
theorem zoomBase_succ_le (c : TileCoord) : zoomBase (c.z + 1) ≤ zoomBase (maxZoom + 1) :=
  zoomBase_mono (Nat.succ_le_succ c.z_le)

/-- The number of a tile: the place on the curve through its zoom, after all lower zooms. -/
theorem toNat_tileId (c : TileCoord) :
    c.tileId.toNat = zoomBase c.z + squareIndex c.z (c.x, c.y) ∧
      squareIndex c.z (c.x, c.y) < gridArea c.z := by
  have inside : Inside (gridSide c.z) (c.x, c.y) := ⟨c.x_lt, c.y_lt⟩
  have place_lt := (curvePoint_squareIndex inside).1
  have below := zoomBase_succ_le c
  have last : zoomBase (maxZoom + 1) < 2 ^ 64 := by decide
  rw [zoomBase_succ] at below
  refine ⟨?_, place_lt⟩
  show (UInt64.ofNat (zoomBase c.z + squareIndex c.z (c.x, c.y))).toNat = _
  rw [UInt64.toNat_ofNat', Nat.mod_eq_of_lt (by omega)]

/-- A number with a zoom is the number of a tile: the point of the curve through the zoom. -/
theorem exists_ofTileId {id : UInt64} {z : Nat} (zoom_eq : zoomOf? id.toNat = some z) :
    ∃ c, ofTileId id = .ok c ∧ c.z = z ∧ (c.x, c.y) = curvePoint z (id.toNat - zoomBase z) := by
  unfold ofTileId
  split
  · next none_eq =>
    rw [zoom_eq] at none_eq
    cases none_eq
  · next z' some_eq =>
    obtain rfl : z = z' := Option.some.inj (zoom_eq.symm.trans some_eq)
    exact ⟨_, rfl, rfl, rfl⟩

/-- A number below the end of the last zoom is the number of a tile. -/
theorem exists_ofTileId_of_lt {id : UInt64} (inside : id.toNat < zoomBase (maxZoom + 1)) :
    ∃ c, ofTileId id = .ok c := by
  cases zoom_eq : zoomOf? id.toNat with
  | none => exact absurd inside (Nat.not_lt.mpr (zoomOf?_eq_none_iff.mp zoom_eq))
  | some z =>
      obtain ⟨c, found, -⟩ := exists_ofTileId zoom_eq
      exact ⟨c, found⟩

/-- A number that belongs to no zoom is refused. -/
theorem ofTileId_eq_error {id : UInt64} (none_eq : zoomOf? id.toNat = none) :
    ofTileId id = .error (.idOutOfRange id) := by
  unfold ofTileId
  split
  · rfl
  · next z some_eq =>
    rw [none_eq] at some_eq
    cases some_eq

/-- The tile with the number of a tile is that tile. The zoom comes back because the number
lies among those of the zoom, and the point because the curve does. -/
theorem ofTileId_tileId (c : TileCoord) : ofTileId c.tileId = .ok c := by
  obtain ⟨id_eq, place_lt⟩ := toNat_tileId c
  have inside : Inside (gridSide c.z) (c.x, c.y) := ⟨c.x_lt, c.y_lt⟩
  have zoom_eq : zoomOf? c.tileId.toNat = some c.z :=
    zoomOf?_eq_some_iff.mpr ⟨c.z_le, by omega, by rw [zoomBase_succ]; omega⟩
  -- The place on the curve comes back as the point, and what is in front of it tells the
  -- zoom.
  have point_eq : curvePoint c.z (c.tileId.toNat - zoomBase c.z) = (c.x, c.y) := by
    rw [id_eq, Nat.add_sub_cancel_left, (curvePoint_squareIndex inside).2]
  obtain ⟨c', found, same_zoom, same_point⟩ := exists_ofTileId zoom_eq
  rw [point_eq] at same_point
  cases c
  cases c'
  simp only [Prod.mk.injEq] at same_zoom same_point
  obtain ⟨rfl, rfl⟩ := same_point
  subst same_zoom
  exact found

/-- No two tiles have the same number. -/
theorem tileId_injective {c c' : TileCoord} (same : c.tileId = c'.tileId) : c = c' := by
  have found := ofTileId_tileId c
  rw [same, ofTileId_tileId] at found
  injection found with eq
  exact eq.symm

/-- The number of the tile with a number is that number. -/
theorem tileId_of_ofTileId {id : UInt64} {c : TileCoord} (found : ofTileId id = .ok c) :
    c.tileId = id := by
  unfold ofTileId at found
  split at found
  · cases found
  · next z some_eq =>
    obtain ⟨z_le, base_le, id_lt⟩ := zoomOf?_eq_some_iff.mp some_eq
    cases found
    rw [zoomBase_succ] at id_lt
    rw [← UInt64.toNat_inj, (toNat_tileId _).1]
    show zoomBase z + squareIndex z (curvePoint z (id.toNat - zoomBase z)) = id.toNat
    -- The place is on the curve of its zoom, so the point on it has this place again.
    rw [squareIndex_curvePoint (by omega)]
    omega

/-- A number that a tile has leaves room for the next one. -/
theorem lt_largest_of_ofTileId {id : UInt64} {c : TileCoord} (found : ofTileId id = .ok c) :
    id.toNat < Word.largest := by
  obtain ⟨id_eq, place_lt⟩ := c.toNat_tileId
  have below := zoomBase_succ_le c
  have last : zoomBase (maxZoom + 1) < Word.largest := by decide
  rw [tileId_of_ofTileId found] at id_eq
  rw [zoomBase_succ] at below
  omega

end TileCoord

end TileArchive
