import Mathlib.Data.Set.Card
import Mathlib.Order.Interval.Finset.Nat
import TileArchive.Proofs.TileCoord.Bijection

/-!
# `TileArchive.Proofs.TileCoord.Blocks`: a tile and all that lies in it

A tile of one zoom is four tiles of the next, its children. The walk along the curve of the next
zoom mirrors columns and rows in a grid twice as wide, and what is mirrored are children of the
mirrored tile (`rotate_subpoint`). So the four children come one after another along the curve,
where their parent comes along its own (`squareIndex_subpoint`).

* `Descends` relates a tile to what lies in it some zooms further down, child by child.
  `descends_iff` says the same with column and row.
* `bijOn_descends`: the tiles that lie in a tile have the numbers of one block, which stands where
  the tile stands on its zoom. `subtree_contiguous` puts this together.

## Halving at the other end

In `Proofs/TileCoord.lean` a square is taken apart at its widest level, into quadrants. A tile and
its children differ at the other end: a child adds the lowest bit to column and row and the lowest
digit to the place. `squareIndex_subpoint` connects the two. Its induction takes both grids apart
at the widest level at the same time, and the hypothesis is about the tile and its child inside of
one quadrant; at the last level there are only the four children left.

Dropping the lowest digit of the place of a child gives the place of its parent, and so dropping
`k` digits gives the place of the ancestor `k` zooms above (`Descends.place_div`). The numbers
whose places agree but for the last `k` digits are one block of `gridArea k` numbers
(`div_gridArea_eq_iff`), and blocks of different tiles follow each other as the tiles do
(`firstWithin_le_of_lt`).
-/

set_option autoImplicit false

namespace TileArchive

/-- Sides multiply when levels are added. -/
theorem gridSide_add (j k : Nat) : gridSide (j + k) = gridSide j * gridSide k := Nat.pow_add 2 j k

/-- Areas multiply when levels are added. -/
theorem gridArea_add (j k : Nat) : gridArea (j + k) = gridArea j * gridArea k := Nat.pow_add 4 j k

namespace TileCoord

/-! ### Points of a grid twice as wide -/

/-- The point of a grid twice as wide that lies in a point, with the given low bits. -/
def subpoint (p : Nat × Nat) (a b : Nat) : Nat × Nat := (2 * p.1 + a, 2 * p.2 + b)

/-- The four children of a point lie in the grid twice as wide. -/
theorem inside_subpoint {k a b : Nat} {p : Nat × Nat} (inside : Inside (gridSide k) p)
    (a_lt : a < 2) (b_lt : b < 2) : Inside (gridSide (k + 1)) (subpoint p a b) := by
  obtain ⟨x_lt, y_lt⟩ := inside
  rw [gridSide_succ]
  exact ⟨show 2 * p.1 + a < _ by omega, show 2 * p.2 + b < _ by omega⟩

/-- It makes no difference whether a point is put into a quadrant before or after its child
is taken. -/
theorem subpoint_quadrantPoint (k rx ry a b : Nat) (p : Nat × Nat) :
    subpoint (quadrantPoint (gridSide k) rx ry p) a b
      = quadrantPoint (gridSide (k + 1)) rx ry (subpoint p a b) := by
  have twice (m bit low : Nat) : 2 * (m + gridSide k * bit) + low
      = 2 * m + low + gridSide (k + 1) * bit := by
    rw [gridSide_succ, Nat.add_mul]
    omega
  exact Prod.ext (twice p.1 rx a) (twice p.2 ry b)

/-- What lies in a point lies in the turned point after a turn of the wider grid. A mirrored grid
counts the low bits from the other side. -/
theorem rotate_subpoint {k a b : Nat} (rx ry : Nat) {p : Nat × Nat} (inside : Inside (gridSide k) p)
    (a_lt : a < 2) (b_lt : b < 2) :
    ∃ a' b', a' < 2 ∧ b' < 2 ∧ rotate (gridSide (k + 1)) rx ry (subpoint p a b)
      = subpoint (rotate (gridSide k) rx ry p) a' b' := by
  obtain ⟨x_lt, y_lt⟩ := inside
  have mirrored {m low : Nat} (m_lt : m < gridSide k) (low_lt : low < 2) :
      gridSide (k + 1) - 1 - (2 * m + low) = 2 * (gridSide k - 1 - m) + (1 - low) := by
    rw [gridSide_succ]
    omega
  unfold rotate
  split
  · split
    · exact ⟨1 - b, 1 - a, by omega, by omega, Prod.ext (mirrored y_lt b_lt) (mirrored x_lt a_lt)⟩
    · exact ⟨b, a, b_lt, a_lt, rfl⟩
  · exact ⟨a, b, a_lt, b_lt, rfl⟩

/-- The four points in a point follow one another along the curve through the wider grid. The
induction is on the levels of the curve, from the coarsest quadrant in. -/
theorem squareIndex_subpoint {k a b : Nat} {p : Nat × Nat} (inside : Inside (gridSide k) p)
    (a_lt : a < 2) (b_lt : b < 2) :
    squareIndex (k + 1) (subpoint p a b) / 4 = squareIndex k p := by
  induction k generalizing p a b with
  | zero =>
      have place_lt : squareIndex 1 (subpoint p a b) < 4 :=
        (curvePoint_squareIndex (inside_subpoint inside a_lt b_lt)).1
      exact Nat.div_eq_of_lt place_lt
  | succ k ih =>
      -- A point and its child lie in the same quadrant of their grids, and are turned
      -- alike.
      obtain ⟨rx, ry, q, rx_lt, ry_lt, inside', rfl⟩ := eq_quadrantPoint inside
      obtain ⟨a', b', a_lt', b_lt', turned⟩ := rotate_subpoint rx ry inside' a_lt b_lt
      have deeper := ih (rotate_lt rx ry inside'.1 inside'.2) a_lt' b_lt'
      rw [subpoint_quadrantPoint, squareIndex_quadrant rx_lt ry_lt
        (inside_subpoint inside' a_lt b_lt), squareIndex_quadrant rx_lt ry_lt inside', turned,
        gridArea_succ, Nat.mul_assoc, Nat.mul_add_div (by decide), deeper]

/-! ### Children -/

/-- Where a tile comes along the curve through its zoom. Its number counts the tiles of all
zooms before, which are taken away here. -/
def place (c : TileCoord) : Nat := c.tileId.toNat - zoomBase c.z

/-- The place of a tile on its zoom is its place on the curve through the grid of the zoom. -/
theorem place_eq (c : TileCoord) : c.place = squareIndex c.z (c.x, c.y) := by
  rw [place, c.toNat_tileId.1, Nat.add_sub_cancel_left]

/-- The number of a tile is the first of its zoom and its place on the zoom. -/
theorem toNat_tileId_eq (c : TileCoord) : c.tileId.toNat = zoomBase c.z + c.place := by
  rw [place_eq]
  exact c.toNat_tileId.1

/-- The place of a tile is one of its zoom. -/
theorem place_lt (c : TileCoord) : c.place < gridArea c.z := by
  rw [place_eq]
  exact c.toNat_tileId.2

/-- A zoom has one tile for each place. -/
theorem eq_of_place_eq {c c' : TileCoord} (same_zoom : c.z = c'.z) (same : c.place = c'.place) :
    c = c' := by
  refine tileId_injective (UInt64.toNat_inj.mp ?_)
  rw [toNat_tileId_eq, toNat_tileId_eq, same_zoom, same]

/-- A tile of the next zoom lies in a tile: its column and row are those of the tile with
one more bit. -/
structure IsChild (c child : TileCoord) : Prop where
  zoom_eq : child.z = c.z + 1
  column_eq : child.x / 2 = c.x
  row_eq : child.y / 2 = c.y

/-- Every tile above the highest zoom has four children, told apart by the low bits of column and
row. -/
theorem exists_child {c : TileCoord} (z_lt : c.z < maxZoom) {a b : Nat} (a_lt : a < 2)
    (b_lt : b < 2) :
    ∃ child, of? (c.z + 1) (2 * c.x + a) (2 * c.y + b) = .ok child ∧ c.IsChild child := by
  have inside : Inside (gridSide (c.z + 1)) (subpoint (c.x, c.y) a b) :=
    inside_subpoint ⟨c.x_lt, c.y_lt⟩ a_lt b_lt
  refine ⟨⟨c.z + 1, 2 * c.x + a, 2 * c.y + b, z_lt, inside.1, inside.2⟩,
    of?_eq_ok_iff.mpr ⟨rfl, rfl, rfl⟩, rfl, ?_, ?_⟩
  · show (2 * c.x + a) / 2 = c.x
    omega
  · show (2 * c.y + b) / 2 = c.y
    omega

/-- The children of a tile come where the tile comes, four to each. -/
theorem IsChild.place_div {c child : TileCoord} (isChild : c.IsChild child) :
    child.place / 4 = c.place := by
  obtain ⟨zoom_eq, column_eq, row_eq⟩ := isChild
  have point_eq : (child.x, child.y) = subpoint (c.x, c.y) (child.x % 2) (child.y % 2) := by
    rw [← column_eq, ← row_eq]
    exact Prod.ext (Nat.div_add_mod child.x 2).symm (Nat.div_add_mod child.y 2).symm
  rw [place_eq, place_eq, zoom_eq, point_eq]
  exact squareIndex_subpoint ⟨c.x_lt, c.y_lt⟩ (Nat.mod_lt _ Nat.two_pos) (Nat.mod_lt _ Nat.two_pos)

/-! ### All that lies in a tile -/

/-- A tile lies in another, `k` zooms further down. It is reached by going from a tile to
one of its children `k` times. -/
inductive Descends (c : TileCoord) : Nat → TileCoord → Prop where
  | self : Descends c 0 c
  | child {k : Nat} {d e : TileCoord} (descends : Descends c k d) (isChild : d.IsChild e) :
      Descends c (k + 1) e

/-- What lies in a tile has its column and row but for the low bits. So lying in a tile can
be told from coordinates without going through the zooms in between. -/
theorem descends_iff {c d : TileCoord} {k : Nat} :
    c.Descends k d ↔ d.z = c.z + k ∧ d.x / gridSide k = c.x ∧ d.y / gridSide k = c.y := by
  have halved (m k : Nat) : m / gridSide (k + 1) = m / 2 / gridSide k := by
    rw [Nat.add_comm k 1, gridSide_add, Nat.div_div_eq_div_mul]
    rfl
  constructor
  · intro descends
    induction descends with
    | self => exact ⟨rfl, Nat.div_one _, Nat.div_one _⟩
    | child _ isChild ih =>
        obtain ⟨zoom_eq, column_eq, row_eq⟩ := ih
        rw [halved, halved, isChild.column_eq, isChild.row_eq]
        exact ⟨isChild.zoom_eq.trans (congrArg (· + 1) zoom_eq), column_eq, row_eq⟩
  · -- The parent of the tile is found by halving, and it lies in `c` by the hypothesis.
    rintro ⟨zoom_eq, column_eq, row_eq⟩
    induction k generalizing d with
    | zero =>
        have side_eq : gridSide 0 = 1 := rfl
        rw [side_eq, Nat.div_one] at column_eq row_eq
        cases c
        cases d
        subst zoom_eq column_eq row_eq
        exact .self
    | succ k ih =>
        rw [halved] at column_eq row_eq
        have half_lt {m : Nat} (m_lt : m < gridSide d.z) : m / 2 < gridSide (c.z + k) := by
          rw [zoom_eq, ← Nat.add_assoc, gridSide_succ] at m_lt
          omega
        have z_le := d.z_le
        let parent : TileCoord :=
          ⟨c.z + k, d.x / 2, d.y / 2, by omega, half_lt d.x_lt, half_lt d.y_lt⟩
        have isChild : parent.IsChild d := ⟨zoom_eq, rfl, rfl⟩
        exact .child (ih rfl column_eq row_eq) isChild

/-- Every tile lies in a tile of each zoom above. -/
theorem exists_descends {d : TileCoord} {z k : Nat} (zoom_eq : d.z = z + k) :
    ∃ c : TileCoord, c.z = z ∧ c.Descends k d := by
  have column_lt {m : Nat} (m_lt : m < gridSide d.z) : m / gridSide k < gridSide z := by
    rw [zoom_eq, Nat.add_comm, gridSide_add] at m_lt
    exact Nat.div_lt_of_lt_mul m_lt
  have z_le := d.z_le
  exact ⟨⟨z, d.x / gridSide k, d.y / gridSide k, by omega, column_lt d.x_lt, column_lt d.y_lt⟩,
    rfl, descends_iff.mpr ⟨zoom_eq, rfl, rfl⟩⟩

/-- What lies in a tile comes where the tile comes. The induction goes down from child to child. -/
theorem Descends.place_div {c d : TileCoord} {k : Nat} (descends : c.Descends k d) :
    d.place / gridArea k = c.place := by
  induction descends with
  | self => exact Nat.div_one _
  | child _ isChild ih => rw [gridArea_succ, ← Nat.div_div_eq_div_mul, isChild.place_div, ih]

/-- The places of a zoom further down whose quotient by the area of a block is a given place. -/
theorem div_gridArea_eq_iff {t k place : Nat} :
    t / gridArea k = place ↔ gridArea k * place ≤ t ∧ t < gridArea k * place + gridArea k := by
  have area_pos := gridArea_pos k
  rw [Nat.div_eq_iff area_pos, Nat.mul_comm place]
  omega

/-- The first number of the tiles that lie in a tile, `k` zooms further down. The block of
these tiles begins here and has `gridArea k` members. -/
def firstWithin (c : TileCoord) (k : Nat) : Nat := zoomBase (c.z + k) + gridArea k * c.place

/-- A tile that lies in another has a number of the block of this other one. -/
theorem Descends.tileId_mem {c d : TileCoord} {k : Nat} (descends : c.Descends k d) :
    c.firstWithin k ≤ d.tileId.toNat ∧ d.tileId.toNat < c.firstWithin k + gridArea k := by
  have inside := div_gridArea_eq_iff.mp descends.place_div
  rw [firstWithin, toNat_tileId_eq, (descends_iff.mp descends).1]
  omega

/-- The block of a tile ends among the numbers of its zoom. -/
theorem firstWithin_add_le (c : TileCoord) (k : Nat) :
    c.firstWithin k + gridArea k ≤ zoomBase (c.z + k + 1) := by
  have block_le : gridArea k * (c.place + 1) ≤ gridArea k * gridArea c.z :=
    Nat.mul_le_mul_left _ c.place_lt
  rw [← gridArea_add, Nat.add_comm k, Nat.mul_succ] at block_le
  rw [zoomBase_succ, firstWithin]
  omega

/-- What lies in a tile, and the numbers of one block, correspond one to one. A number of the block
is that of a tile of the zoom, and the tile above it on the zoom of `c` comes where `c` comes. -/
theorem bijOn_descends {c : TileCoord} {k : Nat} (z_le : c.z + k ≤ maxZoom) :
    Set.BijOn (fun d : TileCoord => d.tileId.toNat) {d | c.Descends k d}
      {id | c.firstWithin k ≤ id ∧ id < c.firstWithin k + gridArea k} := by
  refine ⟨fun d descends => descends.tileId_mem, ?_, ?_⟩
  · intro d _ d' _ same
    exact tileId_injective (UInt64.toNat_inj.mp same)
  · rintro id ⟨first_le, id_lt⟩
    -- Every number of the block is that of a tile of the zoom, which lies in some tile of the
    -- zoom of `c`. This tile has the place of `c`, so it is `c`.
    have of_zoom := bijOn_tileId z_le
    simp only [exists_of?_iff, gridArea_sub_one_div] at of_zoom
    have last_le := c.firstWithin_add_le k
    obtain ⟨d, zoom_eq, number_eq⟩ : ∃ d : TileCoord, d.z = c.z + k ∧ d.tileId.toNat = id :=
      of_zoom.surjOn ⟨Nat.le_trans (Nat.le_add_right _ _) first_le, by omega⟩
    obtain ⟨c', same_zoom, descends⟩ := exists_descends zoom_eq
    have id_eq : zoomBase (c.z + k) + d.place = id := by
      rw [← number_eq, toNat_tileId_eq, zoom_eq]
    have place_eq : d.place / gridArea k = c.place := by
      rw [firstWithin] at first_le id_lt
      exact div_gridArea_eq_iff.mpr ⟨by omega, by omega⟩
    obtain rfl : c' = c := eq_of_place_eq same_zoom (descends.place_div.symm.trans place_eq)
    exact ⟨d, descends, number_eq⟩

/-- The blocks of a zoom come in the order of their tiles. -/
theorem firstWithin_le_of_lt {c c' : TileCoord} (same_zoom : c'.z = c.z)
    (lt : c.tileId < c'.tileId) (k : Nat) : c.firstWithin k + gridArea k ≤ c'.firstWithin k := by
  rw [UInt64.lt_iff_toNat_lt, toNat_tileId_eq, toNat_tileId_eq, same_zoom] at lt
  have block_le : gridArea k * (c.place + 1) ≤ gridArea k * c'.place :=
    Nat.mul_le_mul_left _ (by omega)
  rw [Nat.mul_succ] at block_le
  rw [firstWithin, firstWithin, same_zoom]
  omega

/-- Aligned subtrees are contiguous. The four children of a tile come along the curve of their zoom
where their parent comes along its own. The tiles that lie in a tile `k` zooms further down are
`4 ^ k`; their numbers are one block of consecutive numbers of that zoom, and the blocks come in the
order of the tiles whose blocks they are. -/
theorem subtree_contiguous (c : TileCoord) :
    (c.z < maxZoom → ∀ a < 2, ∀ b < 2, ∃ child,
      of? (c.z + 1) (2 * c.x + a) (2 * c.y + b) = .ok child ∧
      (child.tileId.toNat - (gridArea (c.z + 1) - 1) / 3) / 4
        = c.tileId.toNat - (gridArea c.z - 1) / 3) ∧
    ∀ k, c.z + k ≤ maxZoom →
      let base := (gridArea (c.z + k) - 1) / 3
      let first := base + gridArea k * (c.tileId.toNat - (gridArea c.z - 1) / 3)
      Set.BijOn (fun d : TileCoord => d.tileId.toNat) {d | c.Descends k d}
        {id | first ≤ id ∧ id < first + gridArea k} ∧
      Set.ncard {d | c.Descends k d} = gridArea k ∧
      first + gridArea k ≤ (gridArea (c.z + k + 1) - 1) / 3 ∧
      ∀ c' : TileCoord, c'.z = c.z → c.tileId < c'.tileId →
        ∀ d d', c.Descends k d → c'.Descends k d' → d.tileId < d'.tileId := by
  simp only [gridArea_sub_one_div]
  refine ⟨?_, ?_⟩
  · intro z_lt a a_lt b b_lt
    obtain ⟨child, made, isChild⟩ := exists_child z_lt a_lt b_lt
    have div_eq := isChild.place_div
    rw [place, place, isChild.zoom_eq] at div_eq
    exact ⟨child, made, div_eq⟩
  · intro k z_le
    have bijective := bijOn_descends z_le
    refine ⟨bijective, ?_, c.firstWithin_add_le k, ?_⟩
    · have block_eq : {id | c.firstWithin k ≤ id ∧ id < c.firstWithin k + gridArea k}
          = (Finset.Ico (c.firstWithin k) (c.firstWithin k + gridArea k) : Set Nat) := by
        rw [Finset.coe_Ico]
        rfl
      rw [bijective.ncard_eq, block_eq, Set.ncard_coe_finset, Nat.card_Ico, Nat.add_sub_cancel_left]
    · intro c' same_zoom lt d d' descends descends'
      have apart := firstWithin_le_of_lt same_zoom lt k
      have d_lt := descends.tileId_mem.2
      have le_d' := descends'.tileId_mem.1
      exact UInt64.lt_iff_toNat_lt.mpr (by omega)

/-- In the upper right tile of zoom one, the tiles of zoom three have the last sixteen numbers of
their zoom, and they come after those in the lower right tile. -/
theorem subtree_contiguous_zoom_three :
    let upper : TileCoord := ⟨1, 1, 0, by decide, by decide, by decide⟩
    let lower : TileCoord := ⟨1, 1, 1, by decide, by decide, by decide⟩
    (upper.z < maxZoom ∧ ∃ child, of? 2 3 1 = .ok child ∧
      (child.tileId.toNat - 5) / 4 = upper.tileId.toNat - 1) ∧
    upper.z + 2 ≤ maxZoom ∧
    Set.BijOn (fun d : TileCoord => d.tileId.toNat) {d | upper.Descends 2 d}
      {id | 69 ≤ id ∧ id < 85} ∧
    lower.tileId < upper.tileId ∧
    ∀ d d', lower.Descends 2 d → upper.Descends 2 d' → d.tileId < d'.tileId := by
  intro upper lower
  have z_le : upper.z + 2 ≤ maxZoom := by decide
  have lt : lower.tileId < upper.tileId := by decide
  obtain ⟨child, blocks⟩ := subtree_contiguous upper
  obtain ⟨bijective, -⟩ := blocks 2 z_le
  obtain ⟨-, -, -, apart⟩ := (subtree_contiguous lower).2 2 z_le
  have base_eq : (gridArea upper.z - 1) / 3 = 1 := by decide
  have next_eq : (gridArea (upper.z + 1) - 1) / 3 = 5 := by decide
  have first_eq : (gridArea (upper.z + 2) - 1) / 3 + gridArea 2 * (upper.tileId.toNat - 1)
      = 69 := by decide
  simp only [base_eq, next_eq] at child bijective
  simp only [first_eq] at bijective
  exact ⟨⟨by decide, child (by decide) 1 (by decide) 1 (by decide)⟩, z_le, bijective, lt,
    apart upper rfl lt⟩

end TileCoord

end TileArchive
