/-!
# `TileArchive.TileCoord`: tiles and their numbers on the Hilbert curve

Zoom `z` divides the map into a grid of `2 ^ z` columns and rows, for `z` up to 31.
(`gridSide` and `gridArea` give the two powers a name.)
Every tile has a number: the tiles of a zoom come after all tiles of lower zooms, and
within a zoom they follow a Hilbert curve, so that neighbours on the map tend to have
nearby numbers.

* `TileCoord.tileId` walks from the coarsest bit of column and row to the finest. Each
  step says which quadrant the tile lies in and turns the grid so that the next step
  sees the quadrant in standard position.
* `TileCoord.ofTileId` walks the base-4 digits of the number from the finest quadrant
  out, turning the square found so far into place.

A coordinate carries the proofs that its zoom is allowed and that it lies in the grid of the zoom,
so nothing that takes one has to check it. `TileCoord.of?` makes one of three numbers, and
`TileCoord.ofTileId` one of a tile number; both give the proofs along with it.

Both walks count in natural numbers here. That they never leave the machine words that a program
would use is `TileCoord.checkedTileId_eq` and `TileCoord.checkedOfTileId_eq`, in
`Proofs/TileCoord/Words.lean`.
-/

set_option autoImplicit false

namespace TileArchive

/-- Why a coordinate or a tile number is refused. The zoom is looked at first, since the
grid depends on it. -/
inductive TileIdError where
  /-- The zoom is above `TileCoord.maxZoom`. -/
  | zoomTooLarge (z : Nat)
  /-- The column or row lies outside the grid of the zoom. -/
  | outOfRange (z x y : Nat)
  /-- The number lies beyond the last tile of the highest zoom. -/
  | idOutOfRange (id : UInt64)
deriving DecidableEq, Repr

/-- The highest zoom whose tile numbers all fit a 64-bit word. -/
def maxZoom : Nat := 31

/-- The text of a tile error. -/
def TileIdError.message : TileIdError → String
  | .zoomTooLarge z => s!"Zoom {z} exceeds maximum of {maxZoom}"
  | .outOfRange z x y => s!"Tile {x}/{y} is outside the grid of zoom {z}"
  | .idOutOfRange id => s!"Tile id {id.toNat} is beyond the supported zoom range"

/-- The number of columns, and of rows, at a zoom: a power of two. -/
def gridSide (z : Nat) : Nat := Nat.pow 2 z

/-- The number of tiles at a zoom: a power of four. -/
def gridArea (z : Nat) : Nat := Nat.pow 4 z

/-- A tile of the map: zoom, column and row, inside the grid of the zoom. The bounds are
part of the data, so no function on tiles has to check them again, and every tile has a
number. -/
structure TileCoord where
  z : Nat
  x : Nat
  y : Nat
  z_le : z ≤ maxZoom
  x_lt : x < gridSide z
  y_lt : y < gridSide z
deriving DecidableEq

namespace TileCoord

/-- The tile with the given zoom, column and row. -/
def of? (z x y : Nat) : Except TileIdError TileCoord :=
  if hz : z ≤ maxZoom then
    if h : x < gridSide z ∧ y < gridSide z then .ok ⟨z, x, y, hz, h.1, h.2⟩
    else .error (.outOfRange z x y)
  else .error (.zoomTooLarge z)

/-- The tile as text: zoom, column and row between slashes. -/
def text (c : TileCoord) : String :=
  s!"{c.z}/{c.x}/{c.y}"

/-- Turns a square of side `n` into standard position for a quadrant with column bit `rx`
and row bit `ry`: the two upper quadrants swap the axes, the right one after a point
reflection. -/
def rotate (n rx ry : Nat) (p : Nat × Nat) : Nat × Nat :=
  if ry = 0 then
    if rx = 1 then (n - 1 - p.2, n - 1 - p.1) else (p.2, p.1)
  else p

/-- The place along the curve that is still to be added for the low `k` bits of column and
row, in a grid of side `n`. The quadrants are numbered 0 to 3 along the curve. -/
def curveIndex (n : Nat) : Nat → Nat × Nat → Nat
  | 0, _ => 0
  | k + 1, p =>
    let s := gridSide k
    let rx := p.1 / s % 2
    let ry := p.2 / s % 2
    -- The lower bits are seen from inside the quadrant, where the curve starts anew.
    s * s * ((3 * rx) ^^^ ry) + curveIndex n k (rotate n rx ry p)

/-- Column and row of the tile at place `t` of the curve through a square of side `gridSide k`.
Only the low `k` base-4 digits of `t` count. -/
def curvePoint : Nat → Nat → Nat × Nat
  | 0, _ => (0, 0)
  | k + 1, t =>
    let s := gridSide k
    let digit := t / gridArea k
    let rx := digit / 2 % 2
    let ry := (digit ^^^ rx) % 2
    let p := rotate s rx ry (curvePoint k t)
    (p.1 + s * rx, p.2 + s * ry)

/-- The grid of the next zoom is twice as wide. -/
theorem gridSide_succ (k : Nat) : gridSide (k + 1) = gridSide k + gridSide k := by
  show Nat.pow 2 k * 2 = gridSide k + gridSide k
  rw [Nat.mul_two]
  rfl

/-- A turned point stays in its square. -/
theorem rotate_lt (rx ry : Nat) {n : Nat} {p : Nat × Nat} (hx : p.1 < n) (hy : p.2 < n) :
    (rotate n rx ry p).1 < n ∧ (rotate n rx ry p).2 < n := by
  unfold rotate
  split
  · split
    · exact ⟨show n - 1 - p.2 < n by omega, show n - 1 - p.1 < n by omega⟩
    · exact ⟨hy, hx⟩
  · exact ⟨hx, hy⟩

/-- The curve through a square stays in the square. -/
theorem curvePoint_lt (k t : Nat) :
    (curvePoint k t).1 < gridSide k ∧ (curvePoint k t).2 < gridSide k := by
  induction k with
  | zero => exact ⟨Nat.one_pos, Nat.one_pos⟩
  | succ k ih =>
    have bit_le (b : Nat) : gridSide k * (b % 2) ≤ gridSide k := by
      simpa using Nat.mul_le_mul_left (gridSide k) (show b % 2 ≤ 1 by omega)
    have turned := rotate_lt (t / gridArea k / 2 % 2)
      ((t / gridArea k ^^^ t / gridArea k / 2 % 2) % 2) ih.1 ih.2
    have hx := bit_le (t / gridArea k / 2)
    have hy := bit_le (t / gridArea k ^^^ t / gridArea k / 2 % 2)
    rw [gridSide_succ]
    exact ⟨by simp only [curvePoint]; omega, by simp only [curvePoint]; omega⟩

/-- The number of tiles on all zooms below `z`. -/
def zoomBase (z : Nat) : Nat :=
  gridArea z / 3

/-- The number of a tile. -/
def tileId (c : TileCoord) : UInt64 :=
  UInt64.ofNat (zoomBase c.z + curveIndex (gridSide c.z) c.z (c.x, c.y))

/-- The lowest zoom from `z` on whose tiles end above `id`, trying `count` zooms. -/
def zoomFrom (id : Nat) : Nat → Nat → Option Nat
  | 0, _ => none
  | count + 1, z => if id < zoomBase (z + 1) then some z else zoomFrom id count (z + 1)

/-- The zoom of a tile number, if it has one. -/
def zoomOf? (id : Nat) : Option Nat :=
  zoomFrom id (maxZoom + 1) 0

/-- A zoom that is found is one of those tried. -/
theorem lt_of_zoomFrom {id count z w : Nat} (h : zoomFrom id count z = some w) :
    w < z + count := by
  induction count generalizing z with
  | zero => simp [zoomFrom] at h
  | succ count ih =>
    rw [zoomFrom] at h
    split at h
    · cases h
      omega
    · have := ih h
      omega

/-- The tile with the given number. -/
def ofTileId (id : UInt64) : Except TileIdError TileCoord :=
  match h : zoomOf? id.toNat with
  | none => .error (.idOutOfRange id)
  | some z =>
    let place := id.toNat - zoomBase z
    .ok {
      z
      x := (curvePoint z place).1
      y := (curvePoint z place).2
      z_le := Nat.le_of_lt_succ (by simpa using lt_of_zoomFrom h)
      x_lt := (curvePoint_lt z place).1
      y_lt := (curvePoint_lt z place).2 }

/-- Whether a tile comes no later than another by zoom, then column, then row. -/
def le (a b : TileCoord) : Bool :=
  a.z < b.z || (a.z == b.z && (a.x < b.x || (a.x == b.x && a.y ≤ b.y)))

/-- Tiles by zoom, column and row. -/
def sortByPosition (cs : List TileCoord) : List TileCoord :=
  cs.mergeSort le

/-- Tiles by their number. -/
def sortById (cs : List TileCoord) : List TileCoord :=
  cs.mergeSort fun a b => a.tileId ≤ b.tileId

end TileCoord

end TileArchive
