/-
**The grids of the map.**

At zoom `z` the map is a square grid of `axisLength z` rows and as many columns, each step of the
zoom doubling both.  Rows are counted southward and columns eastward from the north-west corner.
A path of `d` quadrants names one of `tileCount d` tiles.

Main definitions:

* `Geotile.maxDepth` — the deepest level of the tree, `32`;
* `Geotile.axisLength`, `Geotile.tileCount` — the side of a grid, and the number of its tiles;
* `Geotile.Cell`, `Geotile.Cell.inGrid` — a row, a column and a zoom, and whether they name a
  tile of the grid.

Main results:

* `Geotile.tileCount_le`, `Geotile.tileCount_add` — the number of tiles grows with the depth, and
  a tile of depth `d` has `tileCount k` descendants `k` levels further down.
-/

set_option autoImplicit false

namespace Geotile

/-- The deepest level of the tree: two bits per level fill a word of sixty-four bits. -/
def maxDepth : Nat := 32

/-- The number of rows, and of columns, of the grid at a zoom. -/
def axisLength : Nat → Nat
  | 0 => 1
  | z + 1 => 2 * axisLength z

/-- The number of tiles of the grid at a depth. -/
def tileCount : Nat → Nat
  | 0 => 1
  | d + 1 => 4 * tileCount d

@[simp] theorem axisLength_zero : axisLength 0 = 1 := rfl

theorem axisLength_succ (z : Nat) : axisLength (z + 1) = 2 * axisLength z := rfl

@[simp] theorem tileCount_zero : tileCount 0 = 1 := rfl

theorem tileCount_succ (d : Nat) : tileCount (d + 1) = 4 * tileCount d := rfl

theorem axisLength_pos (z : Nat) : 0 < axisLength z := by
  induction z with
  | zero => decide
  | succ z ih => rw [axisLength_succ]; omega

theorem tileCount_pos (d : Nat) : 0 < tileCount d := by
  induction d with
  | zero => decide
  | succ d ih => rw [tileCount_succ]; omega

theorem tileCount_add (d k : Nat) : tileCount (d + k) = tileCount d * tileCount k := by
  induction k with
  | zero => simp
  | succ k ih =>
      rw [← Nat.add_assoc, tileCount_succ, tileCount_succ, ih, Nat.mul_left_comm]

/-- The number of tiles grows with the depth. -/
theorem tileCount_le {d e : Nat} (h : d ≤ e) : tileCount d ≤ tileCount e := by
  obtain ⟨k, rfl⟩ := Nat.le.dest h
  rw [tileCount_add]
  exact Nat.le_mul_of_pos_right _ (tileCount_pos k)

theorem tileCount_maxDepth : tileCount maxDepth = 18446744073709551616 := by decide

/-! ### Cells -/

/-- A row, a column and the zoom of the grid in which they are counted.  The numbers need not
lie inside that grid. -/
structure Cell where
  /-- The row, counted southward from the northern edge. -/
  row : Nat
  /-- The column, counted eastward from the western edge. -/
  column : Nat
  /-- The zoom of the grid. -/
  zoom : Nat
  deriving DecidableEq

namespace Cell

/-- Whether the cell lies inside a grid of at most the deepest zoom. -/
def inGrid (c : Cell) : Bool :=
  c.zoom ≤ maxDepth && c.row < axisLength c.zoom && c.column < axisLength c.zoom

/-- The short text of a cell: row, column and zoom level. -/
def text (c : Cell) : String :=
  toString c.row ++ "_" ++ toString c.column ++ "@ZL" ++ toString c.zoom

theorem inGrid_iff {c : Cell} : c.inGrid = true ↔
    c.zoom ≤ maxDepth ∧ c.row < axisLength c.zoom ∧ c.column < axisLength c.zoom := by
  simp [inGrid, and_assoc]

end Cell

end Geotile
