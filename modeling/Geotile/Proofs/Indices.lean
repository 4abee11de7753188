/-
**Rows and columns of tiles.**

A tile of depth `d` is one square of the grid with `axisLength d` rows and columns, and its path
counts the row and the column in binary.  Going up `k` levels divides both by `axisLength k`, so a
tile contains another exactly when this division leads from the second to the first; and the grid
below a tile continues its row and its column.

Main definitions:

* `Geotile.Tile.index` — the row or the column of a tile;
* `Geotile.Tile.ofIndices` — the tile at a row and a column.

Main results:

* `Geotile.Tile.eq_iff_index` — depth, row and column determine a tile;
* `Geotile.Tile.contains_iff_index` — lying inside is division of rows and columns;
* `Geotile.Tile.index_ofIndices` — every row and column of the grid is that of a tile;
* `Geotile.Tile.mem_edge` — the tiles along an edge are those inside whose row and column, within
  the tile, lie on the strip of the heading.
-/

import Geotile.Proofs.Containment
import Geotile.Tile.Descend

set_option autoImplicit false

namespace Geotile

theorem axisLength_add (d k : Nat) : axisLength (d + k) = axisLength d * axisLength k := by
  induction k with
  | zero => simp
  | succ k ih =>
      rw [← Nat.add_assoc, axisLength_succ, axisLength_succ, ih, Nat.mul_left_comm]

namespace Tile

/-! ### Counting along a path -/

theorem foldl_along (axis : Axis) (qs : List Quadrant) (n : Nat) :
    qs.foldl (fun n q => 2 * n + (q.isFar axis).toNat) n
      = n * axisLength qs.length + along axis qs := by
  induction qs generalizing n with
  | nil => simp [along]
  | cons q qs ih =>
      rw [along, List.foldl_cons, List.foldl_cons, ih, ih, List.length_cons, axisLength_succ,
        Nat.mul_zero, Nat.zero_add, Nat.add_mul, ← Nat.add_assoc, ← Nat.mul_assoc,
        Nat.mul_comm n 2]

/-- A path continued by another counts in units of the grid of the second. -/
theorem along_append (axis : Axis) (xs ys : List Quadrant) :
    along axis (xs ++ ys) = along axis xs * axisLength ys.length + along axis ys := by
  rw [along, List.foldl_append, foldl_along]
  rfl

theorem along_lt (axis : Axis) (qs : List Quadrant) : along axis qs < axisLength qs.length := by
  induction qs with
  | nil => simp [along]
  | cons q qs ih =>
      have split : along axis (q :: qs)
          = (q.isFar axis).toNat * axisLength qs.length + along axis qs := by
        have := along_append axis [q] qs
        simpa [along] using this
      have bit := Bool.toNat_le (q.isFar axis)
      have := Nat.mul_le_mul_right (axisLength qs.length) bit
      rw [split, List.length_cons, axisLength_succ]
      omega

/-! ### The row and the column of a tile -/

/-- The row or the column of a tile in the grid of its depth. -/
def index (axis : Axis) (t : Tile) : Nat := along axis t.quadrants

theorem index_lt (axis : Axis) (t : Tile) : t.index axis < axisLength t.depth := by
  rw [← length_quadrants t]
  exact along_lt axis t.quadrants

/-- Depth, row and column determine a tile. -/
theorem eq_iff_index {t u : Tile} :
    t = u ↔ t.depth = u.depth ∧ ∀ axis, t.index axis = u.index axis := by
  constructor
  · rintro rfl
    exact ⟨rfl, fun _ => rfl⟩
  · rintro ⟨depths, same⟩
    have rows : along .row t.quadrants = along .row u.quadrants := same .row
    have columns : along .column t.quadrants = along .column u.quadrants := same .column
    rw [eq_iff_quadrants, ← Cell.path_along t.quadrants, ← Cell.path_along u.quadrants, rows,
      columns, length_quadrants, length_quadrants, depths]

/-- Going up divides the row and the column by the length of the grid in between. -/
theorem index_ancestor (axis : Axis) (t : Tile) (d : Nat) (pos : 0 < d) (le : d ≤ t.depth) :
    (t.ancestor d pos le).index axis = t.index axis / axisLength (t.depth - d) := by
  have split := along_append axis (t.quadrants.take d) (t.quadrants.drop d)
  have rest := along_lt axis (t.quadrants.drop d)
  rw [List.take_append_drop] at split
  rw [List.length_drop, length_quadrants] at split rest
  rw [index, index, quadrants_ancestor, split, Nat.mul_comm, Nat.mul_add_div (axisLength_pos _),
    Nat.div_eq_of_lt rest, Nat.add_zero]

/-- A tile contains another exactly when going up leads from the row and the column of the second
to those of the first. -/
theorem contains_iff_index {t u : Tile} :
    t.contains u = true ↔ t.depth ≤ u.depth ∧
      ∀ axis, u.index axis / axisLength (u.depth - t.depth) = t.index axis := by
  rw [contains_iff_ancestor]
  constructor
  · rintro ⟨le, same⟩
    refine ⟨le, fun axis => ?_⟩
    rw [← index_ancestor axis u t.depth t.depth_pos le, same]
  · rintro ⟨le, same⟩
    refine ⟨le, eq_iff_index.mpr ⟨rfl, fun axis => ?_⟩⟩
    rw [index_ancestor, same]

/-! ### Tiles of a grid -/

/-- The tile at a row and a column of the grid at a depth. -/
def ofIndices (d row column : Nat) (pos : 0 < d) (le : d ≤ maxDepth) : Tile :=
  ofQuadrants (Cell.path d row column) (by simpa using pos) (by simpa using le)

@[simp] theorem depth_ofIndices (d row column : Nat) (pos : 0 < d) (le : d ≤ maxDepth) :
    (ofIndices d row column pos le).depth = d := by
  simp [ofIndices]

/-- Every row and column of the grid is that of a tile. -/
theorem index_ofIndices {d row column : Nat} (pos : 0 < d) (le : d ≤ maxDepth)
    (hr : row < axisLength d) (hc : column < axisLength d) :
    (ofIndices d row column pos le).index .row = row ∧
      (ofIndices d row column pos le).index .column = column := by
  rw [index, index, ofIndices, quadrants_ofQuadrants]
  exact Cell.along_path hr hc

theorem ofIndices_index {t : Tile} {d : Nat} (ht : t.depth = d) (pos : 0 < d) (le : d ≤ maxDepth) :
    ofIndices d (t.index .row) (t.index .column) pos le = t := by
  subst ht
  have inside := index_ofIndices pos le (index_lt .row t) (index_lt .column t)
  refine eq_iff_index.mpr ⟨depth_ofIndices .., fun axis => ?_⟩
  cases axis with
  | row => exact inside.1
  | column => exact inside.2

/-- The row and the column of a tile below another continue those of the other. -/
theorem index_below {t : Tile} {levels row column : Nat} (room : t.depth + levels ≤ maxDepth)
    (hr : row < axisLength levels) (hc : column < axisLength levels) :
    (t.below levels row column room).index .row = t.index .row * axisLength levels + row ∧
      (t.below levels row column room).index .column
        = t.index .column * axisLength levels + column := by
  obtain ⟨rows, columns⟩ := Cell.along_path hr hc
  simp only [index, quadrants_below, along_append, Cell.length_path, rows, columns, and_self]

end Tile

/-! ### Edges -/

namespace Shift

theorem mem_strip {s : Shift} {side i : Nat} (pos : 0 < side) :
    i ∈ s.strip side ↔ i < side ∧ (s = back → i + 1 = side) ∧ (s = ahead → i = 0) := by
  cases s with
  | back =>
      simp [strip]
      omega
  | stay => simp [strip]
  | ahead =>
      simp [strip]
      omega

end Shift

namespace Tile

/-- The place of a tile on an axis within its ancestor that lies the given number of levels up. -/
def place (axis : Axis) (levels : Nat) (t : Tile) : Nat := t.index axis % axisLength levels

/-- The tiles along an edge are those inside the tile whose places lie on the strips of the
heading. -/
theorem mem_edge {n t : Tile} {h : Heading} {levels : Nat} (room : n.depth + levels ≤ maxDepth) :
    t ∈ n.edge h levels room ↔
      t.depth = n.depth + levels ∧ n.contains t = true ∧
        t.place .row levels ∈ h.rowShift.strip (axisLength levels) ∧
        t.place .column levels ∈ h.columnShift.strip (axisLength levels) := by
  have side := axisLength_pos levels
  simp only [edge, List.mem_flatMap, List.mem_map]
  constructor
  · rintro ⟨row, hr, column, hc, rfl⟩
    have ltRow := ((Shift.mem_strip side).mp hr).1
    have ltColumn := ((Shift.mem_strip side).mp hc).1
    obtain ⟨rows, columns⟩ := index_below room ltRow ltColumn
    refine ⟨rfl, ?_, ?_, ?_⟩
    · rw [contains_iff_path, quadrants_below]
      exact List.prefix_append _ _
    · rwa [place, rows, Nat.mul_comm, Nat.mul_add_mod, Nat.mod_eq_of_lt ltRow]
    · rwa [place, columns, Nat.mul_comm, Nat.mul_add_mod, Nat.mod_eq_of_lt ltColumn]
  · rintro ⟨depth, inside, hr, hc⟩
    obtain ⟨-, up⟩ := contains_iff_index.mp inside
    rw [depth, Nat.add_sub_cancel_left] at up
    refine ⟨_, hr, _, hc, eq_iff_index.mpr ⟨depth.symm, fun axis => ?_⟩⟩
    have ltRow : t.place .row levels < axisLength levels := Nat.mod_lt _ side
    have ltColumn : t.place .column levels < axisLength levels := Nat.mod_lt _ side
    obtain ⟨rows, columns⟩ := index_below room ltRow ltColumn
    -- an index is its quotient times the side, and its remainder
    cases axis with
    | row => rw [rows, ← up .row, place, Nat.mul_comm, Nat.div_add_mod]
    | column => rw [columns, ← up .column, place, Nat.mul_comm, Nat.div_add_mod]

end Tile

end Geotile
