/-
**The tiles inside a tile.**

A tile is a square grid of smaller tiles, of side `axisLength k` when they lie `k` levels further
down.  Going down level by level through all quadrants reaches every one of them; a row and a
column of the grid name a single one; and a first or last row or column is the edge that the tile
shares with the tile next to it.

Main definitions:

* `Geotile.Tile.descendants` — all tiles a number of levels further down;
* `Geotile.Tile.below` — the one at a row and a column;
* `Geotile.Tile.edge` — those that touch the tile from which a heading leads here.

Main results:

* `Geotile.Tile.length_descendants` — there are `tileCount k` of them `k` levels down;
* `Geotile.Tile.quadrants_below` — a row and a column continue the path of the tile.
-/

import Geotile.Heading
import Geotile.Tile.Cell

set_option autoImplicit false

namespace Geotile.Tile

/-! ### All of them -/

/-- All tiles a number of levels below a tile, in order. -/
def descendants : (levels : Nat) → (t : Tile) → t.depth + levels ≤ maxDepth → List Tile
  | 0, t, _ => [t]
  | k + 1, t, room =>
    Quadrant.all.flatMap fun q =>
      descendants k (t.child q (by omega)) (by rw [depth_child]; omega)

/-- A tile has `tileCount k` descendants `k` levels further down. -/
theorem length_descendants {levels : Nat} {t : Tile} (room : t.depth + levels ≤ maxDepth) :
    (t.descendants levels room).length = tileCount levels := by
  induction levels generalizing t with
  | zero => rfl
  | succ k ih =>
      have each : ∀ q, (descendants k (t.child q (by omega))
          (by rw [depth_child]; omega)).length = tileCount k := fun q => ih _
      rw [descendants, List.length_flatMap, List.map_congr_left fun q _ => each q,
        List.map_const', List.sum_replicate_nat, Quadrant.length_all, tileCount_succ]

/-! ### One of them -/

/-- The tile at a row and a column of the grid a number of levels below a tile. -/
def below (t : Tile) (levels row column : Nat) (room : t.depth + levels ≤ maxDepth) : Tile where
  code := (Cell.path levels row column).foldl Packed.push t.code
  depth := t.depth + levels
  depth_pos := Nat.lt_of_lt_of_le t.depth_pos (Nat.le_add_right _ _)
  depth_le := room
  code_lt := by
    have fits := Packed.toNat_foldl_push_lt (Cell.path levels row column) (w := t.code)
      (d := t.depth) (by simpa using room) t.code_lt
    simpa using fits

@[simp] theorem depth_below (t : Tile) (levels row column : Nat)
    (room : t.depth + levels ≤ maxDepth) :
    (t.below levels row column room).depth = t.depth + levels := rfl

/-- A row and a column continue the path of the tile. -/
@[simp] theorem quadrants_below (t : Tile) (levels row column : Nat)
    (room : t.depth + levels ≤ maxDepth) :
    (t.below levels row column room).quadrants
      = t.quadrants ++ Cell.path levels row column := by
  have unpacked := Packed.unpack_foldl_push (Cell.path levels row column) (w := t.code)
    (d := t.depth) (by simpa using room) t.code_lt
  rwa [Cell.length_path] at unpacked

/-! ### Those along an edge -/

/-- The tiles a number of levels below the tile that a heading leads to, as far as they touch the
tile left behind: a column or a row along the shared edge, or the one at the shared corner. -/
def edge (t : Tile) (h : Heading) (levels : Nat) (room : t.depth + levels ≤ maxDepth) :
    List Tile :=
  (h.rowShift.strip (axisLength levels)).flatMap fun row =>
    (h.columnShift.strip (axisLength levels)).map fun column => t.below levels row column room

end Geotile.Tile
