/-
**Tiles as cells of a grid.**

At each level the two halves of a quadrant are one binary digit of the row and one of the column,
so a path of `d` quadrants is a row and a column of the grid at zoom `d`.

Main definitions:

* `Geotile.Tile.along`, `Geotile.Tile.cell` — the number a path counts on an axis, and the cell of
  a tile;
* `Geotile.Cell.path`, `Geotile.Tile.ofCell` — the path to a cell, and the tile of a cell.

Main results:

* `Geotile.Cell.path_cell`, `Geotile.Cell.along_path` — the two directions are inverse to each
  other inside the grid.
-/

import Geotile.Tile.Text

set_option autoImplicit false

namespace Geotile

/-! ### From tiles to cells -/

/-- The number that a path counts on one axis, a level being one binary digit. -/
def Tile.along (axis : Axis) (qs : List Quadrant) : Nat :=
  qs.foldl (fun n q => 2 * n + (q.isFar axis).toNat) 0

/-- The cell that a tile fills. -/
def Tile.cell (t : Tile) : Cell where
  row := along .row t.quadrants
  column := along .column t.quadrants
  zoom := t.depth

theorem Tile.along_append_singleton (axis : Axis) (qs : List Quadrant) (q : Quadrant) :
    along axis (qs ++ [q]) = 2 * along axis qs + (q.isFar axis).toNat := by
  simp [along]

/-! ### From cells to tiles -/

/-- The path of a given length to a row and a column. -/
def Cell.path : (length row column : Nat) → List Quadrant
  | 0, _, _ => []
  | n + 1, row, column =>
    path n (row / 2) (column / 2) ++ [.ofHalves (row % 2 == 1) (column % 2 == 1)]

@[simp] theorem Cell.length_path (n row column : Nat) : (path n row column).length = n := by
  induction n generalizing row column with
  | zero => rfl
  | succ n ih => simp [path, ih]

/-- The tile that fills a cell of a grid of at least one level. -/
def Tile.ofCell (c : Cell) : Except PathError Tile :=
  if h : 0 < c.zoom ∧ c.inGrid = true then
    .ok <| ofQuadrants (Cell.path c.zoom c.row c.column) (by simpa using h.1)
      (by simpa using (Cell.inGrid_iff.mp h.2).1)
  else .error (.outsideGrid c)

/-! ### The two directions -/

theorem toNat_mod_two_beq (n : Nat) : (n % 2 == 1).toNat = n % 2 := by
  rcases Nat.mod_two_eq_zero_or_one n with h | h <;> simp [h]

/-- The path to a cell counts its row and its column, when they lie inside the grid. -/
theorem Cell.along_path {n row column : Nat} (hr : row < axisLength n)
    (hc : column < axisLength n) :
    Tile.along .row (path n row column) = row ∧
      Tile.along .column (path n row column) = column := by
  induction n generalizing row column with
  | zero =>
      simp only [axisLength_zero] at hr hc
      simp [path, Tile.along]
      omega
  | succ n ih =>
      rw [axisLength_succ] at hr hc
      have ⟨rows, columns⟩ := @ih (row / 2) (column / 2) (by omega) (by omega)
      constructor
      · rw [path, Tile.along_append_singleton, rows, Quadrant.isFar_row_ofHalves,
          toNat_mod_two_beq]
        omega
      · rw [path, Tile.along_append_singleton, columns, Quadrant.isFar_column_ofHalves,
          toNat_mod_two_beq]
        omega

theorem two_mul_add_toNat_mod (n : Nat) (b : Bool) : ((2 * n + b.toNat) % 2 == 1) = b := by
  cases b
  · simp
  · simp only [Bool.toNat_true, beq_iff_eq]
    omega

/-- The path to the cell that a path counts is that path. -/
theorem Cell.path_along (qs : List Quadrant) :
    path qs.length (Tile.along .row qs) (Tile.along .column qs) = qs := by
  -- the path to a cell is built from its deepest level, so take the last quadrant off
  have snoc : ∀ n (qs : List Quadrant), qs.length = n →
      path n (Tile.along .row qs) (Tile.along .column qs) = qs := by
    intro n
    induction n with
    | zero =>
        intro qs h
        simp [path, List.eq_nil_of_length_eq_zero h]
    | succ n ih =>
        intro qs h
        have nonempty : qs ≠ [] := by
          rintro rfl
          simp at h
        obtain ⟨init, last, rfl⟩ : ∃ init last, qs = init ++ [last] :=
          ⟨qs.dropLast, qs.getLast nonempty, (List.dropLast_concat_getLast nonempty).symm⟩
        have length : init.length = n := by simpa using h
        rw [Tile.along_append_singleton, Tile.along_append_singleton, path,
          two_mul_add_toNat_mod, two_mul_add_toNat_mod, Quadrant.ofHalves_isFar]
        have halfRow : (2 * Tile.along .row init + (last.isFar .row).toNat) / 2
            = Tile.along .row init := by
          have := Bool.toNat_le (last.isFar .row)
          omega
        have halfColumn : (2 * Tile.along .column init + (last.isFar .column).toNat) / 2
            = Tile.along .column init := by
          have := Bool.toNat_le (last.isFar .column)
          omega
        rw [halfRow, halfColumn, ih init length]
  exact snoc _ qs rfl

end Geotile
