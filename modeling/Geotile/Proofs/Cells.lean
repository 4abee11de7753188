/-
**Tiles and cells name each other.**

A cell is turned into a tile by taking the bits of its row and of its column in turns, the highest
first, and a tile into a cell by sharing out the bits of its quadrants again.  Inside the grid the
two undo each other, and a cell outside the grid has no tile.  The lower bits of a row and a column
belong to the deeper levels, so one tile lies inside another exactly when the row and the column of
the first, without the bits of the levels in between, are those of the second.

On words this is one loop over the sixty-four bits of a path and another that fills two words of
thirty-two.  At the deepest level both fill them to the last bit; still no bit is lost at the top.

Main results:

* `Geotile.Tile.exists_ofCell_iff`, `Geotile.Tile.ofCell_eq_ok_iff` — which cells have a tile, and
  which one;
* `Geotile.Tile.contains_iff_shiftRight` — lying inside, by rows and columns;
* `Geotile.Raw.Path.deinterleave_eq`, `Geotile.Raw.Path.cell_eq` — a word as a row and a column;
* `Geotile.Tile.cells_name_tiles` — **tiles and cells name each other**.
-/

import Geotile.Proofs.RawReading

set_option autoImplicit false

namespace Geotile

/-! ### Cells of tiles -/

namespace Tile

/-- A tile is determined by its cell. -/
theorem cell_inj {t u : Tile} : t.cell = u.cell ↔ t = u := by
  constructor
  · intro same
    refine eq_iff_index.mpr ⟨congrArg Cell.zoom same, fun axis => ?_⟩
    cases axis with
    | row => exact congrArg Cell.row same
    | column => exact congrArg Cell.column same
  · intro same
    rw [same]

/-- The cell of a tile lies in the grid of its depth. -/
theorem inGrid_cell (t : Tile) : t.cell.inGrid = true :=
  Cell.inGrid_iff.mpr ⟨t.depth_le, index_lt .row t, index_lt .column t⟩

/-- A cell has a tile when it lies in a grid of at least one level. -/
theorem exists_ofCell_iff {c : Cell} :
    (∃ t, ofCell c = .ok t) ↔ 0 < c.zoom ∧ c.inGrid = true := by
  rw [ofCell]
  by_cases h : 0 < c.zoom ∧ c.inGrid = true
  · rw [dif_pos h]
    exact iff_of_true ⟨_, rfl⟩ h
  · rw [dif_neg h]
    refine iff_of_false ?_ h
    rintro ⟨t, ht⟩
    cases ht

theorem cell_of_ofCell {c : Cell} {t : Tile} (h : ofCell c = .ok t) : t.cell = c := by
  obtain ⟨pos, inGrid⟩ := exists_ofCell_iff.mp ⟨t, h⟩
  obtain ⟨-, row, column⟩ := Cell.inGrid_iff.mp inGrid
  obtain ⟨rows, columns⟩ := Cell.along_path row column
  rw [ofCell, dif_pos ⟨pos, inGrid⟩] at h
  cases h
  rw [cell, quadrants_ofQuadrants, rows, columns, depth_ofQuadrants, Cell.length_path]

/-- The tile of a cell is the one that fills the cell. -/
theorem ofCell_eq_ok_iff {c : Cell} {t : Tile} : ofCell c = .ok t ↔ t.cell = c := by
  constructor
  · exact cell_of_ofCell
  · intro fills
    subst fills
    obtain ⟨u, hu⟩ := exists_ofCell_iff.mpr ⟨t.depth_pos, t.inGrid_cell⟩
    rw [hu, cell_inj.mp (cell_of_ofCell hu)]

/-- A tile lies inside another exactly when the lower bits of its row and its column can be dropped
to give those of the other. -/
theorem contains_iff_shiftRight {t u : Tile} (le : t.depth ≤ u.depth) :
    t.contains u = true ↔
      u.cell.row >>> (u.depth - t.depth) = t.cell.row ∧
        u.cell.column >>> (u.depth - t.depth) = t.cell.column := by
  rw [contains_iff_index, Nat.shiftRight_eq_div_pow, Nat.shiftRight_eq_div_pow,
    ← axisLength_eq_two_pow]
  constructor
  · rintro ⟨-, up⟩
    exact ⟨up .row, up .column⟩
  · rintro ⟨row, column⟩
    refine ⟨le, fun axis => ?_⟩
    cases axis with
    | row => exact row
    | column => exact column

end Tile

/-! ### Cells in words -/

namespace Raw

open Checked

theorem Cell.raw_cell (c : Cell) : c.cell.raw = c := by
  rw [Cell.cell, Geotile.Cell.raw, UInt32.ofNat_toNat, UInt32.ofNat_toNat, UInt8.ofNat_toNat]

/-- The numbers of a cell inside a grid fit into words. -/
theorem Cell.cell_raw {c : Geotile.Cell} (inGrid : c.inGrid = true) : c.raw.cell = c := by
  obtain ⟨deep, row, column⟩ := Geotile.Cell.inGrid_iff.mp inGrid
  have wide := axisLength_le_halfWord deep
  have level := lt_byte_of_le_maxDepth deep
  rw [Geotile.Cell.raw, Cell.cell, UInt8.toNat_ofNat_of_lt' level,
    UInt32.toNat_ofNat_of_lt' (Nat.lt_of_lt_of_le row wide),
    UInt32.toNat_ofNat_of_lt' (Nat.lt_of_lt_of_le column wide)]

/-- A row or a column of half the width takes one more bit without losing any. -/
theorem double_or {n : Nat} (h : n < 2 ^ 31) (b : Bool) :
    double (.ofNat n) = .ok (.ofNat (2 * n)) ∧
      (UInt32.ofNat (2 * n) ||| .ofNat b.toNat) = .ofNat (2 * n + b.toNat) := by
  have bit := Bool.toNat_lt b
  have word : 2 * n + b.toNat < 2 ^ 32 := by omega
  have value : (UInt32.ofNat n).toNat = n :=
    UInt32.toNat_ofNat_of_lt' (show n < 2 ^ 32 by omega)
  have twice : (UInt32.ofNat (2 * n)).toNat = 2 * n :=
    UInt32.toNat_ofNat_of_lt' (show 2 * n < 2 ^ 32 by omega)
  constructor
  · rw [double, if_neg (by rw [value]; omega)]
    refine congrArg Except.ok (UInt32.toNat_inj.mp ?_)
    rw [UInt32.toNat_shiftLeft, value, twice, show (1 : UInt32).toNat % 32 = 1 from rfl,
      Nat.shiftLeft_eq]
    omega
  · refine UInt32.toNat_inj.mp ?_
    rw [UInt32.toNat_or, twice, UInt32.toNat_ofNat_of_lt' (show b.toNat < 2 ^ 32 by omega),
      UInt32.toNat_ofNat_of_lt' word]
    exact (Nat.two_pow_add_eq_or_of_lt (i := 1) bit n).symm

/-- The two bits of a quadrant, by its number. -/
theorem Path.bits_number (q : Quadrant) :
    ((UInt8.ofNat q.number).toUInt64 &&& halfBit .column).toUInt32
        = .ofNat (q.isFar .column).toNat ∧
      ∃ w, shiftRight ((UInt8.ofNat q.number).toUInt64 &&& halfBit .row) 1 = .ok w ∧
        w.toUInt32 = .ofNat (q.isFar .row).toNat := by
  cases q <;> exact ⟨rfl, _, rfl, rfl⟩

/-- Sharing out the bits of quadrants counts their rows and columns, and loses none as long as there
are no more than levels of the tree. -/
theorem Path.deinterleave_eq (qs : List Quadrant) {row column d : Nat}
    (room : d + qs.length ≤ maxDepth) (hr : row < axisLength d) (hc : column < axisLength d) :
    deinterleave (.ofNat row) (.ofNat column) (qs.map fun q => .ofNat q.number)
      = .ok (.ofNat (qs.foldl (fun n q => 2 * n + (q.isFar .row).toNat) row),
          .ofNat (qs.foldl (fun n q => 2 * n + (q.isFar .column).toNat) column)) := by
  induction qs generalizing row column d with
  | nil => rfl
  | cons q qs ih =>
      rw [List.length_cons] at room
      have wide := axisLength_le_halfWord (d := d + 1) (by omega)
      rw [axisLength_succ] at wide
      have bitRow := Bool.toNat_le (q.isFar .row)
      have bitColumn := Bool.toNat_le (q.isFar .column)
      obtain ⟨east, w, half, south⟩ := bits_number q
      obtain ⟨down, nextRow⟩ := double_or (n := row) (by omega) (q.isFar .row)
      obtain ⟨right, nextColumn⟩ := double_or (n := column) (by omega) (q.isFar .column)
      rw [List.map_cons, deinterleave, half, ok_bind, right, ok_bind, down, ok_bind, east, south,
        nextRow, nextColumn, ih (d := d + 1) (by omega) (by rw [axisLength_succ]; omega)
          (by rw [axisLength_succ]; omega)]
      rfl

/-- The cell that a path leads to is found without a fault. -/
theorem Path.cell_eq (t : Tile) : t.raw.cell = .ok t.cell.raw := by
  have room : 0 + t.quadrants.length ≤ maxDepth := by
    rw [Tile.length_quadrants, Nat.zero_add]
    exact t.depth_le
  have shared : deinterleave 0 0 (t.quadrants.map fun q => .ofNat q.number) = _ :=
    deinterleave_eq t.quadrants room (axisLength_pos 0) (axisLength_pos 0)
  rw [cell, digits_eq, ok_bind, shared]
  rfl

end Raw

/-- **Tiles and cells name each other, in keeping with the tree.**  The cell of a tile has that tile.
A cell of any row, column and zoom has a tile exactly when it lies inside the grid of a level from
one to thirty-two, and then the tile has that cell.  A tile lies inside one that is no deeper exactly
when shifting its row and its column right by the levels in between gives those of the other.  On
words both ways are gone without a fault and lead to the same: from the word of a tile to its row
and column and back, and from every row, column and zoom that words can hold. -/
theorem Tile.cells_name_tiles :
    (∀ t : Tile, ofCell t.cell = .ok t) ∧
    (∀ c : Cell,
      ((∃ t, ofCell c = .ok t) ↔
        1 ≤ c.zoom ∧ c.zoom ≤ 32 ∧ c.row < 2 ^ c.zoom ∧ c.column < 2 ^ c.zoom) ∧
      ∀ t, ofCell c = .ok t → t.cell = c) ∧
    (∀ t u : Tile, t.depth ≤ u.depth →
      (t.contains u = true ↔
        u.cell.row >>> (u.depth - t.depth) = t.cell.row ∧
          u.cell.column >>> (u.depth - t.depth) = t.cell.column)) ∧
    (∀ t : Tile, ∃ c : Raw.Cell,
      t.raw.cell = .ok c ∧ c.cell = t.cell ∧ Raw.Path.ofCell c = .ok (.ok t.raw)) ∧
    ∀ c : Raw.Cell, ∃ r, Raw.Path.ofCell c = .ok r ∧ r = (ofCell c.cell).map raw ∧
      ∀ p, r = .ok p → p.cell = .ok c := by
  refine ⟨fun t => ofCell_eq_ok_iff.mpr rfl, fun c => ⟨?_, fun t => cell_of_ofCell⟩,
    fun t u => contains_iff_shiftRight, fun t => ?_, fun c => ?_⟩
  · rw [exists_ofCell_iff, Cell.inGrid_iff, axisLength_eq_two_pow]
    exact Iff.rfl
  · have fits := Raw.Cell.cell_raw t.inGrid_cell
    refine ⟨t.cell.raw, Raw.Path.cell_eq t, fits, ?_⟩
    rw [Raw.Path.ofCell_eq, fits, ofCell_eq_ok_iff.mpr rfl]
    rfl
  · refine ⟨_, Raw.Path.ofCell_eq c, rfl, fun p hp => ?_⟩
    cases found : ofCell c.cell with
    | error e =>
        rw [found] at hp
        cases hp
    | ok t =>
        rw [found] at hp
        cases hp
        rw [Raw.Path.cell_eq, cell_of_ofCell found, Raw.Cell.raw_cell]

end Geotile
