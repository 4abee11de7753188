/-
**The tiles of a position lie inside each other.**

A position falls into one tile on every level, and each of these tiles is computed from the position
anew.  Still they are one path, begun earlier or later: the tile at a smaller depth has the first
digits of the tile at a greater one.  What makes it so is that scaling is exact.  A fraction of the
map that is scaled to a finer grid, cut off and divided by the ratio of the two grids is the
fraction scaled to the coarser grid and cut off; and where a fraction lies outside the map, the
first and the last row of the finer grid lie in the first and the last row of the coarser one.

This is a matter of rational fractions and their grids.  A double stands for one fraction, whatever
the grid, so a position has two of them, and its tile on a level fills the cell at these.

Main definitions:

* `Geotile.indexAt` — the row or the column at any fraction, below zero and above one as well;
* `Geotile.fractionOf` — the fraction that a double stands for.

Main results:

* `Geotile.scaledIndex_eq_indexAt`, `Geotile.gridIndex_eq_indexAt` — the integers that scale a
  fraction compute it, and so a double is scaled as its fraction is;
* `Geotile.scaledIndex_div`, `Geotile.indexAt_div` — a coarser grid divides the index;
* `Geotile.Tile.ofCell_coarser` — a cell of the coarser grid has the first levels of the path;
* `Geotile.Tile.atPosition_eq_ok_iff` — a position has the tile of the cell at its two fractions;
* `Geotile.Tile.depths_agree` — **a position's tile at a smaller depth has the first digits of its
  tile at a greater one**.
-/

import Geotile.Proofs.Cells
import Geotile.Proofs.DigitOrder
import Geotile.Proofs.Following
import Mathlib.Data.Rat.Floor
import Mathlib.Order.Lattice

set_option autoImplicit false

namespace Geotile

/-! ### Scaling -/

/-- The row or the column at a fraction of the map: the fraction scaled to the grid, cut off to a
whole number, and moved into the grid. -/
def indexAt (x : ℚ) (zoom : Nat) : Nat := (min (max ⌊x * 2 ^ zoom⌋ 0) (2 ^ zoom - 1)).toNat

theorem scaledIndex_eq_indexAt (num : Int) (den zoom : Nat) :
    scaledIndex num den zoom = indexAt (num / den) zoom := by
  have scaled : (num / den * 2 ^ zoom : ℚ) = (num * 2 ^ zoom : Int) / (den : Nat) := by
    rw [div_mul_eq_mul_div]
    norm_cast
  have side : ((axisLength zoom : Nat) : Int) = 2 ^ zoom := by
    rw [axisLength_eq_two_pow]
    norm_cast
  have pos := axisLength_pos zoom
  rw [indexAt, scaled, Rat.floor_intCast_div_natCast, scaledIndex, side, ← side]
  omega

theorem toNat_ediv (n : Int) (k : Nat) : (n / k).toNat = n.toNat / k := by
  cases n with
  | ofNat n => rfl
  | negSucc n =>
      have below : Int.negSucc n / k ≤ 0 := by
        cases k with
        | zero => exact Int.le_of_eq (Int.ediv_zero _)
        | succ k =>
            exact Int.le_of_lt (Int.ediv_neg_of_neg_of_pos (Int.negSucc_lt_zero n) (by omega))
      rw [Int.toNat_of_nonpos below, Int.toNat_negSucc, Nat.zero_div]

/-- The last row of a finer grid lies in the last row of a coarser one. -/
theorem last_div (d k : Nat) : (axisLength (d + k) - 1) / axisLength k = axisLength d - 1 := by
  have room := Nat.mul_pos (axisLength_pos k) (axisLength_pos d)
  rw [axisLength_add, Nat.mul_comm, Nat.mul_sub_div 0 _ _ room, Nat.zero_div]

/-- The index in a coarser grid is that in a finer one divided by the ratio of the two. -/
theorem scaledIndex_div (num : Int) (den d k : Nat) :
    scaledIndex num den (d + k) / axisLength k = scaledIndex num den d := by
  have wide : (0 : Int) < axisLength k := Int.natCast_pos.mpr (axisLength_pos k)
  have monotone : Monotone fun n : Nat => n / axisLength k := fun _ _ le => Nat.div_le_div_right le
  have quotient : num * axisLength (d + k) / den / axisLength k = num * axisLength d / den := by
    rw [axisLength_add, Nat.cast_mul, ← Int.mul_assoc,
      Int.ediv_ediv_of_nonneg (Int.natCast_nonneg den), Int.mul_ediv_mul_of_pos_left _ _ wide]
  rw [scaledIndex, monotone.map_min, last_div, ← toNat_ediv, quotient]
  rfl

theorem indexAt_lt (x : ℚ) (zoom : Nat) : indexAt x zoom < axisLength zoom := by
  rw [← Rat.num_div_den x, ← scaledIndex_eq_indexAt]
  exact scaledIndex_lt _ _ _

theorem indexAt_div (x : ℚ) (d k : Nat) : indexAt x (d + k) / axisLength k = indexAt x d := by
  rw [← Rat.num_div_den x, ← scaledIndex_eq_indexAt, ← scaledIndex_eq_indexAt]
  exact scaledIndex_div _ _ d k

/-! ### Fractions given as doubles -/

/-- The fraction of the map that a double stands for: what is not a number stands for nothing, and
infinity for the whole map. -/
def fractionOf (x : Float) : ℚ :=
  match Binary64.quanta? x with
  | some q => q / Binary64.one
  | none => if 0.0 < x then 1 else 0

theorem indexAt_zero (zoom : Nat) : indexAt 0 zoom = 0 := by
  rw [← div_one (0 : ℚ)]
  exact (scaledIndex_eq_indexAt 0 1 zoom).symm.trans (by simp [scaledIndex])

theorem indexAt_one (zoom : Nat) : indexAt 1 zoom = axisLength zoom - 1 := by
  rw [← div_one (1 : ℚ)]
  exact (scaledIndex_eq_indexAt 1 1 zoom).symm.trans (by simp [scaledIndex])

/-- A double is scaled as its fraction is, at every zoom. -/
theorem gridIndex_eq_indexAt (x : Float) (zoom : Nat) :
    gridIndex x zoom = indexAt (fractionOf x) zoom := by
  rw [gridIndex, fractionOf]
  cases Binary64.quanta? x with
  | some q => exact scaledIndex_eq_indexAt q Binary64.one zoom
  | none =>
      dsimp only
      split
      · exact (indexAt_one zoom).symm
      · exact (indexAt_zero zoom).symm

/-! ### Tiles on two levels -/

namespace Tile

/-- The cell of a coarser grid around a cell has the tile with the first levels of its path. -/
theorem ofCell_coarser {row column d k : Nat} (pos : 0 < d) (le : d + k ≤ maxDepth)
    (hr : row < axisLength (d + k)) (hc : column < axisLength (d + k)) :
    ∃ (t : Tile) (reach : d ≤ t.depth), ofCell ⟨row, column, d + k⟩ = .ok t ∧
      ofCell ⟨row / axisLength k, column / axisLength k, d⟩ = .ok (t.ancestor d pos reach) := by
  have inGrid : (⟨row, column, d + k⟩ : Cell).inGrid = true := Cell.inGrid_iff.mpr ⟨le, hr, hc⟩
  obtain ⟨t, found⟩ := exists_ofCell_iff.mpr ⟨Nat.lt_of_lt_of_le pos (Nat.le_add_right d k), inGrid⟩
  have cell := cell_of_ofCell found
  have depth : t.depth = d + k := congrArg Cell.zoom cell
  have reach : d ≤ t.depth := depth ▸ Nat.le_add_right d k
  have up := fun axis => index_ancestor axis t d pos reach
  rw [depth, Nat.add_sub_cancel_left] at up
  have rows : t.index .row = row := congrArg Cell.row cell
  have columns : t.index .column = column := congrArg Cell.column cell
  refine ⟨t, reach, found, ofCell_eq_ok_iff.mpr ?_⟩
  show (⟨(t.ancestor d pos reach).index .row, (t.ancestor d pos reach).index .column, d⟩ : Cell) = _
  rw [up, up, rows, columns]

/-- At two fractions of the map there is a tile on every level, and on a level further up it has the
first levels of the path. -/
theorem exists_ofCell_indexAt {d k : Nat} (pos : 0 < d) (le : d + k ≤ maxDepth) (x y : ℚ) :
    ∃ (t : Tile) (reach : d ≤ t.depth),
      ofCell ⟨indexAt y (d + k), indexAt x (d + k), d + k⟩ = .ok t ∧
      ofCell ⟨indexAt y d, indexAt x d, d⟩ = .ok (t.ancestor d pos reach) := by
  rw [← indexAt_div y d k, ← indexAt_div x d k]
  exact ofCell_coarser pos le (indexAt_lt y (d + k)) (indexAt_lt x (d + k))

/-- A finite position has, on every level, the tile of the cell at its two fractions. -/
theorem atPosition_eq_ok_iff {p : Position} (finite : p.isFinite = true) {d : Nat} {t : Tile} :
    atPosition p d = .ok t ↔
      ofCell ⟨indexAt (fractionOf p.northFraction) d, indexAt (fractionOf p.westFraction) d, d⟩
        = .ok t := by
  rw [← gridIndex_eq_indexAt, ← gridIndex_eq_indexAt]
  by_cases level : 0 < d ∧ d ≤ maxDepth
  · obtain ⟨c, u, cell, encoded, located, -⟩ := exists_atPosition finite level.1 level.2
    rw [Position.eq_of_cell cell, Position.row, Position.column] at encoded
    rw [located, encoded, Except.ok.injEq, Except.ok.injEq]
  · have outside : d = 0 ∨ maxDepth < d := by omega
    have beyond : atPosition p d = .error (.badZoom d) := by
      rw [atPosition, if_neg (by simp [finite]), dif_pos outside]
    refine iff_of_false (by simp [beyond]) fun encoded => level ?_
    obtain ⟨pos, inGrid⟩ := exists_ofCell_iff.mp ⟨t, encoded⟩
    exact ⟨pos, (Cell.inGrid_iff.mp inGrid).1⟩

theorem raw_atPosition {p : Position} {d : Nat} (le : d ≤ maxDepth) {t : Tile}
    (h : atPosition p d = .ok t) : Raw.Path.atPosition p (.ofNat d) = .ok (.ok (.ok t.raw)) := by
  rw [Raw.Path.atPosition_eq, UInt8.toNat_ofNat_of_lt' (lt_byte_of_le_maxDepth le), h]
  rfl

end Tile

/-- A tracker takes the tile of a position at the depth of the speed. -/
theorem Tracker.tile_receive {tr : Tracker} {p : Position} {speed : Float} {t : Tile}
    (h : Tile.atPosition p (tr.settings.depthForSpeed speed) = .ok t) :
    (tr.receive p speed).2.tile = some t := by
  simp [receive, Area.aroundPosition, h, Except.map, replace]

/-- **A position's tile at a smaller depth has the first digits of its tile at a greater one.**
This holds of the tiles at any fractions of the map, which may lie outside of it.  A finite position
has two fractions that do not depend on the level, and its tile on every level is the one at these;
so it holds of the tiles of every finite position, on words as well.  A tracker at the smaller depth
is therefore on a tile in which whatever another one sends from that position at the greater depth
lies. -/
theorem Tile.depths_agree {d e : Nat} (pos : 1 ≤ d) (le : d ≤ e) (deep : e ≤ 32) :
    (∀ x y : ℚ, ∃ t u : Tile,
      ofCell ⟨indexAt y e, indexAt x e, e⟩ = .ok t ∧
      ofCell ⟨indexAt y d, indexAt x d, d⟩ = .ok u ∧
      u.text.toList = t.text.toList.take d ∧ t.raw.cut (.ofNat d) = .ok u.raw) ∧
    ∀ p : Position, p.isFinite = true →
      (∀ (z : Nat) (v : Tile), atPosition p z = .ok v ↔
        ofCell ⟨indexAt (fractionOf p.northFraction) z, indexAt (fractionOf p.westFraction) z, z⟩
          = .ok v) ∧
      ∃ t u : Tile,
        atPosition p e = .ok t ∧ atPosition p d = .ok u ∧
        u.text.toList = t.text.toList.take d ∧ t.raw.cut (.ofNat d) = .ok u.raw ∧
        Raw.Path.atPosition p (.ofNat e) = .ok (.ok (.ok t.raw)) ∧
        Raw.Path.atPosition p (.ofNat d) = .ok (.ok (.ok u.raw)) ∧
        u.contains t = true ∧
        ∀ (sender tracker : Tracker) (v w : Float),
          sender.settings.depthForSpeed v = e → tracker.settings.depthForSpeed w = d →
          (sender.receive p v).2.tile = some t ∧ (tracker.receive p w).2.tile = some u := by
  obtain ⟨k, rfl⟩ := Nat.exists_eq_add_of_le le
  constructor
  · intro x y
    obtain ⟨t, reach, finer, coarser⟩ := exists_ofCell_indexAt pos deep x y
    exact ⟨t, _, finer, coarser, toList_text_ancestor .., Raw.Path.cut_eq t pos reach⟩
  · intro p finite
    obtain ⟨t, reach, finer, coarser⟩ := exists_ofCell_indexAt pos deep
      (fractionOf p.westFraction) (fractionOf p.northFraction)
    have located := (atPosition_eq_ok_iff finite).mpr finer
    have above := (atPosition_eq_ok_iff finite).mpr coarser
    refine ⟨fun z v => atPosition_eq_ok_iff finite, t, _, located, above,
      toList_text_ancestor .., Raw.Path.cut_eq t pos reach, raw_atPosition deep located,
      raw_atPosition (Nat.le_trans le deep) above, ancestor_contains .., ?_⟩
    intro sender tracker v w greater smaller
    exact ⟨Tracker.tile_receive (greater ▸ located), Tracker.tile_receive (smaller ▸ above)⟩

/-- West of the map and within its height, and at a position in the north, at depths four and
two. -/
theorem Tile.depths_agree_west_of_map :
    1 ≤ 2 ∧ 2 ≤ 4 ∧ 4 ≤ 32 ∧ (∃ t u : Tile,
      ofCell ⟨indexAt (5 / 7) 4, indexAt (-1 / 3) 4, 4⟩ = .ok t ∧
      ofCell ⟨indexAt (5 / 7) 2, indexAt (-1 / 3) 2, 2⟩ = .ok u ∧
      u.text.toList = t.text.toList.take 2 ∧ t.text = "2022") ∧
      ∃ t u : Tile, atPosition ⟨43.6, 1.44⟩ 4 = .ok t ∧ atPosition ⟨43.6, 1.44⟩ 2 = .ok u ∧
        u.text.toList = t.text.toList.take 2 ∧ u.contains t = true ∧
        ofCell ⟨indexAt (fractionOf (Position.northFraction ⟨43.6, 1.44⟩)) 4, 8, 4⟩ = .ok t := by
  have agree := depths_agree (d := 2) (e := 4) (by decide) (by decide) (by decide)
  obtain ⟨t, u, finer, coarser, digits, -⟩ := agree.1 (-1 / 3) (5 / 7)
  obtain ⟨filled, t', u', located, above, digits', -, -, -, inside, -⟩ :=
    agree.2 ⟨43.6, 1.44⟩ (by decide)
  have column : indexAt (fractionOf (Position.westFraction ⟨43.6, 1.44⟩)) 4 = 8 := by
    rw [← gridIndex_eq_indexAt]
    decide +kernel
  refine ⟨by decide, by decide, by decide, ⟨t, u, finer, coarser, digits, ?_⟩,
    t', u', located, above, digits', inside, column ▸ (filled 4 t').mp located⟩
  have cell : (ofCell ⟨indexAt (5 / 7) 4, indexAt (-1 / 3) 4, 4⟩).map text = .ok "2022" := by
    decide +kernel
  rw [finer] at cell
  exact Except.ok.inj cell

end Geotile
