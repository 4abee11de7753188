/-
**Where an area borders on a tile.**

An area borders on a tile that it does not cover and that is next to a covered one.  The statement
is about tiles of one depth; this module moves it between depths.  A tile inside which the area
borders on a smaller one is itself bordered on, or else the bordering takes place inside it.  And a
tile that is bordered on holds, on every deeper level, a tile that is: along the shared edge if that
is free, and otherwise somewhere inside, since going from a covered place of a square to an
uncovered one, first along a row and then along a column, the border has to be crossed.

The second half needs an uncovered place inside the tile, which a canonical area leaves in every
tile that it does not cover.

Main definitions:

* `Geotile.Area.Borders` — the area borders on a tile.

Main results:

* `Geotile.Area.exists_border_inside` — a tile with a covered and an uncovered place inside is
  crossed by the border;
* `Geotile.Area.exists_free_neighbour`, `Geotile.Area.borders_above` — bordering seen from a less
  deep level;
* `Geotile.Area.Canonical.exists_border` — bordering seen on the deepest level.
-/

import Geotile.Proofs.SmallestForm
import Geotile.Proofs.Touching

set_option autoImplicit false

namespace Geotile.Area

/-- The area does not cover the tile, but a tile next to it. -/
def Borders (a : Area) (t : Tile) : Prop :=
  a.covers t = false ∧ ∃ h u, t.neighbour h = some u ∧ a.covers u = true

/-! ### Crossing the border -/

/-- A property that differs at the two ends of a stretch changes from one number to the next. -/
theorem exists_change {P : Nat → Prop} {i j : Nat} (le : i ≤ j) (differ : ¬ (P i ↔ P j)) :
    ∃ k, i ≤ k ∧ k < j ∧ ¬ (P k ↔ P (k + 1)) := by
  induction j, le using Nat.le_induction with
  | base => exact absurd Iff.rfl differ
  | succ j le ih =>
      by_cases same : P i ↔ P j
      · exact ⟨j, le, Nat.lt_succ_self j, fun next => differ (same.trans next)⟩
      · obtain ⟨k, low, high, change⟩ := ih same
        exact ⟨k, low, Nat.lt_succ_of_lt high, change⟩

/-- The same without saying which end comes first. -/
theorem exists_change_between {P : Nat → Prop} {i j : Nat} (differ : ¬ (P i ↔ P j)) :
    ∃ k, min i j ≤ k ∧ k < max i j ∧ ¬ (P k ↔ P (k + 1)) := by
  rcases Nat.le_total i j with le | le
  · rw [Nat.min_eq_left le, Nat.max_eq_right le]
    exact exists_change le differ
  · rw [Nat.min_eq_right le, Nat.max_eq_left le]
    exact exists_change le fun same => differ same.symm

/-- Of two neighbours that are not both covered or both uncovered, one is bordered on. -/
theorem borders_of_differ {a : Area} {t u : Tile} {h : Heading} (n : t.neighbour h = some u)
    (differ : ¬ (a.covers t = true ↔ a.covers u = true)) : a.Borders t ∨ a.Borders u := by
  cases ht : a.covers t with
  | false =>
      cases hu : a.covers u with
      | false => exact absurd (by simp [ht, hu]) differ
      | true => exact .inl ⟨ht, h, u, n, hu⟩
  | true =>
      cases hu : a.covers u with
      | false => exact .inr ⟨hu, h.opposite, t, Tile.neighbour_opposite n, ht⟩
      | true => exact absurd (by simp [ht, hu]) differ

/-- Along a line of tiles, each next to the one before, the border lies somewhere between a covered
one and an uncovered one. -/
theorem exists_border_along {a : Area} {h : Heading} (line : Nat → Tile) {i j : Nat}
    (next : ∀ k, k < max i j → (line k).neighbour h = some (line (k + 1)))
    (differ : ¬ (a.covers (line i) = true ↔ a.covers (line j) = true)) :
    ∃ k, min i j ≤ k ∧ k ≤ max i j ∧ a.Borders (line k) := by
  obtain ⟨k, low, high, change⟩ :=
    exists_change_between (P := fun k => a.covers (line k) = true) differ
  rcases borders_of_differ (next k high) change with here | there
  · exact ⟨k, low, Nat.le_of_lt high, here⟩
  · exact ⟨k + 1, Nat.le_succ_of_le low, high, there⟩

end Geotile.Area

namespace Geotile.Tile

/-! ### Rectangles of tiles -/

variable {d : Nat} {pos : 0 < d} {le : d ≤ maxDepth}

theorem neighbour_south {row column : Nat} (hr : row + 1 < axisLength d)
    (hc : column < axisLength d) :
    (ofIndices d row column pos le).neighbour .south
      = some (ofIndices d (row + 1) column pos le) := by
  obtain ⟨r, c⟩ := index_ofIndices pos le (Nat.lt_of_succ_lt hr) hc
  obtain ⟨r', c'⟩ := index_ofIndices pos le hr hc
  refine neighbour_eq_some_iff.mpr ⟨by simp, ?_, ?_⟩
  · rw [r, r']
    rfl
  · rw [c, c', depth_ofIndices, Heading.columnShift, Shift.offset, Int.add_zero,
      Int.emod_eq_of_lt (by omega) (by omega)]

theorem neighbour_east {row column : Nat} (hr : row < axisLength d)
    (hc : column + 1 < axisLength d) :
    (ofIndices d row column pos le).neighbour .east
      = some (ofIndices d row (column + 1) pos le) := by
  obtain ⟨r, c⟩ := index_ofIndices pos le hr (Nat.lt_of_succ_lt hc)
  obtain ⟨r', c'⟩ := index_ofIndices pos le hr hc
  refine neighbour_eq_some_iff.mpr ⟨by simp, ?_, ?_⟩
  · rw [r, r', Heading.rowShift, Shift.offset, Int.add_zero]
  · rw [c, c', depth_ofIndices, Heading.columnShift, Shift.offset,
      Int.emod_eq_of_lt (by omega) (by omega), Int.natCast_succ]

/-- What lies between two numbers of one block lies in that block. -/
theorem div_between {i j k side q : Nat} (hi : i / side = q) (hj : j / side = q)
    (low : min i j ≤ k) (high : k ≤ max i j) : k / side = q := by
  have above := Nat.div_le_div_right (c := side) low
  have below := Nat.div_le_div_right (c := side) high
  rcases Nat.le_total i j with le | le
  · rw [Nat.min_eq_left le] at above
    rw [Nat.max_eq_right le] at below
    omega
  · rw [Nat.min_eq_right le] at above
    rw [Nat.max_eq_left le] at below
    omega

/-- A tile that contains two tiles of one depth contains the rectangle between them. -/
theorem contains_ofIndices {t x y : Tile} (hx : x.depth = d) (hy : y.depth = d)
    (insideX : t.contains x = true) (insideY : t.contains y = true) {row column : Nat}
    (rowLow : min (x.index .row) (y.index .row) ≤ row)
    (rowHigh : row ≤ max (x.index .row) (y.index .row))
    (columnLow : min (x.index .column) (y.index .column) ≤ column)
    (columnHigh : column ≤ max (x.index .column) (y.index .column)) :
    t.contains (ofIndices d row column pos le) = true := by
  subst hx
  obtain ⟨deep, upX⟩ := contains_iff_index.mp insideX
  obtain ⟨-, upY⟩ := contains_iff_index.mp insideY
  have rowX := index_lt .row x
  have rowY := index_lt .row y
  have columnX := index_lt .column x
  have columnY := index_lt .column y
  rw [hy] at upY rowY columnY
  obtain ⟨r, c⟩ := index_ofIndices pos le (show row < axisLength x.depth by omega)
    (show column < axisLength x.depth by omega)
  refine contains_iff_index.mpr ⟨by simpa using deep, fun axis => ?_⟩
  rw [depth_ofIndices]
  cases axis with
  | row =>
      rw [r]
      exact div_between (upX .row) (upY .row) rowLow rowHigh
  | column =>
      rw [c]
      exact div_between (upX .column) (upY .column) columnLow columnHigh

end Geotile.Tile

namespace Geotile.Area

/-- A tile that contains two tiles of one depth, one of them covered and one not, is crossed by the
border. -/
theorem exists_border_inside {a : Area} {t x y : Tile} (depth : y.depth = x.depth)
    (insideX : t.contains x = true) (insideY : t.contains y = true)
    (covered : a.covers x = true) (free : a.covers y = false) :
    ∃ c, c.depth = x.depth ∧ t.contains c = true ∧ a.Borders c := by
  have rowX := Tile.index_lt .row x
  have columnX := Tile.index_lt .column x
  have rowY := Tile.index_lt .row y
  have columnY := Tile.index_lt .column y
  rw [depth] at rowY columnY
  have atX := Tile.ofIndices_index rfl x.depth_pos x.depth_le
  have atY := Tile.ofIndices_index depth x.depth_pos x.depth_le
  -- along the row of `x` to the column of `y`, and from there along that column to `y`
  by_cases corner : a.covers (Tile.ofIndices x.depth (x.index .row) (y.index .column)
      x.depth_pos x.depth_le) = true
  · obtain ⟨k, low, high, here⟩ := exists_border_along (a := a) (h := .south)
      (fun k => Tile.ofIndices x.depth k (y.index .column) x.depth_pos x.depth_le)
      (i := x.index .row) (j := y.index .row)
      (fun k hk => Tile.neighbour_south (by omega) columnY) (by simp [corner, atY, free])
    exact ⟨_, Tile.depth_ofIndices .., Tile.contains_ofIndices rfl depth insideX insideY low high
      (Nat.min_le_right ..) (Nat.le_max_right ..), here⟩
  · obtain ⟨k, low, high, here⟩ := exists_border_along (a := a) (h := .east)
      (fun k => Tile.ofIndices x.depth (x.index .row) k x.depth_pos x.depth_le)
      (i := x.index .column) (j := y.index .column)
      (fun k hk => Tile.neighbour_east rowX (by omega)) (by simp [corner, atX, covered])
    exact ⟨_, Tile.depth_ofIndices .., Tile.contains_ofIndices rfl depth insideX insideY
      (Nat.min_le_left ..) (Nat.le_max_left ..) low high, here⟩

/-! ### Bordering on other levels -/

/-- A covered tile that contains the neighbour of a free one has a free neighbour around that one,
which lies along the shared edge. -/
theorem exists_free_neighbour {a : Area} {c u w : Tile} {h : Heading} (free : a.covers c = false)
    (next : c.neighbour h = some u) (covered : a.covers w = true) (around : w.contains u = true) :
    ∃ h' n, w.neighbour h' = some n ∧ n.contains c = true ∧ a.covers n = false ∧
      c.OnEdge h' (c.depth - n.depth) := by
  have le : w.depth ≤ c.depth := by
    rw [← Tile.depth_of_neighbour next]
    exact Tile.depth_le_of_contains around
  have inside := Tile.ancestor_contains c w.depth w.depth_pos le
  have freeAbove := free_of_contains free inside
  have apart : c.ancestor w.depth w.depth_pos le ≠ w := by
    intro same
    rw [same, covered] at freeAbove
    cases freeAbove
  obtain ⟨h', hn, edge⟩ := Tile.exists_neighbour_above next inside around rfl apart
  exact ⟨h', _, hn, inside, freeAbove, edge⟩

/-- A tile that holds a smaller one bordered on is bordered on itself, unless it is larger than the
member that the smaller one lies next to. -/
theorem borders_above {a : Area} {c u p m : Tile} {h : Heading} (free : a.covers c = false)
    (next : c.neighbour h = some u) (inside : p.contains c = true) (mem : m ∈ a)
    (around : m.contains u = true) (le : m.depth ≤ p.depth) : a.Borders p := by
  have deep : p.depth ≤ u.depth := by
    rw [Tile.depth_of_neighbour next]
    exact Tile.depth_le_of_contains inside
  -- the tile around `u` on the level of `p` lies inside the member
  have aroundU := Tile.ancestor_contains u p.depth p.depth_pos deep
  have covered := covers_iff.mpr ⟨m, mem, Tile.contains_of_common around aroundU le⟩
  obtain ⟨h', n, hn, within, freeN, -⟩ := exists_free_neighbour free next covered aroundU
  have level := Tile.depth_of_neighbour hn
  rw [Tile.depth_ancestor] at level
  have same : p = n := by
    refine Tile.eq_of_contains_of_depth_le ?_ (Nat.le_of_eq level)
    exact Tile.contains_of_common inside within (Nat.le_of_eq level.symm)
  rw [same]
  exact ⟨freeN, h'.opposite, _, Tile.neighbour_opposite hn, covered⟩

/-- In a canonical area a tile that is bordered on holds one of the deepest level that is. -/
theorem Canonical.exists_border {a : Area} (ha : a.Canonical) {t : Tile} (h : a.Borders t) :
    ∃ c, c.depth = maxDepth ∧ t.contains c = true ∧ a.Borders c := by
  obtain ⟨free, heading, u, n, covered⟩ := h
  have room := Nat.le_of_eq (Nat.add_sub_cancel' t.depth_le)
  -- a deepest tile along the edge towards `u` has a covered one next to it
  obtain ⟨x, hx⟩ := Tile.exists_mem_edge t heading.opposite room
  obtain ⟨depthX, insideX, edge⟩ := (Tile.mem_edge_iff_onEdge room).mp hx
  rw [Nat.add_sub_cancel' t.depth_le] at depthX
  rw [← depthX] at edge
  obtain ⟨w, hw, insideW⟩ :=
    Tile.exists_neighbour_inside (Tile.neighbour_opposite n) insideX edge
  cases coveredX : a.covers x with
  | false => exact ⟨x, depthX, insideX, coveredX, _, w, hw, covers_of_contains covered insideW⟩
  | true =>
      -- it is covered itself, but something inside `t` is not
      have hole : ¬ a.Fills t := fun filled => by
        rw [ha.covers_of_fills filled] at free
        cases free
      obtain ⟨y, depthY, insideY, freeY⟩ := not_fills_iff.mp hole
      rw [← depthX] at depthY ⊢
      exact exists_border_inside depthY insideX insideY coveredX freeY

end Geotile.Area
