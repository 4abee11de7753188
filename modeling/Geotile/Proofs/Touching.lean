/-
**Touching on one level and on another.**

Where two tiles of one depth are neighbours, so are the larger tiles around them, unless these are
the same tile; and the smaller ones lie on the edge that the larger ones share.  The other way
round, every tile along the edge that a neighbour shares with a tile is itself next to something
inside that tile.  Both are facts about one axis at a time: where a step of at most one leads to
another block of the grid, it starts on the strip of its block that faces the other one.

Rows and columns are treated alike, since going up from columns that wrap around the globe gives
columns that wrap around the globe.

Main definitions:

* `Geotile.Shift.Faces` — a place within a block lies on the strip of a shift;
* `Geotile.Tile.OnEdge` — a tile lies on the edge of a larger one that faces back along a heading.

Main results:

* `Geotile.Shift.exists_block` , `Geotile.Shift.div_of_faces` — steps and blocks on one axis;
* `Geotile.Tile.OnEdge.above` — between a tile and a place on its edge, every tile lies on the edge;
* `Geotile.Tile.exists_neighbour_above` — neighbours lie in neighbours, along the shared edge;
* `Geotile.Tile.exists_neighbour_inside` — what lies along a shared edge has a neighbour across it.
-/

import Geotile.Proofs.Moves

set_option autoImplicit false

namespace Geotile

/-! ### One axis -/

namespace Shift

/-- The place of a number in its block of the given side lies on the strip of a shift: the last
place after a move back, the first one after a move ahead, and any after none. -/
structure Faces (s : Shift) (side x : Int) : Prop where
  last : s = back → x % side + 1 = side
  first : s = ahead → x % side = 0

variable {side : Int}

theorem div_succ_of_last (pos : 0 < side) {x : Int} (last : x % side + 1 = side) :
    (x + 1) / side = x / side + 1 := by
  have split := Int.mul_ediv_add_emod x side
  rw [Int.ediv_eq_iff_of_pos pos, Int.add_mul, Int.mul_comm (x / side)]
  omega

theorem div_pred_of_first (pos : 0 < side) {x : Int} (first : x % side = 0) :
    (x - 1) / side = x / side - 1 := by
  have split := Int.mul_ediv_add_emod x side
  rw [Int.ediv_eq_iff_of_pos pos, Int.sub_mul, Int.mul_comm (x / side)]
  omega

/-- Taking back a shift that leads onto its strip leads into the block before it. -/
theorem div_of_faces (pos : 0 < side) {s : Shift} {x : Int} (h : s.Faces side x) :
    (x - s.offset) / side = x / side - s.offset := by
  cases s with
  | back =>
      have := div_succ_of_last pos (h.last rfl)
      simpa [offset, Int.sub_neg] using this
  | stay => simp [offset]
  | ahead => exact div_pred_of_first pos (h.first rfl)

/-- A shift leads from a block to the same one or the next one, and the way back from there leads
onto the strip. -/
theorem exists_block (pos : 0 < side) (s : Shift) (x : Int) :
    ∃ s' : Shift, x / side = (x + s.offset) / side + s'.offset ∧ s'.Faces side x := by
  have low := Int.emod_nonneg x (Int.ne_of_gt pos)
  have high := Int.emod_lt_of_pos x pos
  have split := Int.mul_ediv_add_emod x side
  cases s with
  | stay => exact ⟨stay, by simp [offset], by simp, by simp⟩
  | ahead =>
      by_cases last : x % side + 1 = side
      · refine ⟨back, ?_, fun _ => last, by simp⟩
        have := div_succ_of_last pos last
        simp only [offset]
        omega
      · -- the block is not left
        refine ⟨stay, ?_, by simp, by simp⟩
        have same : (x + 1) / side = x / side := by
          rw [Int.ediv_eq_iff_of_pos pos, Int.mul_comm]
          omega
        simp only [offset]
        omega
  | back =>
      by_cases first : x % side = 0
      · refine ⟨ahead, ?_, by simp, fun _ => first⟩
        have := div_pred_of_first pos first
        rw [offset, ← Int.sub_eq_add_neg]
        simp only [offset]
        omega
      · refine ⟨stay, ?_, by simp, by simp⟩
        have same : (x - 1) / side = x / side := by
          rw [Int.ediv_eq_iff_of_pos pos, Int.mul_comm]
          omega
        rw [offset, ← Int.sub_eq_add_neg]
        simp only [offset]
        omega

/-- Blocks of numbers that wrap around a grid wrap around the grid of blocks. -/
theorem emod_mul_ediv (pos : 0 < side) (x : Int) {n : Int} (hn : 0 < n) :
    x % (n * side) / side = x / side % n := by
  have whole := Int.mul_ediv_add_emod x (n * side)
  have blocks : x / side = x % (n * side) / side + x / (n * side) * n := by
    rw [← Int.add_mul_ediv_right _ _ (Int.ne_of_gt pos)]
    congr 1
    rw [Int.mul_assoc, Int.mul_comm _ (n * side)]
    omega
  have wide : 0 < n * side := Int.mul_pos hn pos
  have low := Int.ediv_nonneg (Int.emod_nonneg x (Int.ne_of_gt wide)) (Int.le_of_lt pos)
  have high : x % (n * side) / side < n := by
    rw [Int.ediv_lt_iff_lt_mul pos]
    exact Int.emod_lt_of_pos x wide
  rw [blocks, Int.add_mul_emod_self_right, Int.emod_eq_of_lt low high]

/-- The block of a place on a strip lies on that strip of the grid of blocks. -/
theorem Faces.above {s : Shift} {x n : Int} (pos : 0 < side) (hn : 0 < n)
    (h : s.Faces (n * side) x) : s.Faces n (x / side) where
  last := by
    intro back
    have whole := h.last back
    have block : (x % (n * side)) / side = n - 1 := by
      rw [Int.ediv_eq_iff_of_pos pos, Int.sub_mul]
      omega
    rw [← emod_mul_ediv pos x hn, block]
    omega
  first := by
    intro ahead
    rw [← emod_mul_ediv pos x hn, h.first ahead, Int.zero_ediv]

end Shift

/-- Every two shifts that are not both nothing make up a heading. -/
theorem Heading.exists_of_shifts {r c : Shift} (h : ¬ (r = .stay ∧ c = .stay)) :
    ∃ heading : Heading, heading.rowShift = r ∧ heading.columnShift = c := by
  cases r <;> cases c <;>
    first
      | exact absurd ⟨rfl, rfl⟩ h
      | exact ⟨.northWest, rfl, rfl⟩
      | exact ⟨.north, rfl, rfl⟩
      | exact ⟨.northEast, rfl, rfl⟩
      | exact ⟨.west, rfl, rfl⟩
      | exact ⟨.east, rfl, rfl⟩
      | exact ⟨.southWest, rfl, rfl⟩
      | exact ⟨.south, rfl, rfl⟩
      | exact ⟨.southEast, rfl, rfl⟩

/-! ### Edges of tiles -/

namespace Tile

/-- Within its ancestor the given number of levels up, a tile lies on the edge that a heading to
that ancestor comes in by. -/
structure OnEdge (h : Heading) (levels : Nat) (t : Tile) : Prop where
  row : h.rowShift.Faces (axisLength levels) (t.index .row)
  column : h.columnShift.Faces (axisLength levels) (t.index .column)

theorem faces_iff_mem_strip {s : Shift} {axis : Axis} {levels : Nat} {t : Tile} :
    s.Faces (axisLength levels) (t.index axis) ↔
      t.place axis levels ∈ s.strip (axisLength levels) := by
  have side := axisLength_pos levels
  have inside := Nat.mod_lt (t.index axis) side
  rw [Shift.mem_strip side, place]
  constructor
  · rintro ⟨last, first⟩
    exact ⟨inside, fun e => by have := last e; omega, fun e => by have := first e; omega⟩
  · rintro ⟨-, last, first⟩
    exact ⟨fun e => by have := last e; omega, fun e => by have := first e; omega⟩

/-- The tiles along an edge are those inside the tile that lie on the edge. -/
theorem mem_edge_iff_onEdge {n t : Tile} {h : Heading} {levels : Nat}
    (room : n.depth + levels ≤ maxDepth) :
    t ∈ n.edge h levels room ↔
      t.depth = n.depth + levels ∧ n.contains t = true ∧ t.OnEdge h levels := by
  rw [mem_edge, ← faces_iff_mem_strip, ← faces_iff_mem_strip]
  refine and_congr_right fun _ => and_congr_right fun _ => ?_
  exact ⟨fun ⟨row, column⟩ => ⟨row, column⟩, fun ⟨row, column⟩ => ⟨row, column⟩⟩

/-- An edge has tiles at every depth. -/
theorem exists_mem_edge (n : Tile) (h : Heading) {levels : Nat}
    (room : n.depth + levels ≤ maxDepth) : ∃ t, t ∈ n.edge h levels room := by
  have nonempty : ∀ s : Shift, ∃ i, i ∈ s.strip (axisLength levels) := by
    intro s
    have := axisLength_pos levels
    cases s with
    | back => exact ⟨_, List.mem_singleton.mpr rfl⟩
    | stay => exact ⟨0, List.mem_range.mpr this⟩
    | ahead => exact ⟨_, List.mem_singleton.mpr rfl⟩
  obtain ⟨row, hr⟩ := nonempty h.rowShift
  obtain ⟨column, hc⟩ := nonempty h.columnShift
  exact ⟨_, List.mem_flatMap.mpr ⟨row, hr, List.mem_map.mpr ⟨column, hc, rfl⟩⟩⟩

/-- The block of an index on the level of an ancestor is the index of the ancestor. -/
theorem div_index {p t : Tile} (h : p.contains t = true) (axis : Axis) :
    (t.index axis : Int) / axisLength (t.depth - p.depth) = p.index axis := by
  rw [← (contains_iff_index.mp h).2 axis]
  exact Int.natCast_ediv _ _ |>.symm

theorem axisLength_depth {p t : Tile} (h : p.contains t = true) :
    (axisLength t.depth : Int) = axisLength p.depth * axisLength (t.depth - p.depth) := by
  have le := depth_le_of_contains h
  rw [← Int.natCast_mul, ← axisLength_add, Nat.add_sub_cancel' le]

/-- Between a tile and a place along its edge, every tile lies along that edge. -/
theorem OnEdge.above {n t c : Tile} {h : Heading} (inN : n.contains t = true)
    (inside : t.contains c = true) (edge : c.OnEdge h (c.depth - n.depth)) :
    t.OnEdge h (t.depth - n.depth) := by
  have deepN := depth_le_of_contains inN
  have deep := depth_le_of_contains inside
  have side : (0 : Int) < axisLength (c.depth - t.depth) := Int.ofNat_lt.mpr (axisLength_pos _)
  have grid : (0 : Int) < axisLength (t.depth - n.depth) := Int.ofNat_lt.mpr (axisLength_pos _)
  have whole : (axisLength (c.depth - n.depth) : Int)
      = axisLength (t.depth - n.depth) * axisLength (c.depth - t.depth) := by
    rw [← Int.natCast_mul, ← axisLength_add, ← Nat.sub_add_comm deepN, Nat.add_sub_cancel' deep]
  have up : ∀ {s : Shift} {axis : Axis}, s.Faces (axisLength (c.depth - n.depth)) (c.index axis) →
      s.Faces (axisLength (t.depth - n.depth)) (t.index axis) := by
    intro s axis faces
    rw [whole] at faces
    rw [← div_index inside axis]
    exact faces.above side grid
  exact ⟨up edge.row, up edge.column⟩

/-- Two neighbours lie in one tile, or in two neighbours, and then along the shared edge. -/
theorem exists_neighbour_above {t u p m : Tile} {h : Heading} (n : t.neighbour h = some u)
    (hp : p.contains t = true) (hm : m.contains u = true) (level : p.depth = m.depth)
    (apart : p ≠ m) :
    ∃ h', m.neighbour h' = some p ∧ t.OnEdge h' (t.depth - p.depth) := by
  obtain ⟨depth, row, column⟩ := neighbour_eq_some_iff.mp n
  have side : (0 : Int) < axisLength (t.depth - p.depth) := Int.ofNat_lt.mpr (axisLength_pos _)
  have grid : (0 : Int) < axisLength p.depth := Int.ofNat_lt.mpr (axisLength_pos _)
  -- the blocks of `u`, on the level of `p`
  have rowM := div_index hm .row
  have columnM := div_index hm .column
  rw [depth, ← level] at rowM columnM
  rw [row] at rowM
  rw [column, axisLength_depth hp, Shift.emod_mul_ediv side _ grid] at columnM
  obtain ⟨r, hr, facesRow⟩ := Shift.exists_block side h.rowShift (t.index .row)
  obtain ⟨c, hc, facesColumn⟩ := Shift.exists_block side h.columnShift (t.index .column)
  rw [div_index hp] at hr hc
  have rowP : (p.index .row : Int) = m.index .row + r.offset := by omega
  have columnP : (p.index .column : Int) = (m.index .column + c.offset) % axisLength m.depth := by
    have low := index_lt .column p
    rw [← level, ← columnM, Int.emod_add_emod, ← hc, Int.emod_eq_of_lt (by omega) (by omega)]
  -- the shifts between the blocks make up a heading, since the blocks are different
  obtain ⟨h', rfl, rfl⟩ := Heading.exists_of_shifts (r := r) (c := c) <| by
    rintro ⟨rfl, rfl⟩
    refine apart (eq_iff_index.mpr ⟨level, fun axis => ?_⟩)
    have low := index_lt .column m
    cases axis with
    | row => simpa [Shift.offset] using rowP
    | column =>
        rw [Shift.offset, Int.add_zero, Int.emod_eq_of_lt (by omega) (by omega)] at columnP
        exact Int.ofNat.inj columnP
  exact ⟨h', neighbour_eq_some_iff.mpr ⟨level, rowP, columnP⟩, facesRow, facesColumn⟩

/-- What lies along the edge that a neighbour shares with a tile has a neighbour inside the
tile. -/
theorem exists_neighbour_inside {m n t : Tile} {h : Heading} (hn : m.neighbour h = some n)
    (inside : n.contains t = true) (edge : t.OnEdge h (t.depth - n.depth)) :
    ∃ u, t.neighbour h.opposite = some u ∧ m.contains u = true := by
  obtain ⟨depth, row, column⟩ := neighbour_eq_some_iff.mp hn
  have side : (0 : Int) < axisLength (t.depth - n.depth) := Int.ofNat_lt.mpr (axisLength_pos _)
  have grid : (0 : Int) < axisLength n.depth := Int.ofNat_lt.mpr (axisLength_pos _)
  have whole := axisLength_depth inside
  have rowM := index_lt .row m
  have columnM := index_lt .column m
  rw [← depth] at rowM columnM
  -- the row one shift back lies in the block of `m`, hence inside the grid
  have rowBlock : ((t.index .row : Int) + h.opposite.rowShift.offset)
      / axisLength (t.depth - n.depth) = m.index .row := by
    rw [Heading.rowShift_opposite, Shift.offset_reverse, ← Int.sub_eq_add_neg,
      Shift.div_of_faces side edge.row, div_index inside, row]
    omega
  obtain ⟨u, hu⟩ : ∃ u, t.neighbour h.opposite = some u := by
    refine exists_neighbour_iff.mpr ⟨?_, ?_⟩
    · have := (Int.ediv_eq_iff_of_pos side).mp rowBlock
      have := Int.mul_nonneg (Int.natCast_nonneg (m.index .row)) (Int.le_of_lt side)
      omega
    · rw [whole, ← Int.ediv_lt_iff_lt_mul side, rowBlock]
      omega
  obtain ⟨depthU, rowU, columnU⟩ := neighbour_eq_some_iff.mp hu
  -- so does the column, around the globe
  have columnBlock : (u.index .column : Int) / axisLength (t.depth - n.depth)
      = m.index .column := by
    rw [columnU, Heading.columnShift_opposite, Shift.offset_reverse, ← Int.sub_eq_add_neg, whole,
      Shift.emod_mul_ediv side _ grid, Shift.div_of_faces side edge.column, div_index inside,
      column, ← depth, Int.emod_sub_emod, Int.add_sub_cancel,
      Int.emod_eq_of_lt (by omega) (by omega)]
  rw [← rowU] at rowBlock
  refine ⟨u, hu, contains_iff_index.mpr ⟨?_, fun axis => ?_⟩⟩
  · rw [depthU, ← depth]
    exact depth_le_of_contains inside
  · rw [depthU, ← depth]
    cases axis with
    | row => exact Int.ofNat.inj rowBlock
    | column => exact Int.ofNat.inj columnBlock

end Tile

end Geotile
