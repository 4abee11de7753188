/-
**A tile and the tiles around it.**

The tiles near a given one are that tile and its neighbours: those of its depth whose rows lie at
most one apart, and whose columns do so around the globe.  Away from the poles they form a block of
three rows and three columns.

Below the first level four columns or more go around the globe, and an even number of them.  Then
such a block contains the four tiles of one larger tile and of no other: the parent of the tile in
its middle.  Of the other tiles in the block there are five, or only two where a pole cuts off one
of the rows.  And then the block has a middle: no other tile has the same tiles around it.

On the first level all this fails, since there everything lies near everything.

Main definitions:

* `Geotile.CloseAround` — two numbers at most one apart, going around a grid;
* `Geotile.Tile.Near` — a tile and its neighbours;
* `Geotile.Shift.keeps`, `Geotile.Shift.stays` — whether a shift leaves a block of two, and an axis;
* `Geotile.Tile.outside` — the neighbours of a tile that do not lie in its parent;
* `Geotile.Tile.atPole` — lying in the first or the last row.

Main results:

* `Geotile.Tile.near_iff_close` — nearness in rows and columns;
* `Geotile.Tile.parent?_of_near_children` — **only one larger tile lies whole in a block**;
* `Geotile.Tile.near_iff_parent_or_outside` — the other tiles of the block lie outside of it;
* `Geotile.Tile.nodup_outside`, `Geotile.Tile.length_outside` — counting them;
* `Geotile.Tile.eq_of_near_iff` — **a block has one middle**.
-/

import Geotile.Proofs.Touching
import Mathlib.Data.List.Nodup

set_option autoImplicit false

namespace Geotile

/-! ### One axis -/

/-- Two numbers of a grid of the given side lie at most one apart, going around the grid. -/
def CloseAround (side x y : Nat) : Prop :=
  (x ≤ y + 1 ∧ y ≤ x + 1) ∨ (x = 0 ∧ y + 1 = side) ∨ (x + 1 = side ∧ y = 0)

theorem CloseAround.refl (side x : Nat) : CloseAround side x x := .inl (by omega)

namespace Shift

theorem offset_inj {r s : Shift} : r.offset = s.offset ↔ r = s := by
  cases r <;> cases s <;> decide

theorem offset_bounds (s : Shift) : -1 ≤ s.offset ∧ s.offset ≤ 1 := by
  cases s <;> decide

/-- Going around a grid, a shift leads to the number next to it or to the other end. -/
theorem emod_offset (s : Shift) {side x : Nat} (inside : x < side) :
    ((x : Int) + s.offset) % side = x + s.offset ∧ 0 ≤ (x : Int) + s.offset ∧
        (x : Int) + s.offset < side ∨
      s.offset = -1 ∧ x = 0 ∧ ((x : Int) + s.offset) % side + 1 = side ∨
      s.offset = 1 ∧ x + 1 = side ∧ ((x : Int) + s.offset) % side = 0 := by
  have bounds := s.offset_bounds
  by_cases within : 0 ≤ (x : Int) + s.offset ∧ (x : Int) + s.offset < side
  · exact .inl ⟨Int.emod_eq_of_lt within.1 within.2, within⟩
  · rcases Int.lt_or_le ((x : Int) + s.offset) 0 with low | high
    · refine .inr (.inl ⟨by omega, by omega, ?_⟩)
      rw [← Int.add_emod_right, Int.emod_eq_of_lt (by omega) (by omega)]
      omega
    · refine .inr (.inr ⟨by omega, by omega, ?_⟩)
      have whole : (x : Int) + s.offset = side := by omega
      rw [whole, Int.emod_self]

/-- Numbers at most one apart differ by a shift. -/
theorem close_iff_offset {x y : Nat} :
    (x ≤ y + 1 ∧ y ≤ x + 1) ↔ ∃ s : Shift, (y : Int) = x + s.offset := by
  constructor
  · intro close
    rcases Nat.lt_trichotomy x y with lt | same | gt
    · refine ⟨ahead, ?_⟩
      rw [offset]
      omega
    · refine ⟨stay, ?_⟩
      rw [offset]
      omega
    · refine ⟨back, ?_⟩
      rw [offset]
      omega
  · intro differ
    obtain ⟨s, h⟩ := differ
    have := s.offset_bounds
    omega

theorem closeAround_iff_offset {side x y : Nat} (hx : x < side) (hy : y < side) :
    CloseAround side x y ↔ ∃ s : Shift, (y : Int) = (x + s.offset) % side := by
  constructor
  · rintro (close | ⟨first, last⟩ | ⟨last, first⟩)
    · obtain ⟨s, h⟩ := close_iff_offset.mp close
      refine ⟨s, ?_⟩
      rw [← h, Int.emod_eq_of_lt (by omega) (by omega)]
    · refine ⟨back, ?_⟩
      have around := back.emod_offset hx
      simp only [offset] at around ⊢
      omega
    · refine ⟨ahead, ?_⟩
      have around := ahead.emod_offset hx
      simp only [offset] at around ⊢
      omega
  · intro differ
    obtain ⟨s, h⟩ := differ
    have := s.emod_offset hx
    have := s.offset_bounds
    unfold CloseAround
    omega

end Shift

/-- On an axis with four numbers or more, a number that is close to another and to both next to that
one is the same. -/
theorem CloseAround.eq_middle {side x y z w : Nat} (wide : 4 ≤ side) (hx : x < side)
    (hy : y < side) (back : (z : Int) = (y + Shift.back.offset) % side)
    (ahead : (w : Int) = (y + Shift.ahead.offset) % side) (near : CloseAround side x y)
    (nearBack : CloseAround side x z) (nearAhead : CloseAround side x w) : x = y := by
  have lower := Shift.back.emod_offset hy
  have upper := Shift.ahead.emod_offset hy
  rw [← back] at lower
  rw [← ahead] at upper
  simp only [Shift.offset] at lower upper
  unfold CloseAround at near nearBack nearAhead
  omega

/-- Below the first level the side of the grid is a multiple of four. -/
theorem axisLength_of_deep {d : Nat} (deep : 1 < d) : ∃ k, 0 < k ∧ axisLength d = 4 * k := by
  obtain ⟨e, rfl⟩ := Nat.exists_eq_add_of_le' deep
  refine ⟨axisLength e, axisLength_pos e, ?_⟩
  rw [axisLength_succ, axisLength_succ]
  omega

namespace Tile

/-! ### Nearness -/

/-- A tile is near itself and its neighbours. -/
def Near (t u : Tile) : Prop := u = t ∨ ∃ h, t.neighbour h = some u

theorem near_refl (t : Tile) : t.Near t := .inl rfl

theorem Near.depth_eq {t u : Tile} (h : t.Near u) : u.depth = t.depth := by
  rcases h with same | ⟨heading, n⟩
  · rw [same]
  · exact depth_of_neighbour n

theorem near_iff_offset {t u : Tile} :
    t.Near u ↔ u.depth = t.depth ∧
      (∃ r : Shift, (u.index .row : Int) = t.index .row + r.offset) ∧
      ∃ c : Shift, (u.index .column : Int)
        = (t.index .column + c.offset) % axisLength t.depth := by
  have inside := index_lt .column t
  have still : ((t.index .column : Int) + Shift.stay.offset) % axisLength t.depth
      = t.index .column := by
    rw [Shift.offset, Int.add_zero, Int.emod_eq_of_lt (by omega) (by omega)]
  constructor
  · rintro (rfl | ⟨h, n⟩)
    · exact ⟨rfl, ⟨.stay, (Int.add_zero _).symm⟩, .stay, still.symm⟩
    · obtain ⟨depth, row, column⟩ := neighbour_eq_some_iff.mp n
      exact ⟨depth, ⟨_, row⟩, _, column⟩
  · rintro ⟨depth, ⟨r, row⟩, c, column⟩
    by_cases none : r = .stay ∧ c = .stay
    · obtain ⟨rfl, rfl⟩ := none
      refine .inl (eq_iff_index.mpr ⟨depth, fun axis => ?_⟩)
      cases axis with
      | row => exact Int.ofNat.inj (row.trans (Int.add_zero _))
      | column => exact Int.ofNat.inj (column.trans still)
    · obtain ⟨h, rfl, rfl⟩ := Heading.exists_of_shifts none
      exact .inr ⟨h, neighbour_eq_some_iff.mpr ⟨depth, row, column⟩⟩

/-- Near a tile are the tiles of its depth whose rows are at most one apart, and whose columns are
so around the globe. -/
theorem near_iff_close {t u : Tile} :
    t.Near u ↔ u.depth = t.depth ∧
      (t.index .row ≤ u.index .row + 1 ∧ u.index .row ≤ t.index .row + 1) ∧
      CloseAround (axisLength t.depth) (t.index .column) (u.index .column) := by
  rw [near_iff_offset]
  refine and_congr_right fun depth => ?_
  have inside := index_lt .column u
  rw [depth] at inside
  rw [Shift.close_iff_offset, Shift.closeAround_iff_offset (index_lt .column t) inside]

/-- Every row and column of the grid that is close enough is that of a tile nearby. -/
theorem exists_near (t : Tile) {row column : Nat} (hr : row < axisLength t.depth)
    (hc : column < axisLength t.depth) (rows : t.index .row ≤ row + 1 ∧ row ≤ t.index .row + 1)
    (columns : CloseAround (axisLength t.depth) (t.index .column) column) :
    ∃ u, t.Near u ∧ u.index .row = row ∧ u.index .column = column := by
  obtain ⟨atRow, atColumn⟩ := index_ofIndices t.depth_pos t.depth_le hr hc
  refine ⟨ofIndices t.depth row column t.depth_pos t.depth_le, ?_, atRow, atColumn⟩
  rw [near_iff_close, depth_ofIndices, atRow, atColumn]
  exact ⟨rfl, rows, columns⟩

theorem top_or_deep (t : Tile) : t.depth = 1 ∨ 1 < t.depth := by
  have := t.depth_pos
  omega

/-- On the first level every tile is near every other one. -/
theorem near_of_top {t u : Tile} (ht : t.depth = 1) (hu : u.depth = 1) : t.Near u := by
  have inside : ∀ v : Tile, v.depth = 1 → ∀ axis, v.index axis < 2 := by
    intro v top axis
    have := index_lt axis v
    rwa [top] at this
  have := inside t ht .row
  have := inside t ht .column
  have := inside u hu .row
  have := inside u hu .column
  exact near_iff_close.mpr ⟨hu.trans ht.symm, by omega, .inl (by omega)⟩

/-! ### Parents -/

theorem index_child (axis : Axis) (t : Tile) (q : Quadrant) (room : t.depth < maxDepth) :
    (t.child q room).index axis = 2 * t.index axis + (q.isFar axis).toNat := by
  rw [index, quadrants_child, along_append_singleton, ← index]

/-- The parent is the tile one level up that contains the tile. -/
theorem parent?_eq_some_iff_contains {t p : Tile} :
    t.parent? = some p ↔ t.depth = p.depth + 1 ∧ p.contains t = true := by
  constructor
  · intro h
    obtain ⟨q, room, rfl⟩ := parent?_eq_some_iff.mp h
    exact ⟨rfl, contains_child p q room⟩
  · rintro ⟨depth, inside⟩
    obtain ⟨q, room, within⟩ := exists_child_contains inside (by omega)
    rw [← eq_of_contains_of_depth_le within (by rw [depth, depth_child]), parent?_child]

/-- It has half the row and half the column. -/
theorem parent?_eq_some_iff_index {t p : Tile} :
    t.parent? = some p ↔ t.depth = p.depth + 1 ∧ ∀ axis, t.index axis / 2 = p.index axis := by
  rw [parent?_eq_some_iff_contains, contains_iff_index]
  refine and_congr_right fun depth => ?_
  have level : axisLength (t.depth - p.depth) = 2 := by
    rw [depth, Nat.add_sub_cancel_left]
    rfl
  rw [level]
  exact and_iff_right (by omega)

theorem index_of_parent? {t p : Tile} (h : t.parent? = some p) (axis : Axis) :
    t.index axis / 2 = p.index axis :=
  (parent?_eq_some_iff_index.mp h).2 axis

/-- Tiles with one parent are near each other. -/
theorem near_of_parent? {t u p : Tile} (ht : t.parent? = some p) (hu : u.parent? = some p) :
    t.Near u := by
  have level : u.depth = t.depth := by rw [depth_of_parent? ht, depth_of_parent? hu]
  have halves : ∀ axis, t.index axis / 2 = u.index axis / 2 := by
    intro axis
    rw [index_of_parent? ht, index_of_parent? hu]
  have := halves .row
  have := halves .column
  exact near_iff_close.mpr ⟨level, by omega, .inl (by omega)⟩

/-- **Only one larger tile lies whole in a block.**  Below the first level, a tile whose four
children are all near a tile is the parent of that tile. -/
theorem parent?_of_near_children {t p : Tile} (deep : 1 < t.depth) (room : p.depth < maxDepth)
    (each : ∀ q, t.Near (p.child q room)) : t.parent? = some p := by
  obtain ⟨k, pos, side⟩ := axisLength_of_deep deep
  -- two opposite children are enough, since the side of the grid is even and at least four
  obtain ⟨depth, rows, columns⟩ := near_iff_close.mp (each .northWest)
  obtain ⟨-, rows', columns'⟩ := near_iff_close.mp (each .southEast)
  simp only [index_child, Quadrant.isFar, Bool.toNat_false, Bool.toNat_true] at *
  unfold CloseAround at columns columns'
  refine parent?_eq_some_iff_index.mpr ⟨depth.symm, fun axis => ?_⟩
  cases axis with
  | row => omega
  | column => omega

end Tile

/-! ### Headings that leave the parent -/

namespace Shift

/-- Whether a shift does not leave a block of two, from its near half or from its far one. -/
def keeps (far : Bool) : Shift → Bool
  | back => far
  | stay => true
  | ahead => !far

/-- Whether a shift does not leave an axis, from its first place, its last one or another. -/
def stays (first last : Bool) : Shift → Bool
  | back => !first
  | stay => true
  | ahead => !last

theorem keeps_iff {s : Shift} {x y : Nat} (h : (y : Int) = x + s.offset) :
    s.keeps (x % 2 == 1) = true ↔ y / 2 = x / 2 := by
  cases s <;> simp only [offset] at h <;> simp [keeps] <;> omega

theorem keeps_iff_around {s : Shift} {k x y : Nat} (inside : x < 4 * k)
    (h : (y : Int) = (x + s.offset) % (4 * k : Nat)) :
    s.keeps (x % 2 == 1) = true ↔ y / 2 = x / 2 := by
  have around := s.emod_offset inside
  rw [← h] at around
  -- from one end to the other a shift leads into another block, since there is more than one
  cases s <;> simp only [offset] at around <;> simp [keeps] <;> omega

theorem stays_iff (s : Shift) {side x : Nat} (inside : x < side) :
    s.stays (x == 0) (x + 1 == side) = true ↔
      0 ≤ (x : Int) + s.offset ∧ (x : Int) + s.offset < side := by
  cases s <;> simp [stays, offset] <;> omega

end Shift

namespace Heading

theorem nodup_all : all.Nodup := by decide

/-- A heading is determined by its two shifts. -/
theorem eq_of_shifts {h h' : Heading} (row : h.rowShift = h'.rowShift)
    (column : h.columnShift = h'.columnShift) : h = h' := by
  cases h <;> cases h' <;>
    first
      | rfl
      | exact absurd row (by decide)
      | exact absurd column (by decide)

/-- Five of the headings that stay on the map leave a block of two rows and two columns, and two
where it lies at a pole. -/
theorem countP_leaving (far east first last : Bool) (northern : first = true → far = false)
    (southern : last = true → far = true) :
    (all.countP fun h => h.rowShift.stays first last &&
      !(h.rowShift.keeps far && h.columnShift.keeps east)) = if first || last then 2 else 5 := by
  revert far east first last
  decide

end Heading

namespace Tile

/-- The neighbour in a heading lies in the parent exactly when neither shift leaves the half that
the tile lies in. -/
theorem parent?_eq_iff_keeps {t u : Tile} {h : Heading} (deep : 1 < t.depth)
    (n : t.neighbour h = some u) :
    u.parent? = t.parent? ↔
      h.rowShift.keeps (t.index .row % 2 == 1) = true ∧
        h.columnShift.keeps (t.index .column % 2 == 1) = true := by
  obtain ⟨k, pos, side⟩ := axisLength_of_deep deep
  obtain ⟨depth, row, column⟩ := neighbour_eq_some_iff.mp n
  obtain ⟨p, hp⟩ := exists_parent? deep
  have level := depth_of_parent? hp
  have halves := index_of_parent? hp
  have inside := index_lt .column t
  rw [hp, parent?_eq_some_iff_index, Shift.keeps_iff row,
    Shift.keeps_iff_around (side ▸ inside) (side ▸ column)]
  constructor
  · rintro ⟨-, up⟩
    rw [up .row, up .column, halves, halves]
    exact ⟨rfl, rfl⟩
  · rintro ⟨rows, columns⟩
    refine ⟨by rw [depth, level], fun axis => ?_⟩
    rw [← halves]
    cases axis with
    | row => exact rows
    | column => exact columns

/-- Whether a heading leads to a tile outside of the parent, by its shifts. -/
theorem leaves_parent_eq {t : Tile} (deep : 1 < t.depth) (h : Heading) :
    ((t.neighbour h).map fun u => decide (u.parent? ≠ t.parent?)).getD false
      = (h.rowShift.stays (t.index .row == 0) (t.index .row + 1 == axisLength t.depth) &&
        !(h.rowShift.keeps (t.index .row % 2 == 1) &&
          h.columnShift.keeps (t.index .column % 2 == 1))) := by
  have stays := (h.rowShift.stays_iff (index_lt .row t)).trans exists_neighbour_iff.symm
  cases found : t.neighbour h with
  | none =>
      simp only [found, reduceCtorEq, exists_false, iff_false, Bool.not_eq_true] at stays
      rw [stays]
      rfl
  | some u =>
      rw [stays.mpr ⟨u, found⟩, Bool.true_and, Option.map_some, Option.getD_some, decide_not,
        decide_eq_decide.mpr (parent?_eq_iff_keeps deep found), ← Bool.and_eq_decide]

/-- The neighbours in different headings are different, below the first level. -/
theorem neighbour_inj {t u : Tile} {h h' : Heading} (deep : 1 < t.depth)
    (n : t.neighbour h = some u) (n' : t.neighbour h' = some u) : h = h' := by
  obtain ⟨k, pos, side⟩ := axisLength_of_deep deep
  obtain ⟨-, row, column⟩ := neighbour_eq_some_iff.mp n
  obtain ⟨-, row', column'⟩ := neighbour_eq_some_iff.mp n'
  have inside := index_lt .column t
  have around := h.columnShift.emod_offset inside
  have around' := h'.columnShift.emod_offset inside
  rw [← column] at around
  rw [← column'] at around'
  have := h.columnShift.offset_bounds
  have := h'.columnShift.offset_bounds
  exact Heading.eq_of_shifts (Shift.offset_inj.mp (by omega)) (Shift.offset_inj.mp (by omega))

/-! ### What lies outside of the parent -/

/-- The neighbours of a tile that do not lie in its parent. -/
def outside (t : Tile) : List Tile :=
  (t.presentNeighbours.map Prod.snd).filter fun u => u.parent? ≠ t.parent?

/-- Whether a tile lies in the northernmost or the southernmost row. -/
def atPole (t : Tile) : Bool := t.cell.row == 0 || t.cell.row + 1 == axisLength t.depth

theorem presentNeighbours_map_snd (t : Tile) :
    t.presentNeighbours.map Prod.snd = Heading.all.filterMap t.neighbour := by
  rw [presentNeighbours, List.map_filterMap]
  refine List.filterMap_congr fun h _ => ?_
  rw [Option.map_map]
  exact Option.map_id'

theorem mem_outside {t u : Tile} :
    u ∈ t.outside ↔ (∃ h, t.neighbour h = some u) ∧ u.parent? ≠ t.parent? := by
  rw [outside, List.mem_filter, decide_eq_true_eq, presentNeighbours_map_snd, List.mem_filterMap]
  simp only [Heading.mem_all, true_and]

theorem depth_of_mem_outside {t u : Tile} (h : u ∈ t.outside) : u.depth = t.depth := by
  obtain ⟨⟨_, n⟩, -⟩ := mem_outside.mp h
  exact depth_of_neighbour n

/-- The tiles near a tile are those in its parent and those outside of it. -/
theorem near_iff_parent_or_outside {t u p : Tile} (hp : t.parent? = some p) :
    t.Near u ↔ u.parent? = some p ∨ u ∈ t.outside := by
  rw [mem_outside, hp]
  constructor
  · intro near
    by_cases inside : u.parent? = some p
    · exact .inl inside
    · rcases near with rfl | n
      · exact absurd hp inside
      · exact .inr ⟨n, inside⟩
  · rintro (inside | ⟨n, -⟩)
    · exact near_of_parent? hp inside
    · exact .inr n

theorem nodup_outside {t : Tile} (deep : 1 < t.depth) : t.outside.Nodup := by
  rw [outside, presentNeighbours_map_snd]
  refine List.Nodup.filter _ (List.Nodup.filterMap (fun h h' u n n' => ?_) Heading.nodup_all)
  exact neighbour_inj deep n n'

/-- Below the first level five neighbours lie outside of the parent, and two at a pole. -/
theorem length_outside {t : Tile} (deep : 1 < t.depth) :
    t.outside.length = if t.atPole then 2 else 5 := by
  obtain ⟨k, pos, side⟩ := axisLength_of_deep deep
  rw [outside, presentNeighbours_map_snd, ← List.countP_eq_length_filter, List.countP_filterMap,
    List.countP_congr fun h _ => Bool.eq_iff_iff.mp (leaves_parent_eq deep h)]
  refine Heading.countP_leaving _ _ _ _ (fun first => ?_) (fun last => ?_)
  · rw [beq_iff_eq] at first
    rw [first]
    rfl
  · rw [beq_iff_eq] at last ⊢
    omega

/-! ### The middle of a block -/

theorem row_le_of_near_iff {t u : Tile} (deep : 1 < t.depth) (same : ∀ v, t.Near v ↔ u.Near v) :
    u.index .row ≤ t.index .row := by
  obtain ⟨k, pos, side⟩ := axisLength_of_deep deep
  obtain ⟨depth, rows, -⟩ := near_iff_close.mp ((same u).mpr u.near_refl)
  have inT := index_lt .column t
  have inU := index_lt .column u
  have lastU := index_lt .row u
  refine Nat.le_of_not_lt fun lt => ?_
  -- the row behind `u` is too far from `t`, and the row before `t` too far from `u`
  by_cases behind : u.index .row + 1 < axisLength u.depth
  · obtain ⟨v, near, row, -⟩ := exists_near u behind inU (by omega) (.refl _ _)
    obtain ⟨-, rowsV, -⟩ := near_iff_close.mp ((same v).mpr near)
    omega
  · rw [depth] at behind lastU
    have before : t.index .row - 1 < axisLength t.depth := by omega
    obtain ⟨v, near, row, -⟩ := exists_near t before inT (by omega) (.refl _ _)
    obtain ⟨-, rowsV, -⟩ := near_iff_close.mp ((same v).mp near)
    omega

/-- Along its row a tile always has a neighbour. -/
theorem exists_neighbour_along (t : Tile) {h : Heading} (along : h.rowShift = .stay) :
    ∃ u, t.neighbour h = some u := by
  have := index_lt .row t
  rw [exists_neighbour_iff, along, Shift.offset]
  omega

theorem column_eq_of_near_iff {t u : Tile} (deep : 1 < t.depth)
    (same : ∀ v, t.Near v ↔ u.Near v) : t.index .column = u.index .column := by
  obtain ⟨k, pos, side⟩ := axisLength_of_deep deep
  obtain ⟨depth, -, columns⟩ := near_iff_close.mp ((same u).mpr u.near_refl)
  have inT := index_lt .column t
  have inU := index_lt .column u
  rw [depth] at inU
  -- there is a tile to either side of `u`
  obtain ⟨v, hv⟩ := exists_neighbour_along u (h := .west) rfl
  obtain ⟨w, hw⟩ := exists_neighbour_along u (h := .east) rfl
  obtain ⟨-, -, columnsV⟩ := near_iff_close.mp ((same v).mpr (.inr ⟨_, hv⟩))
  obtain ⟨-, -, columnsW⟩ := near_iff_close.mp ((same w).mpr (.inr ⟨_, hw⟩))
  obtain ⟨-, -, west⟩ := neighbour_eq_some_iff.mp hv
  obtain ⟨-, -, east⟩ := neighbour_eq_some_iff.mp hw
  rw [depth] at west east
  exact CloseAround.eq_middle (by omega) inT inU west east columns columnsV columnsW

/-- **A block has one middle.**  Below the first level, tiles that are near the same tiles are
equal. -/
theorem eq_of_near_iff {t u : Tile} (deep : 1 < t.depth) (same : ∀ v, t.Near v ↔ u.Near v) :
    t = u := by
  have depth := ((same u).mpr u.near_refl).depth_eq
  have deepU : 1 < u.depth := depth ▸ deep
  refine eq_iff_index.mpr ⟨depth.symm, fun axis => ?_⟩
  cases axis with
  | row =>
      exact Nat.le_antisymm (row_le_of_near_iff deepU fun v => (same v).symm)
        (row_le_of_near_iff deep same)
  | column => exact column_eq_of_near_iff deep same

end Tile

end Geotile
