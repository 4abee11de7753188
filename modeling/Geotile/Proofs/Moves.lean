/-
**Moves are steps on rows and columns.**

A step along an axis flips quadrants from the deepest level up, as a binary counter does.  On the
number that the path counts on that axis it adds or takes off one; when the carry leaves the path,
the number wraps around the length of the grid.  On the other axis nothing changes.  So a move in
a heading shifts the row exactly, and there is no tile where that leaves the grid, and it shifts
the column around the globe.

Main definitions:

* `Geotile.sense` — the number added by a step.

Main results:

* `Geotile.axisLength_eq_two_pow` — the side of a grid is a power of two;
* `Geotile.Packed.along_step` — a step on a packed path, and its carry, in numbers;
* `Geotile.Tile.neighbour_eq_some_iff`, `Geotile.Tile.neighbour_eq_none_iff` — the neighbour in a
  heading by its row and its column, and where there is none;
* `Geotile.Tile.neighbour_opposite` — the opposite heading leads back;
* `Geotile.Tile.neighbour_shifts_cell` — **a move shifts the cell, around the globe but not over the
  poles**.
-/

import Geotile.Proofs.Indices
import Geotile.Tile.Neighbour
import Mathlib.Tactic.Ring

set_option autoImplicit false

namespace Geotile

/-! ### The side of a grid -/

/-- Each step of the zoom doubles the side. -/
theorem axisLength_eq_two_pow (z : Nat) : axisLength z = 2 ^ z := by
  induction z with
  | zero => rfl
  | succ z ih => rw [axisLength_succ, ih, Nat.pow_succ, Nat.mul_comm]

/-! ### Steps on packed paths -/

/-- The number that a step adds on its axis. -/
def sense (ahead : Bool) : Int := if ahead then 1 else -1

theorem Quadrant.isFar_flip_of_ne {axis other : Axis} (h : other ≠ axis) (q : Quadrant) :
    (q.flip axis).isFar other = q.isFar other := by
  cases axis <;> cases other <;> first | exact absurd rfl h | (cases q <;> rfl)

theorem Packed.unpack_push {n : Nat} {w : UInt64} (hn : n < maxDepth)
    (h : w.toNat < tileCount n) (q : Quadrant) :
    unpack (n + 1) (push w q) = unpack n w ++ [q] := by
  have fits : w.toNat < tileCount 31 := Nat.lt_of_lt_of_le h (tileCount_le (Nat.le_of_lt_succ hn))
  rw [unpack, upper_push fits, lowest_push fits]

/-- A step adds its sense on its own axis, less the whole grid when it is passed on by the highest
level, and changes nothing on the other axis. -/
theorem Packed.along_step (axis other : Axis) (ahead : Bool) {n : Nat} {w : UInt64}
    (hn : n ≤ maxDepth) (h : w.toNat < tileCount n) :
    (Tile.along other (unpack n (step axis ahead n w).1) : Int)
      = Tile.along other (unpack n w)
        + if other = axis then
            sense ahead * (1 - if (step axis ahead n w).2 then (axisLength n : Int) else 0)
          else 0 := by
  induction n generalizing w with
  | zero => simp [unpack, step]
  | succ n ih =>
      have above : (upper w).toNat < tileCount n := by
        rw [toNat_upper]
        rw [tileCount_succ] at h
        omega
      have carried := ih (Nat.le_of_succ_le hn) above
      have bits := Bool.toNat_le ((lowest w).isFar other)
      rw [step]
      dsimp only
      split
      · next stops =>
        -- the deepest quadrant does not cross, so the step ends with its flip
        rw [unpack_push hn above, unpack, Tile.along_append_singleton,
          Tile.along_append_singleton]
        by_cases same : other = axis
        · subst same
          cases far : (lowest w).isFar other <;> cases ahead <;> simp_all [sense]
        · rw [Quadrant.isFar_flip_of_ne same, if_neg same]
          simp
      · next crosses =>
        -- it crosses and flips back, and the levels above take the step on
        have fits := toNat_step_lt axis ahead (Nat.le_of_succ_le hn) above
        rw [unpack_push hn fits, unpack, Tile.along_append_singleton,
          Tile.along_append_singleton]
        by_cases same : other = axis
        · subst same
          rw [if_pos rfl] at carried ⊢
          cases far : (lowest w).isFar other <;> cases ahead <;>
            cases out : (step other _ n (upper w)).2 <;>
            simp_all [sense, axisLength_succ] <;> omega
        · rw [Quadrant.isFar_flip_of_ne same, if_neg same]
          rw [if_neg same] at carried
          omega

/-- A step is passed on by the highest level exactly when it leaves the grid. -/
theorem Packed.step_out_iff (axis : Axis) (ahead : Bool) {n : Nat} {w : UInt64}
    (hn : n ≤ maxDepth) (h : w.toNat < tileCount n) :
    (step axis ahead n w).2 = true ↔
      ¬ (0 ≤ (Tile.along axis (unpack n w) : Int) + sense ahead ∧
        (Tile.along axis (unpack n w) : Int) + sense ahead < axisLength n) := by
  have moved := along_step axis axis ahead hn h
  have before := Tile.along_lt axis (unpack n w)
  have after := Tile.along_lt axis (unpack n (step axis ahead n w).1)
  rw [length_unpack] at before after
  cases ahead <;> cases out : (step axis _ n w).2 <;> simp_all [sense] <;> omega

namespace Tile

/-! ### Steps on tiles -/

/-- A step keeps the depth and the other axis, and shifts its own axis around the grid. -/
theorem index_of_step {axis : Axis} {ahead : Bool} {t u : Tile} (h : t.step axis ahead = some u) :
    (∀ other, other ≠ axis → u.index other = t.index other) ∧
      (u.index axis : Int) = (t.index axis + sense ahead) % axisLength t.depth := by
  have word : u.quadrants = Packed.unpack t.depth (Packed.step axis ahead t.depth t.code).1 := by
    unfold step at h
    dsimp only at h
    split at h
    · cases h
    · cases h
      rfl
  have high := index_lt axis u
  rw [depth_of_step h] at high
  simp only [index, word] at high ⊢
  constructor
  · intro other apart
    have moved := Packed.along_step axis other ahead t.depth_le t.code_lt
    rw [if_neg apart, Int.add_zero] at moved
    exact Int.ofNat.inj moved
  · have moved := Packed.along_step axis axis ahead t.depth_le t.code_lt
    rw [if_pos rfl] at moved
    -- the shifted number differs from the new one by whole grids
    have whole : ((along axis t.quadrants : Nat) : Int) + sense ahead
        = along axis (Packed.unpack t.depth (Packed.step axis ahead t.depth t.code).1)
          + axisLength t.depth
            * (if (Packed.step axis ahead t.depth t.code).2 then sense ahead else 0) := by
      rw [moved, quadrants]
      split <;> ring
    rw [whole, Int.add_mul_emod_self_left, Int.emod_eq_of_lt (by omega) (by omega)]

/-- Only a step on the rows that leaves the grid leads nowhere. -/
theorem exists_step_iff {axis : Axis} {ahead : Bool} {t : Tile} :
    (∃ u, t.step axis ahead = some u) ↔
      (axis = .row → 0 ≤ (t.index axis : Int) + sense ahead ∧
        (t.index axis : Int) + sense ahead < axisLength t.depth) := by
  have out := Packed.step_out_iff axis ahead t.depth_le t.code_lt
  unfold step
  dsimp only
  cases axis with
  | column => simp
  | row =>
      simp only [decide_true, Bool.true_and, forall_const]
      split
      · next left => exact iff_of_false (by simp) (out.mp left)
      · next stays => exact iff_of_true ⟨_, rfl⟩ (Classical.not_not.mp (mt out.mpr stays))

/-! ### Shifts -/

theorem index_of_shift {axis : Axis} {s : Shift} {t u : Tile} (h : t.shift axis s = some u) :
    (∀ other, other ≠ axis → u.index other = t.index other) ∧
      (u.index axis : Int) = (t.index axis + s.offset) % axisLength t.depth := by
  cases s with
  | back => exact index_of_step h
  | ahead => exact index_of_step h
  | stay =>
      cases h
      have := index_lt axis t
      refine ⟨fun _ _ => rfl, ?_⟩
      rw [Shift.offset, Int.add_zero, Int.emod_eq_of_lt (by omega) (by omega)]

theorem exists_shift_iff (axis : Axis) (s : Shift) (t : Tile) :
    (∃ u, t.shift axis s = some u) ↔
      (axis = .row → 0 ≤ (t.index axis : Int) + s.offset ∧
        (t.index axis : Int) + s.offset < axisLength t.depth) := by
  cases s with
  | back => exact exists_step_iff
  | ahead => exact exists_step_iff
  | stay =>
      have := index_lt axis t
      refine iff_of_true ⟨t, rfl⟩ fun _ => ?_
      rw [Shift.offset]
      omega

/-! ### Neighbours -/

/-- There is a neighbour exactly when the shifted row stays inside the grid. -/
theorem exists_neighbour_iff {t : Tile} {h : Heading} :
    (∃ u, t.neighbour h = some u) ↔
      0 ≤ (t.index .row : Int) + h.rowShift.offset ∧
        (t.index .row : Int) + h.rowShift.offset < axisLength t.depth := by
  constructor
  · rintro ⟨u, hu⟩
    obtain ⟨w, hw, -⟩ := Option.bind_eq_some_iff.mp hu
    exact (exists_shift_iff .row h.rowShift t).mp ⟨w, hw⟩ rfl
  · intro inGrid
    obtain ⟨w, hw⟩ := (exists_shift_iff .row h.rowShift t).mpr fun _ => inGrid
    obtain ⟨u, hu⟩ := (exists_shift_iff .column h.columnShift w).mpr fun e => by cases e
    exact ⟨u, Option.bind_eq_some_iff.mpr ⟨w, hw, hu⟩⟩

theorem index_of_neighbour {t u : Tile} {h : Heading} (n : t.neighbour h = some u) :
    (u.index .row : Int) = t.index .row + h.rowShift.offset ∧
      (u.index .column : Int)
        = (t.index .column + h.columnShift.offset) % axisLength t.depth := by
  obtain ⟨low, high⟩ := exists_neighbour_iff.mp ⟨u, n⟩
  obtain ⟨w, hw, hu⟩ := Option.bind_eq_some_iff.mp n
  obtain ⟨columnKept, row⟩ := index_of_shift hw
  obtain ⟨rowKept, column⟩ := index_of_shift hu
  constructor
  · rw [rowKept .row (by decide), row, Int.emod_eq_of_lt low high]
  · rw [column, columnKept .column (by decide), depth_of_shift hw]

/-- The neighbour in a heading is the tile of the same depth at the shifted row and the shifted
column.  The row has to stay inside the grid; the column wraps around it. -/
theorem neighbour_eq_some_iff {t u : Tile} {h : Heading} :
    t.neighbour h = some u ↔
      u.depth = t.depth ∧ (u.index .row : Int) = t.index .row + h.rowShift.offset ∧
        (u.index .column : Int)
          = (t.index .column + h.columnShift.offset) % axisLength t.depth := by
  constructor
  · intro n
    exact ⟨depth_of_neighbour n, index_of_neighbour n⟩
  · rintro ⟨depth, row, column⟩
    -- the row of `u` lies inside the grid, so there is a neighbour, and it can only be `u`
    have inGrid := index_lt .row u
    rw [depth] at inGrid
    obtain ⟨v, hv⟩ := (exists_neighbour_iff (t := t) (h := h)).mpr ⟨by omega, by omega⟩
    obtain ⟨rowV, columnV⟩ := index_of_neighbour hv
    have same : v = u := by
      refine eq_iff_index.mpr ⟨by rw [depth_of_neighbour hv, depth], fun axis => ?_⟩
      cases axis with
      | row => omega
      | column => omega
    rw [hv, same]

/-- The opposite heading leads back. -/
theorem neighbour_opposite {t u : Tile} {h : Heading} (n : t.neighbour h = some u) :
    u.neighbour h.opposite = some t := by
  obtain ⟨depth, row, column⟩ := neighbour_eq_some_iff.mp n
  have low := index_lt .column t
  refine neighbour_eq_some_iff.mpr ⟨depth.symm, ?_, ?_⟩
  · rw [Heading.rowShift_opposite, Shift.offset_reverse]
    omega
  · rw [Heading.columnShift_opposite, Shift.offset_reverse, column, depth, Int.emod_add_emod,
      Int.add_assoc, Int.add_right_neg, Int.add_zero, Int.emod_eq_of_lt (by omega) (by omega)]

theorem neighbour_opposite_iff {t u : Tile} {h : Heading} :
    t.neighbour h = some u ↔ u.neighbour h.opposite = some t := by
  constructor
  · exact neighbour_opposite
  · intro back
    have forth := neighbour_opposite back
    rwa [Heading.opposite_opposite] at forth

/-- Beyond the poles there is no neighbour. -/
theorem neighbour_eq_none_iff {t : Tile} {h : Heading} :
    t.neighbour h = none ↔
      ¬ (0 ≤ (t.index .row : Int) + h.rowShift.offset ∧
        (t.index .row : Int) + h.rowShift.offset < axisLength t.depth) := by
  rw [← exists_neighbour_iff, not_exists, Option.eq_none_iff_forall_ne_some]

/-- **A move shifts the cell, around the globe but not over the poles.**  There is no neighbour
in a heading exactly when the shifted row leaves the grid.  Otherwise the neighbour is the tile of
the same zoom at the shifted row and at the remainder of the shifted column by the side of the grid.
So from every neighbour the opposite heading leads back. -/
theorem neighbour_shifts_cell (t : Tile) (h : Heading) :
    (t.neighbour h = none ↔
      ¬ (0 ≤ (t.cell.row : Int) + h.rowShift.offset ∧
        (t.cell.row : Int) + h.rowShift.offset < 2 ^ t.cell.zoom)) ∧
    ∀ u : Tile,
      (t.neighbour h = some u ↔
        u.cell.zoom = t.cell.zoom ∧ (u.cell.row : Int) = t.cell.row + h.rowShift.offset ∧
          (u.cell.column : Int) = (t.cell.column + h.columnShift.offset) % 2 ^ t.cell.zoom) ∧
      (t.neighbour h = some u ↔ u.neighbour h.opposite = some t) := by
  have side : ((axisLength t.depth : Nat) : Int) = 2 ^ t.depth := by
    rw [axisLength_eq_two_pow, Int.natCast_pow]
    rfl
  refine ⟨?_, fun u => ⟨?_, neighbour_opposite_iff⟩⟩
  · rw [neighbour_eq_none_iff, side]
    exact Iff.rfl
  · rw [neighbour_eq_some_iff, side]
    exact Iff.rfl

end Tile

end Geotile
