/-
**Moving to the tiles around a tile.**

A step along an axis changes the path from its deepest level up, as a binary counter does: every
quadrant that has to cross the edge of its parent flips to the other half and passes the step on,
and the first one that does not cross flips and stops the step.  A step that is passed on by the
first quadrant has left the map.  Columns close around the globe, so eastward and westward it
comes back in on the other side; rows end at the poles.

Main definitions:

* `Geotile.Packed.step` — a step along an axis on a packed path, and whether it left the map;
* `Geotile.Tile.step`, `Geotile.Tile.shift` — a step on a tile;
* `Geotile.Tile.neighbour`, `Geotile.Tile.neighbours` — the tile in one heading, and all eight.

Main results:

* `Geotile.Packed.toNat_step_lt` — a step stays among the paths of its length;
* `Geotile.Tile.depth_of_neighbour` — a neighbour has the depth of its tile.
-/

import Geotile.Heading
import Geotile.Tile.Basic

set_option autoImplicit false

namespace Geotile

/-! ### Steps on packed paths -/

/-- A step along an axis on the lowest levels of a word, and whether it was passed on by the
highest of them. -/
def Packed.step (axis : Axis) (ahead : Bool) : (levels : Nat) → UInt64 → UInt64 × Bool
  | 0, w => (w, true)
  | n + 1, w =>
    let q := lowest w
    if q.isFar axis != ahead then (push (upper w) (q.flip axis), false)
    else
      let (above, out) := step axis ahead n (upper w)
      (push above (q.flip axis), out)

/-- A step stays among the paths of its length. -/
theorem Packed.toNat_step_lt (axis : Axis) (ahead : Bool) {n : Nat} {w : UInt64}
    (hn : n ≤ maxDepth) (h : w.toNat < tileCount n) :
    (step axis ahead n w).1.toNat < tileCount n := by
  induction n generalizing w with
  | zero => exact h
  | succ n ih =>
      have above : (upper w).toNat < tileCount n := by
        rw [toNat_upper]
        rw [tileCount_succ] at h
        omega
      rw [step]
      simp only
      split
      · exact toNat_push_lt hn above _
      · exact toNat_push_lt hn (ih (Nat.le_of_succ_le hn) above) _

namespace Tile

/-! ### Steps on tiles -/

/-- The tile one step along an axis, westward and eastward around the globe. -/
def step (axis : Axis) (ahead : Bool) (t : Tile) : Option Tile :=
  let moved := Packed.step axis ahead t.depth t.code
  if axis = .row && moved.2 then none
  else
    some
      { code := moved.1
        depth := t.depth
        depth_pos := t.depth_pos
        depth_le := t.depth_le
        code_lt := Packed.toNat_step_lt axis ahead t.depth_le t.code_lt }

/-- The tile at a shift along an axis. -/
def shift (axis : Axis) (t : Tile) : Shift → Option Tile
  | .back => t.step axis false
  | .stay => some t
  | .ahead => t.step axis true

/-- The tile of the same depth in a heading; beyond the poles there is none. -/
def neighbour (t : Tile) (h : Heading) : Option Tile :=
  (t.shift .row h.rowShift).bind fun u => u.shift .column h.columnShift

/-- The eight headings with the tiles they lead to. -/
def neighbours (t : Tile) : List (Heading × Option Tile) :=
  Heading.all.map fun h => (h, t.neighbour h)

/-- The headings that lead to a tile, with that tile. -/
def presentNeighbours (t : Tile) : List (Heading × Tile) :=
  Heading.all.filterMap fun h => (t.neighbour h).map fun u => (h, u)

theorem depth_of_step {axis : Axis} {ahead : Bool} {t u : Tile} (h : t.step axis ahead = some u) :
    u.depth = t.depth := by
  unfold step at h
  dsimp only at h
  split at h
  · cases h
  · cases h
    rfl

theorem depth_of_shift {axis : Axis} {s : Shift} {t u : Tile} (h : t.shift axis s = some u) :
    u.depth = t.depth := by
  cases s with
  | back => exact depth_of_step h
  | stay => cases h; rfl
  | ahead => exact depth_of_step h

/-- A neighbour has the depth of its tile. -/
theorem depth_of_neighbour {t u : Tile} {h : Heading} (n : t.neighbour h = some u) :
    u.depth = t.depth := by
  obtain ⟨v, hv, hu⟩ := Option.bind_eq_some_iff.mp n
  rw [depth_of_shift hu, depth_of_shift hv]

end Tile

end Geotile
