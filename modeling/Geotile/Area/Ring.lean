/-
**The ring of tiles around an area.**

Every member has up to eight neighbours; those that the area does not cover lie around it.  The
ring can be asked for at any depth.  At the depth of a neighbour it is the neighbour itself; at a
smaller depth the tile in which it lies, which may then overlap the area; at a greater depth the
tiles along the edge of the neighbour that touch the member, as far as the area does not cover them.

Main definitions:

* `Geotile.Area.ringPiece` — what one neighbour of one member contributes at a depth;
* `Geotile.Area.ring` — the ring around an area at a depth.

Main results:

* `Geotile.Area.mem_ring` — the members of the ring.
-/

import Geotile.Area.Basic
import Geotile.Tile.Descend
import Geotile.Tile.Neighbour

set_option autoImplicit false

namespace Geotile

/-- A depth moved into the levels of the tree. -/
def clampDepth (d : Nat) : Nat := max 1 (min d maxDepth)

theorem clampDepth_pos (d : Nat) : 0 < clampDepth d := by
  unfold clampDepth
  omega

theorem clampDepth_le (d : Nat) : clampDepth d ≤ maxDepth := by
  unfold clampDepth maxDepth
  omega

namespace Area

/-- What a neighbour in a heading contributes to the ring around an area at a depth. -/
def ringPiece (a : Area) (d : Nat) (pos : 0 < d) (le : d ≤ maxDepth) (h : Heading) (n : Tile) :
    List Tile :=
  if a.covers n then []
  else if up : d ≤ n.depth then [n.ancestor d pos up]
  else (n.edge h (d - n.depth) (by omega)).filter fun t => !a.covers t

/-- The tiles around an area at a depth, the depth moved into the levels of the tree. -/
def ring (a : Area) (depth : Nat) : Area :=
  ofList <| a.tiles.flatMap fun t => t.presentNeighbours.flatMap fun (h, n) =>
    a.ringPiece (clampDepth depth) (clampDepth_pos depth) (clampDepth_le depth) h n

theorem mem_ring {a : Area} {depth : Nat} {t : Tile} : t ∈ a.ring depth ↔
    ∃ u ∈ a, ∃ h n, u.neighbour h = some n ∧
      t ∈ a.ringPiece (clampDepth depth) (clampDepth_pos depth) (clampDepth_le depth) h n := by
  rw [ring, mem_ofList, List.mem_flatMap]
  simp only [List.mem_flatMap, Tile.presentNeighbours, List.mem_filterMap, Heading.mem_all,
    true_and, Option.map_eq_some_iff]
  constructor
  · rintro ⟨u, hu, ⟨h, n⟩, ⟨h', m, hm, e⟩, ht⟩
    cases e
    exact ⟨u, hu, _, _, hm, ht⟩
  · rintro ⟨u, hu, h, n, hn, ht⟩
    exact ⟨u, hu, (h, n), ⟨h, n, hn, rfl⟩, ht⟩

end Area

end Geotile
