/-
**Combining areas.**

The union takes the members of both areas.  The intersection keeps, wherever members of the two
overlap, the deeper one, but does not look inside a member of the first area that the second covers.
The difference drops what is covered and splits members that are covered in part, only as deep as
needed, so that its members have mixed depths.  The symmetric difference is what is covered once, in
its smallest form.

Main definitions:

* `Geotile.Area.union`, `Geotile.Area.inter`, `Geotile.Area.diff`, `Geotile.Area.symmDiff`;
* `Geotile.Area.carve` — the pieces of a tile that an area leaves uncovered.

Main results:

* `Geotile.Area.mem_union`, `Geotile.Area.mem_inter`, `Geotile.Area.mem_diff` — the members of
  each.
-/

import Geotile.Area.Optimise

set_option autoImplicit false

namespace Geotile.Area

/-- The members of both areas. -/
def union (a b : Area) : Area := insertAll a.tiles b

/-- What both areas cover: each member of the first that the second covers, and of any other one the
members of the second inside it. -/
def inter (a b : Area) : Area :=
  ofList (a.tiles.flatMap fun t => if b.covers t then [t] else b.membersWithin t)

/-- The pieces of a tile that an area leaves uncovered, each as large as it can be. -/
def carve (cut : Area) (t : Tile) : List Tile :=
  if cut.covers t then []
  else if room : t.depth < maxDepth then
    -- a tile that is not covered is cut up only where something inside it has to go
    if cut.hasMembersBelow t then Quadrant.all.flatMap fun q => carve cut (t.child q room)
    else [t]
  else [t]
termination_by maxDepth - t.depth
decreasing_by
  rw [Tile.depth_child]
  omega

theorem carve_of_covers {cut : Area} {t : Tile} (covered : cut.covers t = true) :
    carve cut t = [] := by
  rw [carve, if_pos covered]

/-- A tile that is not cut up is its own only piece. -/
theorem carve_eq_self {cut : Area} {t : Tile} (free : ¬ cut.covers t = true)
    (whole : ¬ cut.hasMembersBelow t = true ∨ ¬ t.depth < maxDepth) : carve cut t = [t] := by
  rw [carve, if_neg free]
  rcases whole with clear | bottom
  · simp [clear]
  · rw [dif_neg bottom]

/-- What the first area covers and the second does not. -/
def diff (a b : Area) : Area := ofList (a.tiles.flatMap (carve b))

/-- What one of the two areas covers and the other does not, in its smallest form. -/
def symmDiff (a b : Area) : Area := ((a.union b).diff (a.inter b)).optimise

@[simp] theorem mem_union {a b : Area} {t : Tile} : t ∈ a.union b ↔ t ∈ a ∨ t ∈ b := by
  rw [union, mem_insertAll]
  exact Iff.rfl

theorem mem_inter {a b : Area} {t : Tile} : t ∈ a.inter b ↔
    (t ∈ a ∧ b.covers t = true) ∨ ∃ u ∈ a, b.covers u = false ∧ t ∈ b.membersWithin u := by
  rw [inter, mem_ofList, List.mem_flatMap]
  constructor
  · rintro ⟨u, hu, ht⟩
    split at ht
    · next covered =>
      rw [List.mem_singleton] at ht
      exact .inl (ht ▸ ⟨hu, covered⟩)
    · next covered => exact .inr ⟨u, hu, by simpa using covered, ht⟩
  · rintro (⟨ht, covered⟩ | ⟨u, hu, covered, ht⟩)
    · exact ⟨t, ht, by simp [covered]⟩
    · exact ⟨u, hu, by simpa [covered] using ht⟩

theorem mem_diff {a b : Area} {t : Tile} : t ∈ a.diff b ↔ ∃ u ∈ a, t ∈ carve b u := by
  rw [diff, mem_ofList, List.mem_flatMap]
  exact Iff.rfl

end Geotile.Area
