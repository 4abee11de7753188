/-
**Two rounds at most.**

The loop that brings an area to its smallest form goes on until a round drops no member and merges
no group.  It could need many rounds, if merging put a member inside another one, or completed a
group on a level that has been passed.  It does neither.  One scan drops every member with an
ancestor among the members, though it remembers a single one, and one sweep from the deepest level
up merges whatever can be merged.  So the first round reaches an area that the second leaves as it
is, and there the loop ends; an area in its smallest form takes the first round only.

Main results:

* `Geotile.Area.mem_dropCovered_iff_no_ancestor` — what the scan keeps;
* `Geotile.Area.Canonical.dropCovered_eq`, `Geotile.Area.Canonical.mergeSiblings_eq` — a round on a
  canonical area, part by part;
* `Geotile.Raw.Members.settle_one_raw`, `Geotile.Raw.Members.settle_add_two_raw` — one round, and
  two or more;
* `Geotile.Area.settles_in_two_rounds` — **the loop ends after two rounds at most**.
-/

import Geotile.Proofs.Exactness
import Geotile.Proofs.RawOptimise

set_option autoImplicit false

namespace Geotile

namespace Area

/-! ### The parts of a round -/

/-- The members that the scan keeps are those without a strict ancestor among the members. -/
theorem mem_dropCovered_iff_no_ancestor {a : Area} {t : Tile} :
    t ∈ a.dropCovered ↔ t ∈ a ∧ ¬ ∃ u ∈ a, u ≠ t ∧ u.contains t = true := by
  rw [mem_dropCovered]
  refine and_congr_right fun _ => ?_
  constructor
  · rintro top ⟨u, mem, other, inside⟩
    exact other (top u mem inside)
  · intro none u mem inside
    exact Classical.byContradiction fun other => none ⟨u, mem, other, inside⟩

theorem Canonical.dropCovered_eq {a : Area} (h : a.Canonical) : a.dropCovered = a :=
  dropCovered_eq_of_antichain h.antichain

theorem Canonical.mergeSiblings_eq {a : Area} (h : a.Canonical) : a.mergeSiblings = a :=
  mergeFrom_eq_of_incomplete h.incomplete _

/-- An area that a round leaves as it is, is in its smallest form, and the other way around. -/
theorem tidy_eq_iff_isOptimised {a : Area} : a.tidy = a ↔ a.isOptimised = true := by
  rw [isOptimised, decide_eq_true_eq, optimise_eq_tidy]

end Area

/-! ### The number of rounds -/

namespace Raw.Members

open Area

/-- A single round is enough for an area in its smallest form and for no other. -/
theorem settle_one_raw (a : Area) :
    settle 1 a.raw = if a.isOptimised = true then .ok a.raw else .error .endless := by
  rw [settle_succ_raw]
  simp only [tidy_eq_iff_isOptimised]
  rfl

/-- Two rounds are enough for every area, and allowing for more changes nothing. -/
theorem settle_add_two_raw (n : Nat) (a : Area) : settle (n + 2) a.raw = .ok a.tidy.raw := by
  rw [settle_succ_raw]
  split
  · next same => rw [same]
  · rw [settle_succ_raw, if_pos (canonical_tidy a).tidy_eq]

end Raw.Members

namespace Area

/-- **The loop ends after two rounds at most.**  In the first round dropping keeps exactly the
members that have no strict ancestor among the members, and merging leaves no member inside another
and no four members that make up a tile.  In the second round both find nothing to do and change
nothing, and the loop ends there, in the smallest form; it ends after the first when the area was in
its smallest form before, and only then. -/
theorem settles_in_two_rounds (a : Area) :
    (Raw.Members.dropCoveredAfter none a.raw = .ok a.dropCovered.raw ∧
      ∀ t, t ∈ a.dropCovered ↔ t ∈ a ∧ ¬ ∃ u ∈ a, u ≠ t ∧ u.contains t = true) ∧
    (∃ merged, Raw.Members.mergeSiblings a.dropCovered.raw = .ok (a.tidy.raw, merged) ∧
      (merged = true ↔ a.tidy ≠ a.dropCovered)) ∧
    ((∀ t ∈ a.tidy, ∀ u ∈ a.tidy, t.contains u = true → t = u) ∧
      ¬ ∃ t : Tile, ∃ room : t.depth < maxDepth, ∀ q, t.child q room ∈ a.tidy) ∧
    (Raw.Members.dropCoveredAfter none a.tidy.raw = .ok a.tidy.raw ∧
      Raw.Members.mergeSiblings a.tidy.raw = .ok (a.tidy.raw, false)) ∧
    (∀ more, Raw.Members.settle (more + 2) a.raw = .ok a.tidy.raw) ∧
    (Raw.Members.settle 1 a.raw = if a.isOptimised = true then .ok a.raw else .error .endless) ∧
    Raw.Members.optimise a.raw = .ok a.tidy.raw ∧ a.optimise = a.tidy := by
  have smallest := canonical_tidy a
  have dropped := Raw.Members.dropCovered_raw a.tidy
  rw [smallest.dropCovered_eq] at dropped
  have merged := Raw.Members.mergeSiblings_raw a.tidy
  rw [smallest.mergeSiblings_eq, decide_eq_false (not_not_intro rfl)] at merged
  have reached := Raw.Members.optimise_raw a
  rw [optimise_eq_tidy] at reached
  refine ⟨⟨Raw.Members.dropCovered_raw a, fun t => mem_dropCovered_iff_no_ancestor⟩,
    ⟨_, Raw.Members.mergeSiblings_raw a.dropCovered, decide_eq_true_iff⟩,
    canonical_iff_members.mp smallest, ⟨dropped, merged⟩,
    fun more => Raw.Members.settle_add_two_raw more a, Raw.Members.settle_one_raw a, reached,
    optimise_eq_tidy a⟩

end Area

end Geotile
