/-
**What exactly one of two areas covers.**

The symmetric difference is put together from a union that may nest members, an intersection that
may do so too, a difference that cuts tiles up, and a last step that brings the outcome to its
smallest form.  The members on the way depend on how the two areas are represented.  The result
does not: it is in smallest form, and on the deepest level it covers what exactly one of the areas
covers, which leaves only one area that it can be.

So the laws of the exclusive or carry over to areas, as equations between sets of members.  They
need nothing in smallest form but what stands alone: an area combined with the empty one comes out
in its smallest form.

Main results:

* `Geotile.Area.eq_symmDiff_iff` — the symmetric difference is the one area in smallest form that
  covers what exactly one of the two covers;
* `Geotile.Area.symmDiff_comm`, `Geotile.Area.symmDiff_assoc`, `Geotile.Area.symmDiff_self`,
  `Geotile.Area.symmDiff_empty` — its laws;
* `Geotile.Area.symmDiff_covered_once` — **what the symmetric difference is, with its laws**.
-/

import Geotile.Proofs.Editing

set_option autoImplicit false

namespace Geotile.Area

theorem canonical_symmDiff (a b : Area) : (a.symmDiff b).Canonical := canonical_optimise _

/-- The symmetric difference is the area in smallest form that covers what exactly one of the two
areas covers. -/
theorem eq_symmDiff_iff {a b s : Area} :
    s = a.symmDiff b ↔ s.Canonical ∧
      ∀ c : Tile, c.depth = maxDepth → s.covers c = xor (a.covers c) (b.covers c) := by
  constructor
  · rintro rfl
    exact ⟨canonical_symmDiff a b, fun c hc => covers_symmDiff_of_deepest hc⟩
  · rintro ⟨smallest, covered⟩
    refine smallest.eq_of_sameCover (canonical_symmDiff a b) fun c hc => ?_
    rw [covered c hc, covers_symmDiff_of_deepest hc]

/-! ### Laws -/

theorem symmDiff_comm (a b : Area) : a.symmDiff b = b.symmDiff a := by
  refine eq_symmDiff_iff.mpr ⟨canonical_symmDiff a b, fun c hc => ?_⟩
  rw [covers_symmDiff_of_deepest hc, Bool.xor_comm]

theorem symmDiff_assoc (a b c : Area) : (a.symmDiff b).symmDiff c = a.symmDiff (b.symmDiff c) := by
  refine eq_symmDiff_iff.mpr ⟨canonical_symmDiff _ c, fun t ht => ?_⟩
  rw [covers_symmDiff_of_deepest ht, covers_symmDiff_of_deepest ht, covers_symmDiff_of_deepest ht,
    Bool.xor_assoc]

theorem symmDiff_self (a : Area) : a.symmDiff a = empty := by
  refine (eq_symmDiff_iff.mpr ⟨canonical_empty, fun c _ => ?_⟩).symm
  rw [covers_empty, Bool.xor_self]

theorem symmDiff_empty (a : Area) : a.symmDiff empty = a.optimise := by
  refine (eq_symmDiff_iff.mpr ⟨canonical_optimise a, fun c hc => ?_⟩).symm
  rw [sameCover_optimise a c hc, covers_empty, Bool.xor_false]

/-- **What the symmetric difference is, with its laws.**  Of all areas in smallest form it is the
one whose deepest tiles are those that one of the two areas covers and the other does not.  Hence it
does not depend on the order of the two nor on the grouping of three, an area gives nothing with
itself, and with the empty area it gives its smallest form. -/
theorem symmDiff_covered_once (a b : Area) :
    (∀ s : Area, s = a.symmDiff b ↔
      s.isOptimised = true ∧ ∀ c : Tile, c.depth = maxDepth →
        (s.covers c = true ↔
          (a.covers c = true ∧ b.covers c = false) ∨ (a.covers c = false ∧ b.covers c = true))) ∧
    a.symmDiff b = b.symmDiff a ∧
    (∀ c : Area, (a.symmDiff b).symmDiff c = a.symmDiff (b.symmDiff c)) ∧
    a.symmDiff a = empty ∧ a.symmDiff empty = a.optimise := by
  refine ⟨fun s => ?_, symmDiff_comm a b, symmDiff_assoc a b, symmDiff_self a, symmDiff_empty a⟩
  rw [eq_symmDiff_iff, isOptimised_iff_canonical]
  refine and_congr_right fun _ => forall_congr' fun c => imp_congr_right fun _ => ?_
  rw [Bool.eq_iff_iff]
  cases a.covers c <;> cases b.covers c <;> simp

end Geotile.Area
