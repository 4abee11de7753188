/-
**The common part of two areas, member by member.**

The common part is looked for along the members of the first area: one that the second covers is
kept as it is, any other gives way to the members of the second inside it.  What the result covers
is what both cover, in either order and however members are nested.

Which tiles it consists of is another matter.  One expects the deeper ones: each member of one area
that lies inside a member of the other.  Of these a member of the second area is *passed over* when
it lies inside members of the first, and all of those lie inside members of the second in turn: they
are kept as they are, and nobody looks inside them.  So the second area has a member inside a member
there.  With the areas the other way round the same tile is found, for then it is a member of the
first that the second covers; hence the two orders give the same members just when neither area has
a member passed over, as it is when no member lies inside another.

Main definitions:

* `Geotile.Area.Deeper` — being a member of one area inside a member of the other;
* `Geotile.Area.PassedOver` — being a deeper member that is not looked at.

Main results:

* `Geotile.Area.inter_covers_both` — **the common part covers what both areas cover**, in either
  order, and makes up for what a difference takes away;
* `Geotile.Area.mem_inter_iff` — its members are the deeper ones that are not passed over;
* `Geotile.Area.PassedOver.nested` — only nested members are passed over;
* `Geotile.Area.inter_keeps_deeper_iff` — **when the common part has all deeper members, and when it
  does not depend on the order**;
* `Geotile.Area.inter_drops_nested` — two areas for which it does neither.
-/

import Geotile.Proofs.Differences
import Geotile.Proofs.SmallestForm

set_option autoImplicit false

namespace Geotile.Area

/-! ### What is covered -/

/-- What is taken away and what is common make up the first area again. -/
theorem sameCover_diff_union_inter (a b : Area) :
    SameCover ((a.diff b).union (a.inter b)) a := by
  intro c hc
  rw [covers_union, covers_diff_of_deepest hc, covers_inter, ← Bool.and_or_distrib_left,
    Bool.not_or_self, Bool.and_true]

/-- **The common part covers what both areas cover**, on every level and however members are nested.
So both orders cover the same, and together with what a difference leaves it covers the first area
again. -/
theorem inter_covers_both (a b : Area) :
    (∀ t : Tile, (a.inter b).covers t = true ↔ a.covers t = true ∧ b.covers t = true) ∧
    (a.inter b).sameAs (b.inter a) = true ∧
    ((a.diff b).union (a.inter b)).sameAs a = true := by
  refine ⟨fun t => ?_, sameAs_iff.mpr fun c _ => ?_, ?_⟩
  · rw [covers_inter, Bool.and_eq_true]
  · rw [covers_inter, covers_inter, Bool.and_comm]
  · exact sameAs_iff.mpr (sameCover_diff_union_inter a b)

/-! ### The members -/

/-- A member of one area that lies inside a member of the other. -/
def Deeper (a b : Area) (t : Tile) : Prop :=
  (t ∈ a ∧ b.covers t = true) ∨ (t ∈ b ∧ a.covers t = true)

theorem deeper_comm {a b : Area} {t : Tile} : Deeper a b t ↔ Deeper b a t := or_comm

/-- A member of the second area alone that lies inside members of the first, all of them inside
members of the second in turn. -/
structure PassedOver (a b : Area) (t : Tile) : Prop where
  mem : t ∈ b
  not_mem : t ∉ a
  covered : a.covers t = true
  /-- Every member of the first area around it is kept as it is. -/
  around : ∀ u ∈ a, u.contains t = true → b.covers u = true

/-- The common part consists of the deeper members, without those passed over. -/
theorem mem_inter_iff {a b : Area} {t : Tile} :
    t ∈ a.inter b ↔ Deeper a b t ∧ ¬ PassedOver a b t := by
  constructor
  · intro mem
    refine ⟨covers_of_mem_inter mem, fun passed => ?_⟩
    rcases mem_inter.mp mem with kept | ⟨u, hu, free, found⟩
    · exact passed.not_mem kept.1
    · rw [passed.around u hu (mem_membersWithin.mp found).2] at free
      cases free
  · rintro ⟨kept | ⟨mem, covered⟩, seen⟩
    · exact mem_inter.mpr (.inl kept)
    · by_cases both : t ∈ a
      · exact mem_inter.mpr (.inl ⟨both, covers_of_mem mem⟩)
      · -- not being passed over, it lies inside a member that is searched
        refine Classical.byContradiction fun missing => seen ⟨mem, both, covered, ?_⟩
        intro u hu inside
        cases free : b.covers u with
        | true => rfl
        | false =>
            have found := mem_membersWithin.mpr ⟨mem, inside⟩
            exact absurd (mem_inter.mpr (.inr ⟨u, hu, free, found⟩)) missing

theorem PassedOver.deeper {a b : Area} {t : Tile} (h : PassedOver a b t) : Deeper a b t :=
  .inr ⟨h.mem, h.covered⟩

/-- What is passed over in one order is found in the other. -/
theorem PassedOver.mem_inter {a b : Area} {t : Tile} (h : PassedOver a b t) : t ∈ b.inter a :=
  mem_inter_iff.mpr ⟨deeper_comm.mp h.deeper, fun back => back.not_mem h.mem⟩

/-- A member that is passed over lies inside another member. -/
theorem PassedOver.nested {a b : Area} {t : Tile} (h : PassedOver a b t) :
    ∃ w ∈ b, w ≠ t ∧ w.contains t = true := by
  obtain ⟨u, hu, inside⟩ := covers_iff.mp h.covered
  obtain ⟨w, hw, above⟩ := covers_iff.mp (h.around u hu inside)
  refine ⟨w, hw, ?_, Tile.contains_trans above inside⟩
  -- else the member of the first area in between would be `t` as well
  rintro rfl
  exact h.not_mem (Tile.contains_antisymm inside above ▸ hu)

theorem Antichain.not_passedOver {b : Area} (h : b.Antichain) (a : Area) (t : Tile) :
    ¬ PassedOver a b t := by
  intro passed
  obtain ⟨w, hw, other, inside⟩ := passed.nested
  exact other (h w hw t passed.mem inside)

/-! ### All deeper members -/

/-- The common part has all deeper members when none is passed over. -/
theorem mem_inter_iff_deeper {a b : Area} :
    (∀ t, t ∈ a.inter b ↔ Deeper a b t) ↔ ∀ t, ¬ PassedOver a b t := by
  constructor
  · intro all t passed
    exact (mem_inter_iff.mp ((all t).mpr passed.deeper)).2 passed
  · intro seen t
    rw [mem_inter_iff]
    exact and_iff_left (seen t)

/-- The order makes no difference when neither area has a member passed over. -/
theorem inter_comm_iff {a b : Area} :
    a.inter b = b.inter a ↔ ∀ t, ¬ PassedOver a b t ∧ ¬ PassedOver b a t := by
  constructor
  · intro same t
    refine ⟨fun passed => ?_, fun passed => ?_⟩
    · exact (mem_inter_iff.mp (same ▸ passed.mem_inter)).2 passed
    · exact (mem_inter_iff.mp (same ▸ passed.mem_inter)).2 passed
  · intro seen
    refine ext_mem fun t => ?_
    rw [mem_inter_iff_deeper.mpr fun t => (seen t).1, mem_inter_iff_deeper.mpr fun t => (seen t).2]
    exact deeper_comm

/-- **When the common part has all deeper members, and when it does not depend on the order.**  Its
members are the deeper ones that are not passed over, so it has all of them just when none is passed
over, and the order makes no difference just when this holds both ways.  When no member lies inside
another, it does. -/
theorem inter_keeps_deeper_iff (a b : Area) :
    (∀ t, t ∈ a.inter b ↔
      ((t ∈ a ∧ b.covers t = true) ∨ (t ∈ b ∧ a.covers t = true)) ∧ ¬ PassedOver a b t) ∧
    ((∀ t, t ∈ a.inter b ↔ (t ∈ a ∧ b.covers t = true) ∨ (t ∈ b ∧ a.covers t = true)) ↔
      ∀ t, ¬ PassedOver a b t) ∧
    (a.inter b = b.inter a ↔ ∀ t, ¬ PassedOver a b t ∧ ¬ PassedOver b a t) ∧
    (a.Antichain → b.Antichain → ∀ t, ¬ PassedOver a b t ∧ ¬ PassedOver b a t) :=
  ⟨fun _ => mem_inter_iff, mem_inter_iff_deeper, inter_comm_iff,
    fun ha hb t => ⟨hb.not_passedOver a t, ha.not_passedOver b t⟩⟩

/-- Two members inside a larger one, and none passed over. -/
theorem inter_keeps_deeper_iff_apart :
    ∃ a b : Area, a.texts = ["12"] ∧ b.texts = ["1203", "1210", "13"] ∧
      (a.inter b).texts = ["1203", "1210"] ∧ a.inter b = b.inter a := by
  have whole : (single (Tile.ofQuadrants [.northEast, .southWest]
      (by decide) (by decide))).Antichain := by
    decide
  have parts : (ofList [
      Tile.ofQuadrants [.northEast, .southWest, .northWest, .southEast] (by decide) (by decide),
      Tile.ofQuadrants [.northEast, .southWest, .northEast, .northWest] (by decide) (by decide),
      Tile.ofQuadrants [.northEast, .southEast] (by decide) (by decide)]).Antichain := by
    decide +kernel
  obtain ⟨-, -, commutes, apart⟩ := inter_keeps_deeper_iff _ _
  exact ⟨_, _, rfl, by decide +kernel, by decide +kernel, commutes.mpr (apart whole parts)⟩

/-- A member of the first area between two members of the second: the inner one of them is passed
over in one order only. -/
theorem inter_drops_nested :
    ∃ (a b : Area) (t : Tile), a.texts = ["12"] ∧ b.texts = ["1", "121"] ∧ t.text = "121" ∧
      (t ∈ b ∧ a.covers t = true) ∧ t ∉ a.inter b ∧
      (a.inter b).texts = ["12"] ∧ (b.inter a).texts = ["12", "121"] ∧ a.inter b ≠ b.inter a := by
  refine ⟨single (Tile.ofQuadrants [.northEast, .southWest] (by decide) (by decide)),
    ofList [Tile.ofQuadrants [.northEast] (by decide) (by decide),
      Tile.ofQuadrants [.northEast, .southWest, .northEast] (by decide) (by decide)],
    Tile.ofQuadrants [.northEast, .southWest, .northEast] (by decide) (by decide), ?_⟩
  decide +kernel

end Geotile.Area
