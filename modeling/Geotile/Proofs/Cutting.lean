/-
**Cutting keeps the smallest form.**

Neither what takes one area out of another nor what keeps the common part of two looks at its
result again: the pieces are put together as they come.  Still nothing is left to be done if the
areas were in smallest form before.

No piece lies inside another.  Two members that are cut are apart, and so are the four children of
a tile that is cut up; and a common part consists of members of both areas, of which only two of the
same area could lie inside each other.

No four pieces make up a tile.  A canonical area covers a tile when it covers the four children, and
an area that overlaps none of the children does not overlap the tile.  So a tile whose children are
pieces is covered by the result, that is, by a piece that contains its children.

An area in smallest form is told by what it covers.  What two areas both cover depends neither on
their order nor on the grouping of three of them, and so the intersection does not either.

Main results:

* `Geotile.Area.antichain_carve`, `Geotile.Area.Antichain.diff`, `Geotile.Area.Antichain.inter` —
  no piece lies inside another;
* `Geotile.Area.Canonical.diff`, `Geotile.Area.Canonical.inter` — canonical areas are cut into
  canonical areas;
* `Geotile.Area.Canonical.inter_comm`, `Geotile.Area.Canonical.inter_assoc` — the laws of the
  intersection of canonical areas;
* `Geotile.Area.cuts_keep_smallest_form` — **cutting keeps the smallest form**.
-/

import Geotile.Proofs.Differences
import Geotile.Proofs.SmallestForm

set_option autoImplicit false

namespace Geotile.Area

/-! ### Pieces are apart -/

/-- No piece of a carved tile lies inside another. -/
theorem antichain_carve {cut : Area} {t : Tile} :
    ∀ u ∈ carve cut t, ∀ v ∈ carve cut t, u.contains v = true → u = v := by
  induction t using carve.induct cut with
  | case1 t covered =>
      intro u hu
      rw [carve, if_pos covered] at hu
      exact absurd hu List.not_mem_nil
  | case2 t free room below ih =>
      intro u hu v hv inside
      rw [carve, if_neg free, dif_pos room, if_pos below] at hu hv
      obtain ⟨q, -, hu⟩ := List.mem_flatMap.mp hu
      obtain ⟨p, -, hv⟩ := List.mem_flatMap.mp hv
      -- both pieces come from the child that contains the inner one
      have fromQ := Tile.contains_trans (contains_of_mem_carve hu) inside
      have fromP := contains_of_mem_carve hv
      have child := Tile.eq_of_contains_of_depth_le
        (Tile.contains_of_common fromQ fromP (Nat.le_refl _)) (Nat.le_refl _)
      obtain rfl := Tile.child_inj.mp child
      exact ih q u hu v hv inside
  | case3 t free room none =>
      intro u hu v hv _
      rw [carve, if_neg free, dif_pos room, if_neg none, List.mem_singleton] at hu hv
      rw [hu, hv]
  | case4 t free bottom =>
      intro u hu v hv _
      rw [carve, if_neg free, dif_neg bottom, List.mem_singleton] at hu hv
      rw [hu, hv]

/-- What is taken out of an antichain leaves an antichain. -/
theorem Antichain.diff {a : Area} (h : a.Antichain) (b : Area) : (a.diff b).Antichain := by
  intro t ht u hu inside
  obtain ⟨m, hm, pieceT⟩ := mem_diff.mp ht
  obtain ⟨n, hn, pieceU⟩ := mem_diff.mp hu
  have same := h.eq_of_contains hm hn
    (Tile.contains_trans (contains_of_mem_carve pieceT) inside) (contains_of_mem_carve pieceU)
  subst same
  exact antichain_carve t pieceT u pieceU inside

/-- The common part of two antichains is an antichain. -/
theorem Antichain.inter {a b : Area} (ha : a.Antichain) (hb : b.Antichain) :
    (a.inter b).Antichain := by
  intro t ht u hu inside
  rcases covers_of_mem_inter ht with ⟨memT, coveredT⟩ | ⟨memT, coveredT⟩
  · rcases covers_of_mem_inter hu with ⟨memU, -⟩ | ⟨memU, -⟩
    · exact ha t memT u memU inside
    · exact hb.eq_of_covers coveredT memU inside
  · rcases covers_of_mem_inter hu with ⟨memU, -⟩ | ⟨memU, -⟩
    · exact ha.eq_of_covers coveredT memU inside
    · exact hb t memT u memU inside

/-! ### Pieces make up no tile -/

/-- What is taken out of a canonical area leaves a canonical area. -/
theorem Canonical.diff {a : Area} (h : a.Canonical) (b : Area) : (a.diff b).Canonical := by
  refine (h.antichain.diff b).canonical fun t room each => ?_
  simp only [covers_diff_iff, forall_and] at each
  exact covers_diff_iff.mpr ⟨h.covers_of_children each.1, .of_children each.2⟩

/-- The common part of two canonical areas is canonical. -/
theorem Canonical.inter {a b : Area} (ha : a.Canonical) (hb : b.Canonical) :
    (a.inter b).Canonical := by
  refine (ha.antichain.inter hb.antichain).canonical fun t room each => ?_
  simp only [covers_inter, Bool.and_eq_true, forall_and] at each
  rw [covers_inter, Bool.and_eq_true]
  exact ⟨ha.covers_of_children each.1, hb.covers_of_children each.2⟩

/-! ### Laws of the intersection -/

theorem Canonical.inter_comm {a b : Area} (ha : a.Canonical) (hb : b.Canonical) :
    a.inter b = b.inter a := by
  refine (ha.inter hb).eq_of_sameCover (hb.inter ha) fun c _ => ?_
  rw [covers_inter, covers_inter, Bool.and_comm]

theorem Canonical.inter_assoc {a b c : Area} (ha : a.Canonical) (hb : b.Canonical)
    (hc : c.Canonical) : (a.inter b).inter c = a.inter (b.inter c) := by
  refine ((ha.inter hb).inter hc).eq_of_sameCover (ha.inter (hb.inter hc)) fun t _ => ?_
  rw [covers_inter, covers_inter, covers_inter, covers_inter, Bool.and_assoc]

/-- **Cutting keeps the smallest form.**  Any area can be taken out of one in smallest form, and no
member of the result lies inside another, no four members make up a tile, and there is nothing to
optimise.  The same holds for the common part of two areas in smallest form; and on such areas the
intersection is commutative and associative. -/
theorem cuts_keep_smallest_form (a b : Area) (ha : a.isOptimised = true) :
    (a.diff b).Canonical ∧ (a.diff b).optimise = a.diff b ∧
    (b.isOptimised = true →
      (a.inter b).Canonical ∧ (a.inter b).optimise = a.inter b ∧ a.inter b = b.inter a ∧
      ∀ c : Area, c.isOptimised = true → (a.inter b).inter c = a.inter (b.inter c)) := by
  rw [isOptimised_iff_canonical] at ha
  have left := ha.diff b
  refine ⟨left, left.optimise_eq, fun hb => ?_⟩
  rw [isOptimised_iff_canonical] at hb
  have common := ha.inter hb
  refine ⟨common, common.optimise_eq, ha.inter_comm hb, fun c hc => ?_⟩
  exact ha.inter_assoc hb (isOptimised_iff_canonical.mp hc)

/-- One member contains a member of the other area, and one lies inside another. -/
theorem cuts_keep_smallest_form_crossed :
    ∃ a b : Area, a.texts = ["0", "31"] ∧ b.texts = ["03", "3"] ∧
      a.isOptimised = true ∧ b.isOptimised = true ∧
      (a.diff b).texts = ["00", "01", "02"] ∧ (a.diff b).Canonical ∧
      (a.inter b).texts = ["03", "31"] ∧ a.inter b = b.inter a := by
  have first : (ofList [Tile.ofQuadrants [.northWest] (by decide) (by decide),
      Tile.ofQuadrants [.southEast, .northEast] (by decide) (by decide)]).isOptimised = true :=
    decide_eq_true (optimise_of_tidy_eq (by decide +kernel))
  have second : (ofList [Tile.ofQuadrants [.northWest, .southEast] (by decide) (by decide),
      Tile.ofQuadrants [.southEast] (by decide) (by decide)]).isOptimised = true :=
    decide_eq_true (optimise_of_tidy_eq (by decide +kernel))
  obtain ⟨canonical, -, common⟩ := cuts_keep_smallest_form _ _ first
  obtain ⟨-, -, commutes, -⟩ := common second
  exact ⟨_, _, rfl, rfl, first, second, by decide +kernel, canonical, by decide +kernel, commutes⟩

end Geotile.Area
