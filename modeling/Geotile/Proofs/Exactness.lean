/-
**When covering is exact.**

Whether a tile is covered is looked up along the tiles that it lies in, so a tile is covered only
when a single member contains it.  Four members that make up a tile fill it and yet do not cover it.
An area is *exact* when this does not happen: whatever is filled is covered, on every level.

Exactness is a matter of one level at a time.  If a tile is covered whenever its four children are,
covering rises from the deepest level up to every tile that is filled.  The smallest form is exact
for this reason.  It is not the only exact form, since members inside other members do no harm; but
it is the only one in which none is nested.

So whether an area is in its smallest form, a test that goes through all rounds of dropping and
merging, can be told from its members alone, and as well from what it covers.

Main definitions:

* `Geotile.Area.Exact` — what is filled is covered.

Main results:

* `Geotile.Area.exact_iff_closed` — exactness level by level;
* `Geotile.Area.canonical_iff_exact` — an antichain is canonical exactly when it is exact;
* `Geotile.Area.isOptimised_iff_members_iff_exact` — **the smallest form told by its members, and by
  what it covers**.
-/

import Geotile.Proofs.SmallestForm

set_option autoImplicit false

namespace Geotile.Area

/-! ### Exact areas -/

/-- A tile of any depth is covered exactly when all deepest tiles inside it are. -/
def Exact (a : Area) : Prop := ∀ t, a.covers t = true ↔ a.Fills t

/-- An area is exact when it covers every tile whose four children it covers. -/
theorem exact_iff_closed {a : Area} :
    a.Exact ↔ ∀ t : Tile, ∀ room : t.depth < maxDepth,
      (∀ q, a.covers (t.child q room) = true) → a.covers t = true := by
  constructor
  · intro exact t room each
    refine (exact t).mpr fun c hc inside => ?_
    obtain ⟨q, _, within⟩ := Tile.exists_child_contains inside (hc ▸ room)
    exact covers_of_contains (each q) within
  · intro closed t
    exact ⟨fills_of_covers, fun filled => filled.covers_of_closed closed⟩

/-! ### Exact antichains -/

/-- An area without nested members is canonical exactly when it is exact. -/
theorem canonical_iff_exact {a : Area} : a.Canonical ↔ a.Antichain ∧ a.Exact := by
  rw [exact_iff_closed]
  exact ⟨fun h => ⟨h.antichain, fun _ _ => h.covers_of_children⟩, fun h => h.1.canonical h.2⟩

/-! ### The smallest form -/

/-- Being canonical is a matter of the members alone. -/
theorem canonical_iff_members {a : Area} :
    a.Canonical ↔ a.Antichain ∧
      ¬ ∃ t : Tile, ∃ room : t.depth < maxDepth, ∀ q, t.child q room ∈ a := by
  constructor
  · intro h
    refine ⟨h.antichain, fun ⟨t, members⟩ => ?_⟩
    have complete := isComplete_iff.mpr members
    rw [h.incomplete t] at complete
    cases complete
  · rintro ⟨apart, none⟩
    refine ⟨apart, fun t => Bool.eq_false_iff.mpr fun complete => none ⟨t, ?_⟩⟩
    exact isComplete_iff.mp complete

/-- **The smallest form told by its members, and by what it covers.**  An area is in its smallest
form exactly when no member contains another one and no tile has all four children among the
members.  And it is so exactly when no member contains another one and covering is exact: a tile of
any depth is covered just when every tile of the deepest level inside it is. -/
theorem isOptimised_iff_members_iff_exact (a : Area) :
    (a.isOptimised = true ↔
      (∀ t ∈ a, ∀ u ∈ a, t.contains u = true → t = u) ∧
        ¬ ∃ t : Tile, ∃ room : t.depth < maxDepth, ∀ q, t.child q room ∈ a) ∧
    (a.isOptimised = true ↔
      (∀ t ∈ a, ∀ u ∈ a, t.contains u = true → t = u) ∧
        ∀ t : Tile, a.covers t = true ↔
          ∀ c : Tile, c.depth = maxDepth → t.contains c = true → a.covers c = true) :=
  ⟨isOptimised_iff_canonical.trans canonical_iff_members,
    isOptimised_iff_canonical.trans canonical_iff_exact⟩

end Geotile.Area
