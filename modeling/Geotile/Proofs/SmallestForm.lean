/-
**The smallest form is the set of the largest filled tiles.**

The loop that brings an area to its smallest form works by two local changes.  This module shows
what each of them reaches.  Dropping covered members in one scan, with only the last member kept in
mind, keeps exactly the members that lie in no other: once a tile is left, nothing inside it comes
any more.  Merging from the deepest level up leaves no complete tile: a merge on one level can only
complete tiles of the level above, which is looked at next, and it puts no member inside another.
So one round reaches a canonical area, and the loop stops there.

A canonical area consists of its largest filled tiles, and neither change alters which of the
deepest tiles are covered.  The smallest form is therefore told by the covered area alone.

Main results:

* `Geotile.Area.mem_dropCovered`, `Geotile.Area.Antichain.mergeAt`,
  `Geotile.Area.mergeFrom_incomplete` — what dropping and merging reach;
* `Geotile.Area.canonical_tidy`, `Geotile.Area.optimise_eq_tidy` — one round reaches a canonical
  area, and the loop does no more than that;
* `Geotile.Area.sameAs_iff` — areas have the same smallest form exactly when they cover the same;
* `Geotile.Area.optimise_largest_filled` — **the smallest form consists of the largest filled
  tiles**, so it depends on the covered area only and covers the same.
-/

import Geotile.Proofs.Canonical

set_option autoImplicit false

namespace Geotile.Area

/-! ### Dropping covered members -/

/-- The scan keeps a member when neither the last member kept before it nor any other tile of the
list contains it. -/
theorem mem_dropCoveredAfter {kept : Option Tile} {ts : List Tile} {t : Tile}
    (sorted : ts.Pairwise (· < ·)) (first : ∀ k, kept = some k → ∀ u ∈ ts, k < u) :
    t ∈ dropCoveredAfter kept ts ↔
      t ∈ ts ∧ (∀ k, kept = some k → k.contains t = false) ∧
        ∀ u ∈ ts, u.contains t = true → u = t := by
  induction ts generalizing kept with
  | nil => simp [dropCoveredAfter]
  | cons x xs ih =>
      obtain ⟨least, rest⟩ := List.pairwise_cons.mp sorted
      rw [dropCoveredAfter]
      split
      · next covered =>
        -- `x` is dropped: what it contains lies inside the kept tile too
        obtain ⟨k, rfl, inside⟩ := (Option.any_eq_true ..).mp covered
        rw [ih rest fun k' hk u hu => first k' hk u (List.mem_cons_of_mem _ hu)]
        constructor
        · rintro ⟨mem, free, top⟩
          refine ⟨List.mem_cons_of_mem _ mem, free, fun u hu within => ?_⟩
          rcases List.mem_cons.mp hu with rfl | hu
          · have := Tile.contains_trans inside within
            rw [free k rfl] at this
            cases this
          · exact top u hu within
        · rintro ⟨mem, free, top⟩
          rcases List.mem_cons.mp mem with rfl | mem
          · rw [free k rfl] at inside
            cases inside
          · exact ⟨mem, free, fun u hu => top u (List.mem_cons_of_mem _ hu)⟩
      · next free =>
        -- `x` is kept: the kept tile before it is left for good
        rw [Option.any_eq_true] at free
        rw [List.mem_cons, ih rest (by rintro k ⟨⟩; exact least)]
        constructor
        · rintro (rfl | ⟨mem, outside, top⟩)
          · refine ⟨List.mem_cons_self .., fun k hk => ?_, fun u hu within => ?_⟩
            · exact Bool.eq_false_iff.mpr fun inside => free ⟨k, hk, inside⟩
            · rcases List.mem_cons.mp hu with rfl | hu
              · rfl
              · rw [Tile.not_contains_of_lt (least u hu)] at within
                cases within
          · refine ⟨List.mem_cons_of_mem _ mem, fun k hk => ?_, fun u hu within => ?_⟩
            · refine Bool.eq_false_iff.mpr fun inside => free ⟨k, hk, ?_⟩
              exact Tile.contains_of_between (first k hk x (List.mem_cons_self ..))
                (least t mem) inside
            · rcases List.mem_cons.mp hu with rfl | hu
              · rw [outside _ rfl] at within
                cases within
              · exact top u hu within
        · rintro ⟨mem, -, top⟩
          rcases List.mem_cons.mp mem with rfl | mem
          · exact .inl rfl
          · refine .inr ⟨mem, ?_, fun u hu => top u (List.mem_cons_of_mem _ hu)⟩
            rintro k ⟨⟩
            refine Bool.eq_false_iff.mpr fun within => ?_
            have same := top x (List.mem_cons_self ..) within
            exact Tile.lt_irrefl t (same ▸ least t mem)

/-- Dropping keeps exactly the members that lie in no other member. -/
theorem mem_dropCovered {a : Area} {t : Tile} :
    t ∈ a.dropCovered ↔ t ∈ a ∧ ∀ u ∈ a, u.contains t = true → u = t := by
  rw [mem_def, mem_def, dropCovered, mem_dropCoveredAfter a.sorted (by simp)]
  simp [mem_def]

/-- Every member lies inside one that lies in no other. -/
theorem exists_mem_dropCovered {a : Area} {t : Tile} (h : t ∈ a) :
    ∃ u ∈ a.dropCovered, u.contains t = true := by
  -- go to a less deep member as long as there is one
  induction depth : t.depth using Nat.strongRecOn generalizing t with
  | ind d ih =>
      by_cases top : ∀ u ∈ a, u.contains t = true → u = t
      · exact ⟨t, mem_dropCovered.mpr ⟨h, top⟩, Tile.contains_refl t⟩
      · simp only [Classical.not_forall] at top
        obtain ⟨u, hu, inside, other⟩ := top
        have le := Tile.depth_le_of_contains inside
        have lt : u.depth < d := by
          refine depth ▸ Nat.lt_of_le_of_ne le fun same => other ?_
          exact Tile.eq_of_contains_of_depth_le inside (Nat.le_of_eq same.symm)
        obtain ⟨v, hv, within⟩ := ih u.depth lt hu rfl
        exact ⟨v, hv, Tile.contains_trans within inside⟩

/-- Dropping covered members leaves every tile covered that was. -/
@[simp] theorem covers_dropCovered (a : Area) (t : Tile) : a.dropCovered.covers t = a.covers t := by
  rw [Bool.eq_iff_iff, covers_iff, covers_iff]
  constructor
  · rintro ⟨u, hu, inside⟩
    exact ⟨u, (mem_dropCovered.mp hu).1, inside⟩
  · rintro ⟨u, hu, inside⟩
    obtain ⟨v, hv, within⟩ := exists_mem_dropCovered hu
    exact ⟨v, hv, Tile.contains_trans within inside⟩

theorem antichain_dropCovered (a : Area) : a.dropCovered.Antichain := by
  intro t ht u hu inside
  exact (mem_dropCovered.mp hu).2 t (mem_dropCovered.mp ht).1 inside

theorem dropCovered_eq_of_antichain {a : Area} (h : a.Antichain) : a.dropCovered = a := by
  refine ext_mem fun t => ?_
  rw [mem_dropCovered]
  exact ⟨And.left, fun ht => ⟨ht, fun u hu inside => h u hu t ht inside⟩⟩

/-! ### Merging on one level -/

theorem isMerged_iff {a : Area} {level : Nat} {t : Tile} :
    a.isMerged level t = true ↔
      t.depth = level ∧ ∃ p, t.parent? = some p ∧ a.isComplete p = true := by
  simp [isMerged, Option.any_eq_true]

/-- Merging leaves every tile of the deepest level covered that was, and covers no other. -/
theorem sameCover_mergeAt (level : Nat) (a : Area) : SameCover (mergeAt level a) a := by
  intro c hc
  rw [Bool.eq_iff_iff, covers_iff, covers_iff]
  constructor
  · rintro ⟨u, hu, inside⟩
    rcases mem_mergeAt.mp hu with ⟨old, -⟩ | ⟨-, complete⟩
    · exact ⟨u, old, inside⟩
    · -- the deepest tile lies inside one of the children that were merged
      obtain ⟨room, members⟩ := isComplete_iff.mp complete
      obtain ⟨q, _, within⟩ := Tile.exists_child_contains inside (hc ▸ room)
      exact ⟨u.child q room, members q, within⟩
  · rintro ⟨u, hu, inside⟩
    cases merged : a.isMerged level u with
    | false => exact ⟨u, mem_mergeAt.mpr (.inl ⟨hu, merged⟩), inside⟩
    | true =>
        obtain ⟨depth, p, hp, complete⟩ := isMerged_iff.mp merged
        have next := Tile.depth_of_parent? hp
        obtain ⟨q, room, rfl⟩ := Tile.parent?_eq_some_iff.mp hp
        exact ⟨p, mem_mergeAt.mpr (.inr ⟨by omega, complete⟩),
          Tile.contains_trans (Tile.contains_child p q room) inside⟩

/-- Merging puts no member inside another. -/
theorem Antichain.mergeAt {a : Area} (h : a.Antichain) (level : Nat) :
    (mergeAt level a).Antichain := by
  intro t ht u hu inside
  rcases mem_mergeAt.mp ht with ⟨oldT, -⟩ | ⟨depthT, completeT⟩
  · rcases mem_mergeAt.mp hu with ⟨oldU, -⟩ | ⟨-, completeU⟩
    · exact h t oldT u oldU inside
    · -- an old member around a merged tile would contain its children
      obtain ⟨room, members⟩ := isComplete_iff.mp completeU
      have within := Tile.contains_trans inside (Tile.contains_child u .northWest room)
      have same := h t oldT _ (members .northWest) within
      have le := Tile.depth_le_of_contains inside
      rw [same, Tile.depth_child] at le
      omega
  · rcases mem_mergeAt.mp hu with ⟨oldU, unmerged⟩ | ⟨depthU, -⟩
    · rcases Nat.lt_or_ge t.depth u.depth with deep | le
      · -- an old member inside a merged tile would be one of its children, and merged itself
        obtain ⟨q, room, within⟩ := Tile.exists_child_contains inside deep
        obtain ⟨_, members⟩ := isComplete_iff.mp completeT
        have same := h _ (members q) u oldU within
        rw [← same, ← depthT, isMerged_child q completeT] at unmerged
        cases unmerged
      · exact Tile.eq_of_contains_of_depth_le inside le
    · exact Tile.eq_of_contains_of_depth_le inside (by omega)

/-- Merging on a level completes no tile of that level's parents or deeper ones. -/
theorem isComplete_mergeAt_eq_false {a : Area} {n : Nat}
    (deeper : ∀ t, n + 1 ≤ t.depth → a.isComplete t = false) {t : Tile} (ht : n ≤ t.depth) :
    (mergeAt (n + 1) a).isComplete t = false := by
  refine Bool.eq_false_iff.mpr fun complete => ?_
  obtain ⟨room, members⟩ := isComplete_iff.mp complete
  -- the children are too deep to have been added by merging, so they were there before
  have old : ∀ q, t.child q room ∈ a ∧ a.isMerged (n + 1) (t.child q room) = false := by
    intro q
    rcases mem_mergeAt.mp (members q) with kept | ⟨depth, -⟩
    · exact kept
    · rw [Tile.depth_child] at depth
      omega
  have before := isComplete_iff.mpr ⟨room, fun q => (old q).1⟩
  rcases Nat.lt_or_eq_of_le ht with lt | rfl
  · rw [deeper t lt] at before
    cases before
  · have merged : a.isMerged (t.depth + 1) (t.child .northWest room) = true :=
      isMerged_child .northWest before
    rw [(old .northWest).2] at merged
    cases merged

/-! ### Merging on all levels -/

theorem sameCover_mergeFrom (level : Nat) (a : Area) : SameCover (mergeFrom level a) a := by
  induction level generalizing a with
  | zero => exact .refl a
  | succ n ih => exact (ih (mergeAt (n + 1) a)).trans (sameCover_mergeAt (n + 1) a)

theorem Antichain.mergeFrom {a : Area} (h : a.Antichain) (level : Nat) :
    (mergeFrom level a).Antichain := by
  induction level generalizing a with
  | zero => exact h
  | succ n ih => exact ih (h.mergeAt (n + 1))

/-- When no tile at or below a level is complete, merging from that level up leaves none. -/
theorem mergeFrom_incomplete {level : Nat} {a : Area}
    (deeper : ∀ t, level ≤ t.depth → a.isComplete t = false) (t : Tile) :
    (mergeFrom level a).isComplete t = false := by
  induction level generalizing a with
  | zero => exact deeper t (Nat.zero_le _)
  | succ n ih => exact ih fun u hu => isComplete_mergeAt_eq_false deeper hu

theorem depth_le_deepest {a : Area} {t : Tile} (h : t ∈ a) : t.depth ≤ a.deepest?.getD 0 := by
  have mem : t.depth ∈ a.tiles.map Tile.depth := List.mem_map.mpr ⟨t, h, rfl⟩
  exact List.le_max?_getD_of_mem mem

theorem mergeSiblings_incomplete (a : Area) (t : Tile) : a.mergeSiblings.isComplete t = false := by
  refine mergeFrom_incomplete (fun u hu => Bool.eq_false_iff.mpr fun complete => ?_) t
  -- the children of a complete tile are no deeper than the deepest member
  obtain ⟨room, members⟩ := isComplete_iff.mp complete
  have le := depth_le_deepest (members .northWest)
  rw [Tile.depth_child] at le
  omega

/-- Where no tile is complete there is nothing to merge. -/
theorem mergeFrom_eq_of_incomplete {a : Area} (h : ∀ t, a.isComplete t = false) (level : Nat) :
    mergeFrom level a = a := by
  induction level with
  | zero => rfl
  | succ n ih =>
      have same : mergeAt (n + 1) a = a := by
        refine ext_mem fun t => ?_
        have unmerged : a.isMerged (n + 1) t = false := by
          refine Bool.eq_false_iff.mpr fun merged => ?_
          obtain ⟨-, p, -, complete⟩ := isMerged_iff.mp merged
          rw [h p] at complete
          cases complete
        rw [mem_mergeAt, h t, unmerged]
        simp
      rw [mergeFrom, same, ih]

/-! ### Rounds -/

/-- One round reaches a canonical area. -/
theorem canonical_tidy (a : Area) : a.tidy.Canonical where
  antichain := (antichain_dropCovered a).mergeFrom _
  incomplete := mergeSiblings_incomplete a.dropCovered

theorem sameCover_tidy (a : Area) : SameCover a.tidy a := by
  intro c hc
  rw [tidy, mergeSiblings, sameCover_mergeFrom _ _ c hc, covers_dropCovered]

theorem Canonical.tidy_eq {a : Area} (h : a.Canonical) : a.tidy = a := by
  rw [tidy, dropCovered_eq_of_antichain h.antichain, mergeSiblings,
    mergeFrom_eq_of_incomplete h.incomplete]

/-- The loop stops after the round that reaches a canonical area. -/
theorem optimise_eq_tidy (a : Area) : a.optimise = a.tidy := by
  by_cases h : a.tidy = a
  · rw [optimise_of_tidy_eq h, h]
  · rw [optimise_of_tidy_ne h, optimise_of_tidy_eq (canonical_tidy a).tidy_eq]

theorem canonical_optimise (a : Area) : a.optimise.Canonical :=
  optimise_eq_tidy a ▸ canonical_tidy a

theorem sameCover_optimise (a : Area) : SameCover a.optimise a :=
  optimise_eq_tidy a ▸ sameCover_tidy a

theorem Canonical.optimise_eq {a : Area} (h : a.Canonical) : a.optimise = a := by
  rw [optimise_eq_tidy, h.tidy_eq]

/-- An area is in its smallest form exactly when it is canonical. -/
theorem isOptimised_iff_canonical {a : Area} : a.isOptimised = true ↔ a.Canonical := by
  rw [isOptimised, decide_eq_true_eq]
  exact ⟨fun h => h ▸ canonical_optimise a, Canonical.optimise_eq⟩

/-- Areas that cover the same have the same smallest form. -/
theorem SameCover.optimise_eq {a b : Area} (h : SameCover a b) : a.optimise = b.optimise :=
  (canonical_optimise a).eq_of_sameCover (canonical_optimise b)
    (((sameCover_optimise a).trans h).trans (sameCover_optimise b).symm)

/-- The test for covering the same, by the smallest forms, is exact. -/
theorem sameAs_iff {a b : Area} : a.sameAs b = true ↔ SameCover a b := by
  rw [sameAs, decide_eq_true_eq]
  constructor
  · intro same
    exact ((sameCover_optimise a).symm.trans (same ▸ .refl _)).trans (sameCover_optimise b)
  · exact SameCover.optimise_eq

/-- The four children of a tile cover what the tile does. -/
theorem sameAs_children {t : Tile} (room : t.depth < maxDepth) :
    (ofList (Quadrant.all.map fun q => t.child q room)).sameAs (single t) = true := by
  rw [sameAs_iff]
  intro c hc
  rw [Bool.eq_iff_iff, covers_iff, covers_iff]
  simp only [mem_ofList, List.mem_map, Quadrant.mem_all, true_and, mem_single, exists_eq_left]
  constructor
  · rintro ⟨u, ⟨q, rfl⟩, inside⟩
    exact Tile.contains_trans (Tile.contains_child t q room) inside
  · intro inside
    obtain ⟨q, _, within⟩ := Tile.exists_child_contains inside (hc ▸ room)
    exact ⟨t.child q room, ⟨q, rfl⟩, within⟩

/-! ### The smallest form -/

/-- **The smallest form consists of the largest filled tiles.**  A tile is a member exactly when
every deepest tile inside it is covered by the area, and it is a quadrant of the map or some
deepest tile inside its parent is not covered.  So the smallest form is the same for any two areas
that cover the same, and it covers what the area does. -/
theorem optimise_largest_filled (a : Area) :
    (∀ t, t ∈ a.optimise ↔
      (∀ c : Tile, c.depth = maxDepth → t.contains c = true → a.covers c = true) ∧
        (t.depth = 1 ∨ ∃ p, t.parent? = some p ∧
          ∃ c : Tile, c.depth = maxDepth ∧ p.contains c = true ∧ a.covers c = false)) ∧
    (∀ b : Area, (∀ c : Tile, c.depth = maxDepth → a.covers c = b.covers c) →
      a.optimise = b.optimise) ∧
    ∀ c : Tile, c.depth = maxDepth → a.optimise.covers c = a.covers c := by
  have same := sameCover_optimise a
  refine ⟨fun t => ?_, fun b => SameCover.optimise_eq, same⟩
  rw [(canonical_optimise a).mem_iff, same.fills_iff]
  simp only [same.fills_iff, not_fills_iff]
  exact Iff.rfl

end Geotile.Area
