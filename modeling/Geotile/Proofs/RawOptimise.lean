/-
**Sets of paths settle in their smallest form.**

Rounds are made until one drops no member and merges no group, and the number of members bounds the
number of rounds.  Both tests are about what a round did, not about what came out of it; they agree
with comparing the area before and after, since whatever is dropped or merged leaves fewer members.
Within a level the groups are merged one after the other, while the running area changes.  No group
is affected by another one, because what a level is merged into lies one level higher.

Main definitions:

* `Geotile.Area.mergeInto` — a tile put in place of its four children.

Main results:

* `Geotile.Area.foldl_mergeInto` — the groups of a level merged one after the other;
* `Geotile.Area.tidy_ne_iff` — when a round changes something;
* `Geotile.Raw.Members.settle_succ_raw` — one round;
* `Geotile.Raw.Members.settle_raw`, `Geotile.Raw.Members.optimise_raw` — the rounds come to their
  end, in the smallest form;
* `Geotile.Raw.Members.symmDiff_raw` — the symmetric difference.
-/

import Geotile.Proofs.RawMembers

set_option autoImplicit false

namespace Geotile

open Checked

/-! ### Levels and rounds -/

namespace Area

/-- An area with a tile in place of its four children. -/
def mergeInto (a : Area) (p : Tile) : Area := (a.filter fun t => t.parent? ≠ some p).insert p

theorem mem_mergeInto {a : Area} {p t : Tile} :
    t ∈ a.mergeInto p ↔ t = p ∨ (t ∈ a ∧ t.parent? ≠ some p) := by
  simp [mergeInto]

/-- Merging groups that are not nested takes out all their members and puts in what they make
up. -/
theorem mem_foldl_mergeInto {ps : List Tile} (apart : ∀ p ∈ ps, ∀ p' ∈ ps, p.parent? ≠ some p')
    {a : Area} {t : Tile} :
    t ∈ ps.foldl mergeInto a ↔ t ∈ ps ∨ (t ∈ a ∧ ∀ p ∈ ps, t.parent? ≠ some p) := by
  induction ps generalizing a with
  | nil => simp
  | cons p ps ih =>
      rw [List.forall_mem_cons] at apart
      have later : ∀ q ∈ ps, ∀ q' ∈ ps, q.parent? ≠ some q' := fun q hq q' hq' =>
        apart.2 q hq q' (List.mem_cons_of_mem p hq')
      rw [List.foldl_cons, ih later, mem_mergeInto, List.mem_cons, List.forall_mem_cons]
      constructor
      · rintro (mem | ⟨rfl | ⟨mem, other⟩, others⟩)
        · exact .inl (.inr mem)
        · exact .inl (.inl rfl)
        · exact .inr ⟨mem, other, others⟩
      · rintro ((rfl | mem) | ⟨mem, other, others⟩)
        · exact .inr ⟨.inl rfl, fun q hq => apart.1 q (List.mem_cons_of_mem t hq)⟩
        · exact .inl mem
        · exact .inr ⟨.inr ⟨mem, other⟩, others⟩

/-- Merging the groups of a level one after the other merges the level. -/
theorem foldl_mergeInto (level : Nat) (a : Area) :
    ((a.tiles.filter (a.leadsMerge level)).filterMap Tile.parent?).foldl mergeInto a
      = a.mergeAt level := by
  refine ext_mem fun t => ?_
  rw [mem_foldl_mergeInto, mem_mergeAt, mem_parents_of_leadsMerge, or_comm]
  · refine or_congr_left (and_congr_right fun _ => ?_)
    rw [Bool.eq_false_iff]
    simp only [mem_parents_of_leadsMerge, isMerged, ne_eq, Bool.and_eq_true, decide_eq_true_eq,
      Option.any_eq_true, not_and, not_exists]
    constructor
    · intro others depth p hp complete
      exact others p ⟨by rw [← Tile.depth_of_parent? hp, depth], complete⟩ hp
    · intro others p above hp
      exact others (by rw [Tile.depth_of_parent? hp, above.1]) p hp above.2
  · intro p hp p' hp' same
    have deeper := Tile.depth_of_parent? same
    have one := (mem_parents_of_leadsMerge.mp hp).1
    have two := (mem_parents_of_leadsMerge.mp hp').1
    omega

/-- Only where no group is merged the area stays as it is. -/
theorem mergeAt_eq_iff {level : Nat} {a : Area} :
    a.mergeAt level = a ↔ (a.tiles.filter (a.leadsMerge level)).filterMap Tile.parent? = [] := by
  constructor
  · intro same
    refine List.eq_nil_iff_forall_not_mem.mpr fun p hp => ?_
    obtain ⟨rfl, complete⟩ := mem_parents_of_leadsMerge.mp hp
    obtain ⟨room, members⟩ := isComplete_iff.mp complete
    have stays : p.child .northWest room ∈ a.mergeAt (p.depth + 1) := same.symm ▸ members _
    rcases mem_mergeAt.mp stays with ⟨-, free⟩ | ⟨depth, -⟩
    · rw [isMerged_child _ complete] at free
      cases free
    · rw [Tile.depth_child] at depth
      omega
  · intro none
    rw [← foldl_mergeInto, none]
    rfl

theorem mergeAt_one (a : Area) : a.mergeAt 1 = a := by
  refine mergeAt_eq_iff.mpr (List.eq_nil_iff_forall_not_mem.mpr fun p hp => ?_)
  have depth := (mem_parents_of_leadsMerge.mp hp).1
  have pos := p.depth_pos
  omega

theorem mem_foldl_erase {ts : List Tile} {a : Area} {u : Tile} :
    u ∈ ts.foldl (fun a t => a.erase t) a ↔ u ∈ a ∧ u ∉ ts := by
  induction ts generalizing a with
  | nil => simp
  | cons t ts ih => rw [List.foldl_cons, ih, mem_erase, List.mem_cons, not_or, and_assoc]

/-- Where two steps in a row keep an area or leave fewer members, the area is kept by both only if
the first one keeps it. -/
theorem eq_of_eq_or_size_lt {a b c : Area} (first : b = a ∨ b.size < a.size)
    (second : c = b ∨ c.size < b.size) (same : c = a) : b = a := by
  subst same
  rcases first with kept | fewer
  · exact kept
  · rcases second with kept | fewer'
    · exact kept.symm
    · exact absurd (Nat.lt_trans fewer fewer') (Nat.lt_irrefl _)

theorem mergeFrom_succ_ne_iff {n : Nat} {a : Area} :
    a.mergeFrom (n + 1) ≠ a ↔
      a.mergeAt (n + 1) ≠ a ∨ (a.mergeAt (n + 1)).mergeFrom n ≠ a.mergeAt (n + 1) := by
  rw [mergeFrom]
  constructor
  · intro changed
    by_cases same : a.mergeAt (n + 1) = a
    · rw [same] at changed ⊢
      exact .inr changed
    · exact .inl same
  · intro changed same
    have kept := eq_of_eq_or_size_lt (mergeAt_eq_or_size_lt (n + 1) a)
      (mergeFrom_eq_or_size_lt n _) same
    rw [kept] at changed same
    exact changed.elim (fun h => h rfl) fun h => h same

theorem deepest?_le (a : Area) : a.deepest?.getD 0 ≤ maxDepth := by
  cases h : a.deepest? with
  | none => exact Nat.zero_le _
  | some d =>
      obtain ⟨t, -, rfl⟩ := List.mem_map.mp (List.max?_mem h)
      exact t.depth_le

/-- A round changes something exactly when a member is dropped or a group is merged. -/
theorem tidy_ne_iff {a : Area} :
    a.tidy ≠ a ↔ a.dropCovered.size ≠ a.size ∨ a.dropCovered.mergeSiblings ≠ a.dropCovered := by
  rw [tidy]
  constructor
  · intro changed
    rcases dropCovered_eq_or_size_lt a with same | fewer
    · rw [same] at changed ⊢
      exact .inr changed
    · exact .inl (Nat.ne_of_lt fewer)
  · intro changed same
    have kept := eq_of_eq_or_size_lt (dropCovered_eq_or_size_lt a)
      (mergeFrom_eq_or_size_lt _ a.dropCovered) same
    rw [kept] at changed same
    exact changed.elim (fun h => h rfl) fun h => h same

end Area

namespace Raw.Members

/-! ### The smallest form -/

theorem dropCoveredAfter_eq (kept : Option Tile) (ts : List Tile) :
    dropCoveredAfter (kept.map Tile.raw) (ts.map Tile.raw)
      = .ok ((Area.dropCoveredAfter kept ts).map Tile.raw) := by
  induction ts generalizing kept with
  | nil => rfl
  | cons t ts ih =>
      have covered : coveredBy t.raw (kept.map Tile.raw)
          = .ok (kept.any fun k => k.contains t) := by
        cases kept with
        | none => rfl
        | some k => exact Path.contains_eq k t
      rw [List.map_cons, dropCoveredAfter, covered, ok_bind, Area.dropCoveredAfter]
      split
      · exact ih kept
      · rw [show some t.raw = (some t).map Tile.raw from rfl, ih]
        rfl

theorem isComplete_raw (a : Area) (t : Tile) : isComplete a.raw t.raw = .ok (a.isComplete t) := by
  rw [isComplete, Path.children?_eq, Tile.children?, ok_bind, Area.isComplete]
  by_cases room : t.depth < maxDepth
  · rw [dif_pos room, dif_pos room]
    dsimp only [Option.map_some]
    rw [allM_map fun u _ => has_raw u a, List.all_map]
    rfl
  · rw [dif_neg room, dif_neg room]
    rfl

/-- A group of four is found by the first of them. -/
theorem mergedBy?_raw (a : Area) {level : Nat} (deep : 2 ≤ level) (le : level ≤ maxDepth)
    (t : Tile) : mergedBy? a.raw (.ofNat level) t.raw
      = .ok ((if a.leadsMerge level t then t.parent? else none).map Tile.raw) := by
  have small := lt_byte_of_le_maxDepth le
  have depth : t.raw.depth ≠ .ofNat level ↔ t.depth ≠ level :=
    not_congr (byte_inj t.depth_lt_byte small)
  rw [mergedBy?, Area.leadsMerge, Area.isMerged]
  by_cases same : t.depth = level
  · subst same
    have first : some (UInt8.ofNat t.lastQuadrant.number) ≠ some 0 ↔
        t.lastQuadrant ≠ .northWest := by
      cases t.lastQuadrant <;> decide
    have digit : t.raw.digit? (.ofNat (t.depth - 1))
        = .ok (some (.ofNat t.lastQuadrant.number)) := by
      rw [Path.digit?_eq t (by omega), Tile.quadrant?, if_pos (by omega), Nat.sub_self,
        Packed.drop_zero]
      rfl
    rw [if_neg (by rw [depth]; exact fun h => h rfl), minus_one (by omega) small, ok_bind, digit,
      ok_bind, decide_eq_true rfl, Bool.true_and]
    by_cases leads : t.lastQuadrant = .northWest
    · rw [if_neg (by rw [first]; exact fun h => h leads), Path.parent?_eq, ok_bind, leads]
      cases t.parent? with
      | none => rfl
      | some p =>
          dsimp only [Option.map_some]
          rw [isComplete_raw, Option.any_some]
          cases a.isComplete p <;> rfl
    · rw [if_pos (first.mpr leads), decide_eq_false leads, Bool.and_false]
      rfl
  · rw [if_pos (depth.mpr same), decide_eq_false same]
    rfl

theorem merge_raw (a : Area) (p : Tile) : merge a.raw p.raw = .ok (a.mergeInto p).raw := by
  rw [merge, Path.children?_eq, Tile.children?, ok_bind]
  by_cases room : p.depth < maxDepth
  · have child : ∀ u, u ∈ (Quadrant.all.map fun q => p.child q room) ↔ u.parent? = some p := by
      intro u
      rw [List.mem_map, Tile.parent?_eq_some_iff]
      constructor
      · rintro ⟨q, -, rfl⟩
        exact ⟨q, room, rfl⟩
      · rintro ⟨q, _, rfl⟩
        exact ⟨q, Quadrant.mem_all q, rfl⟩
    rw [dif_pos room]
    dsimp only [Option.map_some]
    rw [foldlM_map (g := Area.raw) (k := fun a t => a.erase t) fun a t _ => remove_raw t a,
      ok_bind, insert_raw]
    refine congrArg (fun a : Area => Except.ok a.raw) (Area.ext_mem fun u => ?_)
    rw [Area.mem_insert, Area.mem_foldl_erase, Area.mem_mergeInto, child]
  · have childless : ∀ u : Tile, u.parent? ≠ some p := by
      intro u hu
      obtain ⟨_, below, -⟩ := Tile.parent?_eq_some_iff.mp hu
      exact room below
    rw [dif_neg room]
    refine (insert_raw p a).trans ?_
    refine congrArg (fun a : Area => Except.ok a.raw) (Area.ext_mem fun u => ?_)
    rw [Area.mem_insert, Area.mem_mergeInto]
    simp [childless]

theorem mergeAt_raw (a : Area) {level : Nat} (deep : 2 ≤ level) (le : level ≤ maxDepth) :
    mergeAt (.ofNat level) a.raw
      = .ok ((a.mergeAt level).raw, decide (a.mergeAt level ≠ a)) := by
  have groups : a.raw.mapM (mergedBy? a.raw (.ofNat level)) = .ok (a.tiles.map fun t =>
      (if a.leadsMerge level t then t.parent? else none).map Tile.raw) :=
    mapM_map fun t _ => mergedBy?_raw a deep le t
  have parents : (a.tiles.map fun t =>
      (if a.leadsMerge level t then t.parent? else none).map Tile.raw).filterMap id
        = ((a.tiles.filter (a.leadsMerge level)).filterMap Tile.parent?).map Tile.raw := by
    rw [List.filterMap_map, List.filterMap_filter, List.map_filterMap]
    rfl
  rw [mergeAt, groups, ok_bind, parents]
  dsimp only
  rw [foldlM_map (g := Area.raw) (k := Area.mergeInto) fun a p _ => merge_raw a p,
    Area.foldl_mergeInto, ok_bind]
  simp only [ne_eq, Area.mergeAt_eq_iff, List.isEmpty_map]
  cases (a.tiles.filter (a.leadsMerge level)).filterMap Tile.parent? <;> rfl

theorem mergeFrom_raw (a : Area) {level : Nat} (le : level ≤ maxDepth) :
    mergeFrom level a.raw = .ok ((a.mergeFrom level).raw, decide (a.mergeFrom level ≠ a)) := by
  induction level generalizing a with
  | zero =>
      rw [mergeFrom, decide_eq_false (fun h => h rfl)]
      rfl
  | succ n ih =>
      cases n with
      | zero =>
          rw [mergeFrom, Area.mergeFrom, Area.mergeAt_one, decide_eq_false (fun h => h rfl)]
          rfl
      | succ n =>
          rw [mergeFrom, mergeAt_raw a (by omega) le, ok_bind]
          dsimp only
          rw [ih _ (by omega), ok_bind]
          refine congrArg (fun flag => Except.ok (_, flag)) ?_
          rw [Bool.eq_iff_iff, Bool.or_eq_true, decide_eq_true_eq, decide_eq_true_eq,
            decide_eq_true_eq]
          exact Area.mergeFrom_succ_ne_iff.symm

theorem mergeSiblings_raw (a : Area) :
    mergeSiblings a.raw = .ok (a.mergeSiblings.raw, decide (a.mergeSiblings ≠ a)) := by
  have depths : a.raw.map (fun p => p.depth.toNat) = a.tiles.map Tile.depth := by
    rw [Area.raw, List.map_map]
    exact List.map_congr_left fun t _ => t.toNat_depth_raw
  rw [mergeSiblings, depths]
  exact mergeFrom_raw a a.deepest?_le

theorem dropCovered_raw (a : Area) : dropCoveredAfter none a.raw = .ok a.dropCovered.raw :=
  dropCoveredAfter_eq none a.tiles

/-- A round is the last one when it changes nothing. -/
theorem settle_succ_raw (n : Nat) (a : Area) :
    settle (n + 1) a.raw = if a.tidy = a then .ok a.raw else settle n a.tidy.raw := by
  rw [settle, dropCovered_raw, ok_bind, mergeSiblings_raw, ok_bind]
  have sizes : (a.dropCovered.raw.length = a.raw.length) = (a.dropCovered.size = a.size) := by
    rw [Area.raw, Area.raw, List.length_map, List.length_map]
    rfl
  simp only [sizes]
  by_cases changed : a.tidy = a
  · have calm := mt Area.tidy_ne_iff.mpr (not_not_intro changed)
    rw [not_or, not_not, not_not] at calm
    rw [if_pos (by simp [calm]), if_pos changed]
    exact congrArg (fun a : Area => Except.ok a.raw) changed
  · have stirred := Area.tidy_ne_iff.mp changed
    rw [if_neg (by simpa [imp_iff_not_or] using stirred), if_neg changed]
    rfl

theorem settle_raw {n : Nat} {a : Area} (h : a.size < n) :
    settle n a.raw = .ok a.optimise.raw := by
  induction n generalizing a with
  | zero => omega
  | succ n ih =>
      rw [settle_succ_raw]
      by_cases changed : a.tidy = a
      · rw [if_pos changed, Area.optimise_of_tidy_eq changed]
      · have fewer := (Area.tidy_eq_or_size_lt a).resolve_left changed
        rw [if_neg changed, Area.optimise_of_tidy_ne changed]
        exact ih (show a.tidy.size < n by omega)

theorem optimise_raw (a : Area) : optimise a.raw = .ok a.optimise.raw := by
  refine settle_raw ?_
  rw [Area.raw, List.length_map]
  exact Nat.lt_succ_self _

theorem symmDiff_raw (a b : Area) : symmDiff a.raw b.raw = .ok (a.symmDiff b).raw := by
  rw [symmDiff, union_raw, ok_bind, inter_raw, ok_bind, diff_raw, ok_bind, optimise_raw]
  rfl

end Raw.Members

end Geotile
