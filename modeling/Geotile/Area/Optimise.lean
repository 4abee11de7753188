/-
**The smallest form of an area.**

Two changes leave the covered area as it is: a member that lies inside another can be dropped,
and four members that make up one tile can be replaced by it.  The smallest form is reached by
applying both in turn until neither changes anything.

Dropping is one scan in order, since the tiles inside a tile come right after it: only the last
member that was kept can cover the next one.  Merging goes from the deepest level up, so that a
merge which completes a group one level higher is seen on the way.

Main definitions:

* `Geotile.Area.dropCovered` — drop every member that lies inside another;
* `Geotile.Area.isComplete`, `Geotile.Area.mergeAt`, `Geotile.Area.mergeSiblings` — replace four
  tiles by the one that they make up, on one level and on all;
* `Geotile.Area.optimise`, `Geotile.Area.isOptimised`, `Geotile.Area.sameAs` — the smallest form,
  whether an area is in it, and whether two areas have the same one.

Main results:

* `Geotile.Area.mem_mergeAt` — the members after merging on one level;
* `Geotile.Area.tidy_eq_or_size_lt` — a round that changes anything leaves fewer members, so
  there is a last one.
-/

import Geotile.Area.Basic

set_option autoImplicit false

namespace Geotile

/-! ### The quadrant that a tile fills -/

namespace Tile

/-- The quadrant of its parent that a tile fills. -/
def lastQuadrant (t : Tile) : Quadrant := Packed.lowest t.code

theorem code_lt_of_room {t : Tile} (room : t.depth < maxDepth) : t.code.toNat < tileCount 31 :=
  Nat.lt_of_lt_of_le t.code_lt (tileCount_le (Nat.le_of_lt_succ room))

@[simp] theorem lastQuadrant_child (t : Tile) (q : Quadrant) (room : t.depth < maxDepth) :
    (t.child q room).lastQuadrant = q :=
  Packed.lowest_push (code_lt_of_room room) q

/-- The four children of a tile are different. -/
theorem child_inj {t : Tile} {p q : Quadrant} {room : t.depth < maxDepth} :
    t.child p room = t.child q room ↔ p = q := by
  constructor
  · intro same
    rw [← lastQuadrant_child t p room, same, lastQuadrant_child]
  · intro same
    rw [same]

@[simp] theorem parent?_child (t : Tile) (q : Quadrant) (room : t.depth < maxDepth) :
    (t.child q room).parent? = some t := by
  have deep : 1 < (t.child q room).depth := by
    have := t.depth_pos
    simp
    omega
  rw [parent?, dif_pos deep, Option.some_inj, eq_iff]
  refine ⟨?_, by simp⟩
  show Packed.drop (t.depth + 1 - (t.depth + 1 - 1)) (Packed.push t.code q) = t.code
  rw [show t.depth + 1 - (t.depth + 1 - 1) = 1 by omega]
  exact Packed.upper_push (code_lt_of_room room) q

end Tile

namespace Area

/-! ### Dropping covered members -/

/-- The members of an ordered list that do not lie inside an earlier one, given the last one that
was kept. -/
def dropCoveredAfter (kept : Option Tile) : List Tile → List Tile
  | [] => []
  | t :: ts =>
    if kept.any fun k => k.contains t then dropCoveredAfter kept ts
    else t :: dropCoveredAfter (some t) ts

theorem dropCoveredAfter_sublist (kept : Option Tile) (ts : List Tile) :
    (dropCoveredAfter kept ts).Sublist ts := by
  induction ts generalizing kept with
  | nil => exact .slnil
  | cons t ts ih =>
      rw [dropCoveredAfter]
      split
      · exact (ih kept).cons t
      · exact (ih (some t)).cons_cons t

/-- The area without the members that lie inside another one. -/
def dropCovered (a : Area) : Area :=
  ⟨dropCoveredAfter none a.tiles, a.sorted.sublist (dropCoveredAfter_sublist none a.tiles)⟩

theorem dropCovered_eq_or_size_lt (a : Area) : a.dropCovered = a ∨ a.dropCovered.size < a.size := by
  have sub := dropCoveredAfter_sublist none a.tiles
  rcases Nat.lt_or_eq_of_le sub.length_le with h | h
  · exact .inr h
  · exact .inl (ext_tiles (sub.eq_of_length h))

/-! ### Merging four tiles into one -/

/-- Whether the four tiles that make up a tile are all members. -/
def isComplete (a : Area) (t : Tile) : Bool :=
  if room : t.depth < maxDepth then Quadrant.all.all fun q => t.child q room ∈ a else false

theorem isComplete_iff {a : Area} {t : Tile} :
    a.isComplete t = true ↔ ∃ room : t.depth < maxDepth, ∀ q, t.child q room ∈ a := by
  unfold isComplete
  split
  · next room => simp [room]
  · next room => simp [room]

/-- Whether a tile of the given level is one of four members that make up a tile. -/
def isMerged (a : Area) (level : Nat) (t : Tile) : Bool :=
  t.depth = level && t.parent?.any a.isComplete

/-- Whether a tile is the first of four members of the given level that make up a tile. -/
def leadsMerge (a : Area) (level : Nat) (t : Tile) : Bool :=
  a.isMerged level t && t.lastQuadrant = .northWest

/-- Each four members of one level that make up a tile replaced by it. -/
def mergeAt (level : Nat) (a : Area) : Area :=
  insertAll ((a.tiles.filter (a.leadsMerge level)).filterMap Tile.parent?)
    (a.filter fun t => !a.isMerged level t)

theorem isMerged_child {a : Area} {t : Tile} {room : t.depth < maxDepth} (q : Quadrant)
    (h : a.isComplete t = true) : a.isMerged (t.depth + 1) (t.child q room) = true := by
  simp [isMerged, h]

/-- The tiles that a level is merged into are those one level higher that are complete. -/
theorem mem_parents_of_leadsMerge {level : Nat} {a : Area} {t : Tile} :
    t ∈ (a.tiles.filter (a.leadsMerge level)).filterMap Tile.parent? ↔
      t.depth + 1 = level ∧ a.isComplete t = true := by
  rw [List.mem_filterMap]
  constructor
  · rintro ⟨u, hu, hp⟩
    have ⟨_, lead⟩ := List.mem_filter.mp hu
    simp only [leadsMerge, isMerged, hp, Option.any_some, Bool.and_eq_true, decide_eq_true_eq]
      at lead
    refine ⟨?_, lead.1.2⟩
    rw [Tile.parent?] at hp
    split at hp
    · cases hp
      have := lead.1.1
      simp
      omega
    · cases hp
  · rintro ⟨rfl, complete⟩
    obtain ⟨room, members⟩ := isComplete_iff.mp complete
    refine ⟨t.child .northWest room, List.mem_filter.mpr ⟨members _, ?_⟩, by simp⟩
    simp [leadsMerge, isMerged_child _ complete]

/-- After merging on one level the members are those that were not merged, and the tiles one
level higher that were complete. -/
theorem mem_mergeAt {level : Nat} {a : Area} {t : Tile} :
    t ∈ mergeAt level a ↔
      (t ∈ a ∧ a.isMerged level t = false) ∨ (t.depth + 1 = level ∧ a.isComplete t = true) := by
  rw [mergeAt, mem_insertAll, mem_parents_of_leadsMerge, mem_filter, or_comm]
  exact or_congr_left (by simp)

theorem countP_lt_of_imp {α : Type} {p q : α → Bool} (imp : ∀ x, p x = true → q x = true)
    {xs : List α} {x : α} (mem : x ∈ xs) (hq : q x = true) (hp : p x = false) :
    xs.countP p < xs.countP q := by
  induction xs with
  | nil => cases mem
  | cons y ys ih =>
      have le : ys.countP p ≤ ys.countP q := List.countP_mono_left fun z _ => imp z
      rw [List.countP_cons, List.countP_cons]
      rcases List.mem_cons.mp mem with rfl | mem
      · simp [hq, hp]
        omega
      · have := ih mem
        cases hy : p y with
        | true => simp [imp y hy, this]
        | false =>
            simp
            omega

/-- Merging on one level changes nothing or leaves fewer members. -/
theorem mergeAt_eq_or_size_lt (level : Nat) (a : Area) :
    mergeAt level a = a ∨ (mergeAt level a).size < a.size := by
  by_cases none : ∃ t, t.depth + 1 = level ∧ a.isComplete t = true
  · -- some tile is complete: at least four members go for each one that is added
    right
    obtain ⟨t, rfl, complete⟩ := none
    obtain ⟨room, members⟩ := isComplete_iff.mp complete
    have fewer : a.tiles.countP (a.leadsMerge (t.depth + 1))
        < a.tiles.countP (a.isMerged (t.depth + 1)) := by
      refine countP_lt_of_imp ?_ (members .northEast) (isMerged_child _ complete) ?_
      · intro u hu
        simp only [leadsMerge, Bool.and_eq_true] at hu
        exact hu.1
      · simp [leadsMerge]
    have added := size_insertAll_le
      ((a.tiles.filter (a.leadsMerge (t.depth + 1))).filterMap Tile.parent?)
      (a.filter fun u => !a.isMerged (t.depth + 1) u)
    have short := List.length_filterMap_le Tile.parent?
      (a.tiles.filter (a.leadsMerge (t.depth + 1)))
    have rest := List.length_eq_countP_add_countP (l := a.tiles) (a.isMerged (t.depth + 1))
    rw [← List.countP_eq_length_filter] at short
    have kept : (a.filter fun u => !a.isMerged (t.depth + 1) u).size
        = a.tiles.countP fun u => !a.isMerged (t.depth + 1) u :=
      List.countP_eq_length_filter.symm
    rw [← mergeAt] at added
    have total : a.size = a.tiles.length := rfl
    have same : (a.tiles.countP fun u => decide (¬a.isMerged (t.depth + 1) u = true))
        = a.tiles.countP fun u => !a.isMerged (t.depth + 1) u := by
      refine List.countP_congr fun u _ => ?_
      simp
    omega
  · -- no tile is complete: no member goes and none is added
    left
    refine ext_mem fun t => ?_
    rw [mem_mergeAt]
    constructor
    · rintro (h | h)
      · exact h.1
      · exact absurd ⟨t, h⟩ none
    · intro h
      refine .inl ⟨h, ?_⟩
      rw [Bool.eq_false_iff]
      intro merged
      simp only [isMerged, Bool.and_eq_true, decide_eq_true_eq, Option.any_eq_true] at merged
      obtain ⟨depth, p, hp, complete⟩ := merged
      refine none ⟨p, ?_, complete⟩
      rw [Tile.parent?] at hp
      split at hp
      · cases hp
        simp
        omega
      · cases hp

/-- Merging on every level from the given one up. -/
def mergeFrom : (level : Nat) → Area → Area
  | 0, a => a
  | n + 1, a => mergeFrom n (mergeAt (n + 1) a)

/-- Each four tiles that make up one replaced by it, from the deepest level up. -/
def mergeSiblings (a : Area) : Area := mergeFrom (a.deepest?.getD 0) a

theorem mergeFrom_eq_or_size_lt (level : Nat) (a : Area) :
    mergeFrom level a = a ∨ (mergeFrom level a).size < a.size := by
  induction level generalizing a with
  | zero => exact .inl rfl
  | succ n ih =>
      rw [mergeFrom]
      rcases mergeAt_eq_or_size_lt (n + 1) a with h | h
      · rw [h]
        exact ih a
      · rcases ih (mergeAt (n + 1) a) with h' | h'
        · rw [h']
          exact .inr h
        · exact .inr (Nat.lt_trans h' h)

/-! ### The smallest form -/

/-- One round: covered members dropped, then tiles merged. -/
def tidy (a : Area) : Area := a.dropCovered.mergeSiblings

/-- A round changes nothing or leaves fewer members. -/
theorem tidy_eq_or_size_lt (a : Area) : a.tidy = a ∨ a.tidy.size < a.size := by
  rcases mergeFrom_eq_or_size_lt (a.dropCovered.deepest?.getD 0) a.dropCovered with h | h
  · rw [tidy, mergeSiblings, h]
    exact dropCovered_eq_or_size_lt a
  · right
    rw [tidy, mergeSiblings]
    rcases dropCovered_eq_or_size_lt a with h' | h'
    · rwa [h'] at h ⊢
    · exact Nat.lt_trans h h'

/-- The smallest set of tiles that covers the same area: rounds until one changes nothing. -/
def optimise (a : Area) : Area :=
  let next := a.tidy
  if next = a then a else optimise next
termination_by a.size
decreasing_by
  rcases tidy_eq_or_size_lt a with h | h
  · contradiction
  · exact h

/-- Whether an area is in its smallest form. -/
def isOptimised (a : Area) : Bool := a.optimise = a

/-- Whether two areas cover the same, that is, have the same smallest form. -/
def sameAs (a b : Area) : Bool := a.optimise = b.optimise

theorem optimise_of_tidy_eq {a : Area} (h : a.tidy = a) : a.optimise = a := by
  rw [optimise]
  simp [h]

theorem optimise_of_tidy_ne {a : Area} (h : a.tidy ≠ a) : a.optimise = a.tidy.optimise := by
  rw [optimise]
  simp [h]

end Area

end Geotile
