/-
**Canonical areas.**

What an area covers is told by the tiles of the deepest level: two areas cover the same when they
cover the same of those.  A larger tile is *filled* when all deepest tiles inside it are covered,
which may take many members; it is *covered* when a single member contains it.

In a *canonical* area no member lies inside another and no four members make up a tile.  There the
two notions agree: going up from the deepest level, a tile whose four children are covered is
covered itself, since four children that are members would make it up.  So a canonical area
consists of the largest filled tiles, and is determined by what it covers.

Main definitions:

* `Geotile.Area.Fills`, `Geotile.Area.SameCover` — covering all of a tile, and covering the same;
* `Geotile.Area.Antichain`, `Geotile.Area.Canonical` — no member inside another, and no four
  members that make up a tile either.

Main results:

* `Geotile.Area.Canonical.covers_of_children`, `Geotile.Area.Antichain.canonical` — an antichain is
  canonical exactly when it covers every tile whose four children it covers;
* `Geotile.Area.Canonical.covers_of_fills` — **a canonical area covers what it fills**;
* `Geotile.Area.Canonical.mem_iff` — its members are the largest filled tiles;
* `Geotile.Area.Canonical.eq_of_sameCover` — it is determined by what it covers.
-/

import Geotile.Proofs.Containment
import Geotile.Tile.Descend

set_option autoImplicit false

namespace Geotile

/-- Some tile of the deepest level lies inside each tile. -/
theorem Tile.exists_deepest (t : Tile) :
    ∃ c : Tile, c.depth = maxDepth ∧ t.contains c = true := by
  have room := Nat.add_sub_cancel' t.depth_le
  refine ⟨t.below (maxDepth - t.depth) 0 0 (Nat.le_of_eq room), room, ?_⟩
  rw [contains_iff_path, quadrants_below]
  exact List.prefix_append _ _

namespace Area

/-! ### Filling a tile -/

/-- All tiles of the deepest level inside a tile are covered. -/
def Fills (a : Area) (t : Tile) : Prop :=
  ∀ c : Tile, c.depth = maxDepth → t.contains c = true → a.covers c = true

/-- Both areas cover the same tiles of the deepest level. -/
def SameCover (a b : Area) : Prop :=
  ∀ c : Tile, c.depth = maxDepth → a.covers c = b.covers c

theorem SameCover.refl (a : Area) : SameCover a a := fun _ _ => rfl

theorem SameCover.symm {a b : Area} (h : SameCover a b) : SameCover b a :=
  fun c hc => (h c hc).symm

theorem SameCover.trans {a b c : Area} (h : SameCover a b) (h' : SameCover b c) :
    SameCover a c :=
  fun t ht => (h t ht).trans (h' t ht)

theorem SameCover.fills_iff {a b : Area} (h : SameCover a b) {t : Tile} :
    a.Fills t ↔ b.Fills t := by
  constructor
  · intro filled c hc inside
    rw [← h c hc]
    exact filled c hc inside
  · intro filled c hc inside
    rw [h c hc]
    exact filled c hc inside

theorem fills_of_covers {a : Area} {t : Tile} (h : a.covers t = true) : a.Fills t :=
  fun _ _ inside => covers_of_contains h inside

theorem Fills.of_contains {a : Area} {t u : Tile} (h : a.Fills t) (inside : t.contains u = true) :
    a.Fills u :=
  fun c hc within => h c hc (Tile.contains_trans inside within)

theorem not_fills_iff {a : Area} {t : Tile} :
    ¬ a.Fills t ↔ ∃ c, c.depth = maxDepth ∧ t.contains c = true ∧ a.covers c = false := by
  constructor
  · intro h
    refine Classical.byContradiction fun none => h fun c hc inside => ?_
    cases covered : a.covers c with
    | true => rfl
    | false => exact absurd ⟨c, hc, inside, covered⟩ none
  · rintro ⟨c, hc, inside, missed⟩ h
    rw [h c hc inside] at missed
    cases missed

/-! ### Canonical areas -/

/-- A member contains no member but itself. -/
def Antichain (a : Area) : Prop := ∀ t ∈ a, ∀ u ∈ a, t.contains u = true → t = u

instance (a : Area) : Decidable a.Antichain :=
  inferInstanceAs (Decidable (∀ t ∈ a.tiles, ∀ u ∈ a.tiles, t.contains u = true → t = u))

/-- Then at most one member contains a given tile. -/
theorem Antichain.eq_of_contains {a : Area} (h : a.Antichain) {t u v : Tile} (ht : t ∈ a)
    (hu : u ∈ a) (htv : t.contains v = true) (huv : u.contains v = true) : t = u := by
  rcases Nat.le_total t.depth u.depth with le | le
  · exact h t ht u hu (Tile.contains_of_common htv huv le)
  · exact (h u hu t ht (Tile.contains_of_common huv htv le)).symm

/-- Nor does a covered tile contain a member, unless it is that member. -/
theorem Antichain.eq_of_covers {a : Area} (h : a.Antichain) {t u : Tile}
    (covered : a.covers t = true) (hu : u ∈ a) (inside : t.contains u = true) : t = u := by
  obtain ⟨m, hm, around⟩ := covers_iff.mp covered
  have same := h m hm u hu (Tile.contains_trans around inside)
  exact Tile.contains_antisymm inside (same ▸ around)

/-- No member lies inside another, and no four members make up a tile. -/
structure Canonical (a : Area) : Prop where
  antichain : a.Antichain
  /-- Of no tile all four children are members. -/
  incomplete : ∀ t, a.isComplete t = false

/-- A canonical area covers a tile when it covers the four children. -/
theorem Canonical.covers_of_children {a : Area} (h : a.Canonical) {t : Tile}
    {room : t.depth < maxDepth} (each : ∀ q, a.covers (t.child q room) = true) :
    a.covers t = true := by
  refine Classical.byContradiction fun missed => ?_
  -- no member contains `t`, so each child is covered by itself alone
  have members : ∀ q, t.child q room ∈ a := by
    intro q
    obtain ⟨u, hu, inside⟩ := covers_iff.mp (each q)
    rcases Tile.eq_or_contains_of_contains_child inside with rfl | above
    · exact hu
    · exact absurd (covers_iff.mpr ⟨u, hu, above⟩) missed
  have complete := isComplete_iff.mpr ⟨room, members⟩
  rw [h.incomplete t] at complete
  cases complete

/-- Besides this an area only has to be an antichain to be canonical. -/
theorem Antichain.canonical {a : Area} (apart : a.Antichain)
    (closed : ∀ t : Tile, ∀ room : t.depth < maxDepth,
      (∀ q, a.covers (t.child q room) = true) → a.covers t = true) : a.Canonical where
  antichain := apart
  incomplete t := by
    rw [Bool.eq_false_iff]
    intro complete
    obtain ⟨room, members⟩ := isComplete_iff.mp complete
    -- a member around `t` contains a child that is a member, but is less deep
    obtain ⟨m, mem, around⟩ := covers_iff.mp (closed t room fun q => covers_of_mem (members q))
    have within := Tile.contains_trans around (Tile.contains_child t .northWest room)
    have same := apart m mem _ (members .northWest) within
    have le := Tile.depth_le_of_contains around
    rw [same, Tile.depth_child] at le
    omega

/-- An area that covers every tile whose four children it covers also covers what it fills. -/
theorem Fills.covers_of_closed {a : Area} {t : Tile} (filled : a.Fills t)
    (closed : ∀ t : Tile, ∀ room : t.depth < maxDepth,
      (∀ q, a.covers (t.child q room) = true) → a.covers t = true) : a.covers t = true := by
  -- induction on the number of levels below the tile
  generalize levels : maxDepth - t.depth = k
  induction k generalizing t with
  | zero =>
      have bottom : t.depth = maxDepth := by
        have := t.depth_le
        omega
      exact filled t bottom (Tile.contains_refl t)
  | succ k ih =>
      have room : t.depth < maxDepth := by omega
      have each : ∀ q, a.covers (t.child q room) = true := fun q =>
        ih (filled.of_contains (Tile.contains_child t q room)) (by rw [Tile.depth_child]; omega)
      exact closed t room each

/-- A canonical area covers what it fills. -/
theorem Canonical.covers_of_fills {a : Area} (h : a.Canonical) {t : Tile} (filled : a.Fills t) :
    a.covers t = true :=
  filled.covers_of_closed fun _ _ => h.covers_of_children

/-- The members of a canonical area are the filled tiles that lie in no larger filled tile. -/
theorem Canonical.mem_iff {a : Area} (h : a.Canonical) {t : Tile} :
    t ∈ a ↔ a.Fills t ∧ (t.depth = 1 ∨ ∃ p, t.parent? = some p ∧ ¬ a.Fills p) := by
  constructor
  · intro mem
    refine ⟨fills_of_covers (covers_of_mem mem), ?_⟩
    rcases Nat.lt_or_ge 1 t.depth with deep | top
    · obtain ⟨p, hp⟩ := Tile.exists_parent? deep
      refine .inr ⟨p, hp, fun filled => ?_⟩
      obtain ⟨q, room, rfl⟩ := Tile.parent?_eq_some_iff.mp hp
      -- a member that contains the parent contains `t`, but is less deep
      obtain ⟨u, hu, inside⟩ := covers_iff.mp (h.covers_of_fills filled)
      have same := h.antichain u hu _ mem (Tile.contains_trans inside (Tile.contains_child p q room))
      have le := Tile.depth_le_of_contains inside
      rw [same, Tile.depth_child] at le
      omega
    · exact .inl (Nat.le_antisymm top t.depth_pos)
  · rintro ⟨filled, largest⟩
    obtain ⟨u, hu, inside⟩ := covers_iff.mp (h.covers_of_fills filled)
    have pos := u.depth_pos
    rcases largest with top | ⟨p, hp, notFilled⟩
    · have same := Tile.eq_of_contains_of_depth_le inside (by omega)
      exact same ▸ hu
    · obtain ⟨q, room, rfl⟩ := Tile.parent?_eq_some_iff.mp hp
      rcases Tile.eq_or_contains_of_contains_child inside with rfl | above
      · exact hu
      · exact absurd (fills_of_covers (covers_iff.mpr ⟨u, hu, above⟩)) notFilled

/-- A canonical area is determined by what it covers. -/
theorem Canonical.eq_of_sameCover {a b : Area} (ha : a.Canonical) (hb : b.Canonical)
    (same : SameCover a b) : a = b := by
  refine ext_mem fun t => ?_
  simp only [ha.mem_iff, hb.mem_iff, same.fills_iff]

/-! ### Areas with at most one member -/

theorem isEmpty_iff {a : Area} : a.isEmpty = true ↔ ∀ t, t ∉ a := by
  rw [isEmpty, List.isEmpty_iff, List.eq_nil_iff_forall_not_mem]
  exact Iff.rfl

/-- An area without members is one that covers no tile of the deepest level. -/
theorem isEmpty_iff_covers {a : Area} :
    a.isEmpty = true ↔ ∀ c : Tile, c.depth = maxDepth → a.covers c = false := by
  rw [isEmpty_iff]
  constructor
  · intro none c _
    rw [Bool.eq_false_iff]
    intro covered
    obtain ⟨t, mem, -⟩ := covers_iff.mp covered
    exact none t mem
  · intro free t mem
    obtain ⟨c, deepest, inside⟩ := t.exists_deepest
    have missed := free c deepest
    rw [covers_of_contains (covers_of_mem mem) inside] at missed
    cases missed

/-- The empty area covers nothing. -/
@[simp] theorem covers_empty (t : Tile) : empty.covers t = false := by
  rw [Bool.eq_false_iff]
  intro covered
  obtain ⟨u, mem, -⟩ := covers_iff.mp covered
  exact not_mem_empty u mem

theorem canonical_empty : Canonical empty where
  antichain t mem := absurd mem (not_mem_empty t)
  incomplete t := by
    rw [Bool.eq_false_iff]
    intro complete
    obtain ⟨room, members⟩ := isComplete_iff.mp complete
    exact not_mem_empty _ (members .northWest)

theorem canonical_single (t : Tile) : (single t).Canonical where
  antichain u hu v hv _ := by
    rw [mem_single.mp hu, mem_single.mp hv]
  incomplete u := by
    rw [Bool.eq_false_iff]
    intro complete
    obtain ⟨room, members⟩ := isComplete_iff.mp complete
    -- two children in different quadrants would both be `t`
    have both := (mem_single.mp (members .northWest)).trans (mem_single.mp (members .northEast)).symm
    cases Tile.child_inj.mp both

end Area

end Geotile
