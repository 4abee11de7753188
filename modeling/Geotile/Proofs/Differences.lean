/-
**What a difference covers.**

Members are found inside a tile by a scan of the ordered list: it starts at the tile and stops at
the first member that does not lie inside.  As the tiles inside a tile are one stretch of the order
that begins at the tile, nothing is missed.

Cutting an area out of a tile goes down only where some member of the cut lies strictly inside.  So
every piece that is kept is clear of the cut, and whatever lies in the tile and is clear of the cut
lies in a piece.  Hence a difference covers a tile exactly when the first area does and no member of
the second overlaps the tile.  On the deepest level to be overlapped is to be covered, and there the
difference is the one of sets.

Main definitions:

* `Geotile.Area.Avoids` — no member overlaps a tile.

Main results:

* `Geotile.Area.mem_membersWithin`, `Geotile.Area.hasMembersBelow_iff` — what the scan finds;
* `Geotile.Area.exists_mem_carve_iff` — what the pieces of a carved tile contain;
* `Geotile.Area.covers_diff_iff`, `Geotile.Area.covers_diff_of_deepest` — **what a difference
  covers**;
* `Geotile.Area.covers_union`, `Geotile.Area.covers_inter` — and a union, and an intersection.
-/

import Geotile.Area.Algebra
import Geotile.Proofs.Canonical

set_option autoImplicit false

namespace Geotile

theorem Tile.meets_eq_false_iff {t u : Tile} :
    t.meets u = false ↔ ¬ t.contains u = true ∧ ¬ u.contains t = true := by
  rw [Tile.meets, Bool.or_eq_false_iff, Bool.eq_false_iff, Bool.eq_false_iff]

namespace Area

/-! ### The scan for members inside a tile -/

theorem mem_dropWhile_lt {t u : Tile} {ts : List Tile} (sorted : ts.Pairwise (· < ·)) :
    u ∈ ts.dropWhile (fun v => v < t) ↔ u ∈ ts ∧ ¬ u < t := by
  induction ts with
  | nil => simp
  | cons x xs ih =>
      obtain ⟨least, rest⟩ := List.pairwise_cons.mp sorted
      by_cases before : x < t
      · rw [List.dropWhile_cons_of_pos (by simpa using before), ih rest, List.mem_cons]
        constructor
        · rintro ⟨mem, after⟩
          exact ⟨.inr mem, after⟩
        · rintro ⟨rfl | mem, after⟩
          · exact absurd before after
          · exact ⟨mem, after⟩
      · rw [List.dropWhile_cons_of_neg (by simpa using before)]
        refine ⟨fun mem => ⟨mem, ?_⟩, And.left⟩
        rcases List.mem_cons.mp mem with rfl | mem
        · exact before
        · exact fun lt => before (Tile.lt_trans (least u mem) lt)

/-- From the tile on, those inside it come first. -/
theorem mem_takeWhile_contains {t u : Tile} {ts : List Tile} (sorted : ts.Pairwise (· < ·))
    (start : ∀ v ∈ ts, ¬ v < t) :
    u ∈ ts.takeWhile t.contains ↔ u ∈ ts ∧ t.contains u = true := by
  induction ts with
  | nil => simp
  | cons x xs ih =>
      obtain ⟨least, rest⟩ := List.pairwise_cons.mp sorted
      by_cases inside : t.contains x = true
      · rw [List.takeWhile_cons_of_pos inside, List.mem_cons, List.mem_cons,
          ih rest fun v hv => start v (List.mem_cons_of_mem _ hv)]
        constructor
        · rintro (rfl | ⟨mem, within⟩)
          · exact ⟨.inl rfl, inside⟩
          · exact ⟨.inr mem, within⟩
        · rintro ⟨rfl | mem, within⟩
          · exact .inl rfl
          · exact .inr ⟨mem, within⟩
      · -- what comes after `x` and lies inside would put `x` inside too
        rw [List.takeWhile_cons_of_neg inside]
        refine ⟨fun mem => (List.not_mem_nil mem).elim, ?_⟩
        rintro ⟨mem, within⟩
        rcases List.mem_cons.mp mem with rfl | mem
        · exact absurd within inside
        · refine absurd (Tile.contains_of_between ?_ (least u mem) within) inside
          refine Classical.byContradiction fun notAfter => inside ?_
          rw [Tile.eq_of_not_lt notAfter (start x (List.mem_cons_self ..))]
          exact Tile.contains_refl x

/-- The scan finds the members inside a tile. -/
theorem mem_membersWithin {a : Area} {t u : Tile} :
    u ∈ a.membersWithin t ↔ u ∈ a ∧ t.contains u = true := by
  have sorted := a.sorted.sublist (List.dropWhile_sublist (fun v => decide (v < t)))
  have start : ∀ v ∈ a.tiles.dropWhile (fun v => decide (v < t)), ¬ v < t := fun v hv =>
    ((mem_dropWhile_lt a.sorted).mp hv).2
  rw [membersWithin, mem_takeWhile_contains sorted start, mem_dropWhile_lt a.sorted, and_assoc]
  refine and_congr_right fun _ => ⟨And.right, fun inside => ⟨fun lt => ?_, inside⟩⟩
  rw [Tile.not_contains_of_lt lt] at inside
  cases inside

theorem hasMembersBelow_iff {a : Area} {t : Tile} :
    a.hasMembersBelow t = true ↔ ∃ u ∈ a, u ≠ t ∧ t.contains u = true := by
  simp only [hasMembersBelow, List.any_eq_true, mem_membersWithin, decide_eq_true_eq, ne_eq]
  exact exists_congr fun u => ⟨fun ⟨⟨mem, inside⟩, other⟩ => ⟨mem, other, inside⟩,
    fun ⟨mem, other, inside⟩ => ⟨⟨mem, inside⟩, other⟩⟩

/-! ### Overlapping members -/

/-- No member overlaps a tile. -/
def Avoids (a : Area) (t : Tile) : Prop := ∀ u ∈ a, t.meets u = false

theorem avoids_iff {a : Area} {t : Tile} :
    a.Avoids t ↔ a.covers t = false ∧ a.hasMembersBelow t = false := by
  simp only [Avoids, Tile.meets_eq_false_iff]
  rw [Bool.eq_false_iff, Bool.eq_false_iff, ne_eq, ne_eq, covers_iff, hasMembersBelow_iff]
  constructor
  · intro h
    exact ⟨fun ⟨u, mem, around⟩ => (h u mem).2 around,
      fun ⟨u, mem, _, inside⟩ => (h u mem).1 inside⟩
  · rintro ⟨free, none⟩ u mem
    refine ⟨fun inside => ?_, fun around => free ⟨u, mem, around⟩⟩
    by_cases same : u = t
    · exact free ⟨u, mem, same ▸ Tile.contains_refl u⟩
    · exact none ⟨u, mem, same, inside⟩

/-- What no member overlaps holds nothing that a member overlaps. -/
theorem Avoids.of_contains {a : Area} {t u : Tile} (h : a.Avoids t) (inside : t.contains u = true) :
    a.Avoids u := by
  intro v mem
  have apart := Tile.meets_eq_false_iff.mp (h v mem)
  rw [Tile.meets_eq_false_iff]
  refine ⟨fun within => apart.1 (Tile.contains_trans inside within), fun around => ?_⟩
  -- both `t` and `v` contain `u`
  rcases Nat.le_total t.depth v.depth with le | le
  · exact apart.1 (Tile.contains_of_common inside around le)
  · exact apart.2 (Tile.contains_of_common around inside le)

/-- What no member overlaps child by child none overlaps at all. -/
theorem Avoids.of_children {a : Area} {t : Tile} {room : t.depth < maxDepth}
    (each : ∀ q, a.Avoids (t.child q room)) : a.Avoids t := by
  intro u mem
  have apart : ∀ q, ¬ (t.child q room).contains u = true ∧ ¬ u.contains (t.child q room) = true :=
    fun q => Tile.meets_eq_false_iff.mp (each q u mem)
  rw [Tile.meets_eq_false_iff]
  have notAround : ¬ u.contains t = true := fun around =>
    (apart .northWest).2 (Tile.contains_trans around (Tile.contains_child t .northWest room))
  refine ⟨fun inside => ?_, notAround⟩
  rcases Nat.lt_or_ge t.depth u.depth with deep | le
  · obtain ⟨q, _, within⟩ := Tile.exists_child_contains inside deep
    exact (apart q).1 within
  · rw [Tile.eq_of_contains_of_depth_le inside le] at notAround
    exact notAround (Tile.contains_refl u)

/-- On the deepest level to be overlapped is to be covered. -/
theorem avoids_iff_of_deepest {a : Area} {c : Tile} (hc : c.depth = maxDepth) :
    a.Avoids c ↔ a.covers c = false := by
  rw [avoids_iff, and_iff_left_iff_imp]
  intro _
  rw [Bool.eq_false_iff]
  intro below
  obtain ⟨u, -, other, inside⟩ := hasMembersBelow_iff.mp below
  exact other (Tile.eq_of_contains_of_depth_le inside (hc ▸ u.depth_le)).symm

/-! ### Carving -/

/-- The pieces of a carved tile contain what lies in the tile and is clear of the cut. -/
theorem exists_mem_carve_iff {cut : Area} {t v : Tile} :
    (∃ u ∈ carve cut t, u.contains v = true) ↔ t.contains v = true ∧ cut.Avoids v := by
  induction t using carve.induct cut with
  | case1 t covered =>
      rw [carve_of_covers covered]
      constructor
      · rintro ⟨u, mem, -⟩
        exact (List.not_mem_nil mem).elim
      · rintro ⟨inside, clear⟩
        have free := (avoids_iff.mp clear).1
        rw [covers_of_contains covered inside] at free
        cases free
  | case2 t free room below ih =>
      rw [carve, if_neg free, dif_pos room, if_pos below]
      simp only [List.mem_flatMap, Quadrant.mem_all, true_and]
      constructor
      · rintro ⟨u, ⟨q, mem⟩, around⟩
        obtain ⟨inside, clear⟩ := (ih q).mp ⟨u, mem, around⟩
        exact ⟨Tile.contains_trans (Tile.contains_child t q room) inside, clear⟩
      · rintro ⟨inside, clear⟩
        -- `t` itself is not clear of the cut, so `v` lies in a child
        have deeper : t.depth < v.depth := by
          refine Nat.lt_of_not_le fun le => ?_
          have same := Tile.eq_of_contains_of_depth_le inside le
          have none := (avoids_iff.mp clear).2
          rw [← same, below] at none
          cases none
        obtain ⟨q, _, within⟩ := Tile.exists_child_contains inside deeper
        obtain ⟨u, mem, around⟩ := (ih q).mpr ⟨within, clear⟩
        exact ⟨u, ⟨q, mem⟩, around⟩
  | case3 t free room none =>
      rw [carve_eq_self free (.inl none)]
      have clear : cut.Avoids t :=
        avoids_iff.mpr ⟨Bool.eq_false_iff.mpr free, Bool.eq_false_iff.mpr none⟩
      simp only [List.mem_singleton, exists_eq_left]
      exact ⟨fun inside => ⟨inside, clear.of_contains inside⟩, And.left⟩
  | case4 t free bottom =>
      rw [carve_eq_self free (.inr bottom)]
      have deepest : t.depth = maxDepth := by
        have := t.depth_le
        omega
      have clear : cut.Avoids t := (avoids_iff_of_deepest deepest).mpr (Bool.eq_false_iff.mpr free)
      simp only [List.mem_singleton, exists_eq_left]
      exact ⟨fun inside => ⟨inside, clear.of_contains inside⟩, And.left⟩

/-- A piece of a tile lies inside the tile. -/
theorem contains_of_mem_carve {cut : Area} {t u : Tile} (h : u ∈ carve cut t) :
    t.contains u = true :=
  (exists_mem_carve_iff.mp ⟨u, h, Tile.contains_refl u⟩).1

/-! ### Combined areas -/

/-- A difference covers a tile exactly when the first area does and no member of the second
overlaps the tile. -/
theorem covers_diff_iff {a b : Area} {t : Tile} :
    (a.diff b).covers t = true ↔ a.covers t = true ∧ b.Avoids t := by
  simp only [covers_iff, mem_diff]
  constructor
  · rintro ⟨u, ⟨m, mem, piece⟩, around⟩
    obtain ⟨inside, clear⟩ := exists_mem_carve_iff.mp ⟨u, piece, around⟩
    exact ⟨⟨m, mem, inside⟩, clear⟩
  · rintro ⟨⟨m, mem, inside⟩, clear⟩
    obtain ⟨u, piece, around⟩ := exists_mem_carve_iff.mpr ⟨inside, clear⟩
    exact ⟨u, ⟨m, mem, piece⟩, around⟩

/-- On the deepest level a difference is the one of sets. -/
theorem covers_diff_of_deepest {a b : Area} {c : Tile} (hc : c.depth = maxDepth) :
    (a.diff b).covers c = (a.covers c && !b.covers c) := by
  rw [Bool.eq_iff_iff, covers_diff_iff, avoids_iff_of_deepest hc]
  simp

theorem covers_union {a b : Area} {t : Tile} :
    (a.union b).covers t = (a.covers t || b.covers t) := by
  rw [Bool.eq_iff_iff, Bool.or_eq_true, covers_iff, covers_iff, covers_iff]
  simp only [mem_union, or_and_right, exists_or]

/-- A member of an intersection is a member of one area, and the other covers it. -/
theorem covers_of_mem_inter {a b : Area} {t : Tile} (h : t ∈ a.inter b) :
    (t ∈ a ∧ b.covers t = true) ∨ (t ∈ b ∧ a.covers t = true) := by
  rcases mem_inter.mp h with kept | ⟨u, hu, -, found⟩
  · exact .inl kept
  · obtain ⟨mem, inside⟩ := mem_membersWithin.mp found
    exact .inr ⟨mem, covers_iff.mpr ⟨u, hu, inside⟩⟩

/-- An intersection covers what both areas cover. -/
theorem covers_inter {a b : Area} {t : Tile} :
    (a.inter b).covers t = (a.covers t && b.covers t) := by
  rw [Bool.eq_iff_iff, Bool.and_eq_true]
  constructor
  · intro h
    obtain ⟨u, mem, inside⟩ := covers_iff.mp h
    rcases covers_of_mem_inter mem with ⟨hu, covered⟩ | ⟨hu, covered⟩
    · exact ⟨covers_iff.mpr ⟨u, hu, inside⟩, covers_of_contains covered inside⟩
    · exact ⟨covers_of_contains covered inside, covers_iff.mpr ⟨u, hu, inside⟩⟩
  · intro ⟨inA, inB⟩
    obtain ⟨u, hu, insideU⟩ := covers_iff.mp inA
    obtain ⟨v, hv, insideV⟩ := covers_iff.mp inB
    cases covered : b.covers u with
    | true => exact covers_iff.mpr ⟨u, mem_inter.mpr (.inl ⟨hu, covered⟩), insideU⟩
    | false =>
        -- `v` does not contain `u`, so it lies inside
        have within : u.contains v = true := by
          rcases Nat.le_total u.depth v.depth with le | le
          · exact Tile.contains_of_common insideU insideV le
          · have around := Tile.contains_of_common insideV insideU le
            rw [covers_iff.mpr ⟨v, hv, around⟩] at covered
            cases covered
        have found := mem_membersWithin.mpr ⟨hv, within⟩
        exact covers_iff.mpr ⟨v, mem_inter.mpr (.inr ⟨u, hu, covered, found⟩), insideV⟩

end Area

end Geotile
