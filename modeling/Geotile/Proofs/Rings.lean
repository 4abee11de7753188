/-
**What a ring consists of.**

The ring around an area collects pieces: the free neighbours of the members, or the tiles around
them, or the tiles along their edges.  On a level that is at least as deep as every member these
pieces are the tiles that the area borders on, whatever its members are.  On any level at all, the
ring around an area in its smallest form consists of the tiles that hold a place the area borders
on, where a place is a tile of the deepest level.

For other areas and levels this can fail in one direction only.  A tile of the ring need not hold a
place that is bordered on, since many members together may cover all of it; but it is never covered
by one of them, and no place that is bordered on is left out.

Main results:

* `Geotile.Area.mem_ring_iff` — the pieces of a ring;
* `Geotile.Area.Borders.mem_ring`, `Geotile.Area.Borders.exists_mem_ring` — no tile that is bordered
  on is missing, and no smaller one is left out;
* `Geotile.Area.ring_below_members` — **rings at least as deep as the members**;
* `Geotile.Area.ring_of_optimised` — **rings around areas in smallest form, at any depth**;
* `Geotile.Area.ring_outside_without_gap` — **all rings lie outside and leave no gap**.
-/

import Geotile.Area.Ring
import Geotile.Proofs.Borders

set_option autoImplicit false

namespace Geotile.Area

/-! ### The pieces of a ring -/

theorem mem_ringPiece {a : Area} {d : Nat} {pos : 0 < d} {le : d ≤ maxDepth} {h : Heading}
    {n t : Tile} :
    t ∈ a.ringPiece d pos le h n ↔ t.depth = d ∧ a.covers n = false ∧
      (t.contains n = true ∨
        n.contains t = true ∧ t.OnEdge h (t.depth - n.depth) ∧ a.covers t = false) := by
  cases free : a.covers n with
  | true => simp [ringPiece, free]
  | false =>
      by_cases up : d ≤ n.depth
      · rw [ringPiece, if_neg (by simp [free]), dif_pos up, List.mem_singleton]
        constructor
        · rintro rfl
          exact ⟨rfl, rfl, .inl (Tile.ancestor_contains n d pos up)⟩
        · rintro ⟨rfl, -, around | ⟨inside, -⟩⟩
          · exact (Tile.contains_iff_ancestor.mp around).2.symm
          · have same := Tile.eq_of_contains_of_depth_le inside up
            exact (Tile.contains_iff_ancestor.mp (same ▸ Tile.contains_refl t)).2.symm
      · have room : n.depth + (d - n.depth) ≤ maxDepth := by omega
        rw [ringPiece, if_neg (by simp [free]), dif_neg up, List.mem_filter,
          Tile.mem_edge_iff_onEdge room, Nat.add_sub_cancel' (by omega), Bool.not_eq_true']
        constructor
        · rintro ⟨⟨rfl, inside, edge⟩, freeT⟩
          exact ⟨rfl, rfl, .inr ⟨inside, edge, freeT⟩⟩
        · rintro ⟨rfl, -, around | ⟨inside, edge, freeT⟩⟩
          · exact absurd (Tile.depth_le_of_contains around) up
          · exact ⟨⟨rfl, inside, edge⟩, freeT⟩

/-- The ring consists of the tiles of its depth that contain a free neighbour of a member, and of
the free ones along the edge of such a neighbour. -/
theorem mem_ring_iff {a : Area} {d : Nat} {t : Tile} :
    t ∈ a.ring d ↔ t.depth = clampDepth d ∧
      ∃ m ∈ a, ∃ h n, m.neighbour h = some n ∧ a.covers n = false ∧
        (t.contains n = true ∨
          n.contains t = true ∧ t.OnEdge h (t.depth - n.depth) ∧ a.covers t = false) := by
  rw [mem_ring]
  simp only [mem_ringPiece]
  constructor
  · rintro ⟨m, mem, h, n, next, depth, piece⟩
    exact ⟨depth, m, mem, h, n, next, piece⟩
  · rintro ⟨depth, m, mem, h, n, next, piece⟩
    exact ⟨m, mem, h, n, next, depth, piece⟩

/-- No tile of the ring's depth that is bordered on is missing. -/
theorem Borders.mem_ring {a : Area} {d : Nat} {t : Tile} (h : a.Borders t)
    (depth : t.depth = clampDepth d) : t ∈ a.ring d := by
  obtain ⟨free, heading, u, next, covered⟩ := h
  obtain ⟨m, mem, around⟩ := covers_iff.mp covered
  obtain ⟨h', n, hn, inside, freeN, edge⟩ :=
    exists_free_neighbour free next (covers_of_mem mem) around
  exact mem_ring_iff.mpr ⟨depth, m, mem, h', n, hn, freeN, .inr ⟨inside, edge, free⟩⟩

/-- A free neighbour of a member is bordered on. -/
theorem borders_of_neighbour {a : Area} {m n : Tile} {h : Heading} (mem : m ∈ a)
    (next : m.neighbour h = some n) (free : a.covers n = false) : a.Borders n :=
  ⟨free, h.opposite, m, Tile.neighbour_opposite next, covers_of_mem mem⟩

/-- So is what is free along the edge of a neighbour. -/
theorem borders_of_onEdge {a : Area} {m n t : Tile} {h : Heading} (mem : m ∈ a)
    (next : m.neighbour h = some n) (inside : n.contains t = true)
    (edge : t.OnEdge h (t.depth - n.depth)) (free : a.covers t = false) : a.Borders t := by
  obtain ⟨u, back, within⟩ := Tile.exists_neighbour_inside next inside edge
  exact ⟨free, h.opposite, u, back, covers_iff.mpr ⟨m, mem, within⟩⟩

/-! ### Rings below the members -/

theorem mem_ring_iff_borders {a : Area} {d : Nat} (deep : ∀ m ∈ a, m.depth ≤ clampDepth d)
    {t : Tile} : t ∈ a.ring d ↔ t.depth = clampDepth d ∧ a.Borders t := by
  constructor
  · intro h
    obtain ⟨depth, m, mem, heading, n, next, free, piece⟩ := mem_ring_iff.mp h
    refine ⟨depth, ?_⟩
    rcases piece with around | ⟨inside, edge, freeT⟩
    · -- the neighbour is no deeper than the ring
      have le : n.depth ≤ t.depth := by
        rw [Tile.depth_of_neighbour next, depth]
        exact deep m mem
      rw [Tile.eq_of_contains_of_depth_le around le]
      exact borders_of_neighbour mem next free
    · exact borders_of_onEdge mem next inside edge freeT
  · rintro ⟨depth, h⟩
    exact h.mem_ring depth

/-- A tile no less deep than the members is covered when it is filled. -/
theorem covers_of_fills_of_deep {a : Area} {t : Tile} (deep : ∀ m ∈ a, m.depth ≤ t.depth)
    (filled : a.Fills t) : a.covers t = true := by
  -- one deepest tile inside `t` is enough
  obtain ⟨c, depth, inside⟩ := t.exists_deepest
  obtain ⟨m, mem, around⟩ := covers_iff.mp (filled c depth inside)
  exact covers_iff.mpr ⟨m, mem, Tile.contains_of_common around inside (deep m mem)⟩

theorem SameCover.covers_eq {a b : Area} (same : SameCover a b) {t : Tile}
    (deepA : ∀ m ∈ a, m.depth ≤ t.depth) (deepB : ∀ m ∈ b, m.depth ≤ t.depth) :
    a.covers t = b.covers t := by
  rw [Bool.eq_iff_iff]
  constructor
  · intro h
    exact covers_of_fills_of_deep deepB (same.fills_iff.mp (fills_of_covers h))
  · intro h
    exact covers_of_fills_of_deep deepA (same.fills_iff.mpr (fills_of_covers h))

theorem SameCover.borders {a b : Area} (same : SameCover a b) {t : Tile}
    (deepA : ∀ m ∈ a, m.depth ≤ t.depth) (deepB : ∀ m ∈ b, m.depth ≤ t.depth)
    (h : a.Borders t) : b.Borders t := by
  obtain ⟨free, heading, u, next, covered⟩ := h
  have level := Tile.depth_of_neighbour next
  refine ⟨?_, heading, u, next, ?_⟩
  · rw [← same.covers_eq deepA deepB, free]
  · rw [← same.covers_eq (level ▸ deepA) (level ▸ deepB), covered]

/-- **Rings at least as deep as the members.**  Such a ring consists of the tiles of its depth that
the area does not cover, but that have a neighbour that it covers; and it is the same for all areas
that cover the same and have no deeper members. -/
theorem ring_below_members (a : Area) (d : Nat) (pos : 1 ≤ d) (le : d ≤ maxDepth)
    (deep : ∀ m ∈ a, m.depth ≤ d) :
    (∀ t, t ∈ a.ring d ↔ t.depth = d ∧ a.covers t = false ∧
      ∃ h u, t.neighbour h = some u ∧ a.covers u = true) ∧
    ∀ b : Area, (∀ m ∈ b, m.depth ≤ d) →
      (∀ c : Tile, c.depth = maxDepth → a.covers c = b.covers c) → a.ring d = b.ring d := by
  have level : clampDepth d = d := by
    rw [clampDepth, Nat.min_eq_left le, Nat.max_eq_right pos]
  constructor
  · intro t
    have members := mem_ring_iff_borders (d := d) (t := t) (level.symm ▸ deep)
    rwa [level] at members
  · intro b deepB same
    refine ext_mem fun t => ?_
    rw [mem_ring_iff_borders (level.symm ▸ deep), mem_ring_iff_borders (level.symm ▸ deepB), level]
    refine and_congr_right ?_
    rintro rfl
    exact ⟨SameCover.borders same deep deepB, SameCover.borders (SameCover.symm same) deepB deep⟩

/-- With one member inside the other, the ring on the third level runs along the larger one. -/
theorem ring_below_nested_members :
    (∀ m ∈ ofList [Tile.ofQuadrants [.northWest] (by decide) (by decide),
        Tile.ofQuadrants [.northWest, .southEast] (by decide) (by decide)], m.depth ≤ 3) ∧
      Tile.ofQuadrants [.northEast, .southWest, .northWest] (by decide) (by decide)
        ∈ (ofList [Tile.ofQuadrants [.northWest] (by decide) (by decide),
            Tile.ofQuadrants [.northWest, .southEast] (by decide) (by decide)]).ring 3 := by
  have deep : ∀ m ∈ ofList [Tile.ofQuadrants [.northWest] (by decide) (by decide),
      Tile.ofQuadrants [.northWest, .southEast] (by decide) (by decide)], m.depth ≤ 3 := by
    intro m hm
    simp only [mem_ofList, List.mem_cons, List.not_mem_nil, or_false] at hm
    rcases hm with rfl | rfl <;> decide
  refine ⟨deep, ((ring_below_members _ 3 (by decide) (by decide) deep).1 _).mpr ?_⟩
  exact ⟨rfl, by decide, .west, _, rfl, by decide⟩

/-! ### Rings around areas in smallest form -/

/-- **Rings around areas in smallest form, at any depth.**  Such a ring consists of the tiles of its
depth that contain a tile of the deepest level that the area does not cover, but that has a
neighbour that it covers. -/
theorem ring_of_optimised (a : Area) (smallest : a.isOptimised = true) (d : Nat) (t : Tile) :
    t ∈ a.ring d ↔ t.depth = clampDepth d ∧
      ∃ c : Tile, c.depth = maxDepth ∧ t.contains c = true ∧ a.covers c = false ∧
        ∃ h u, c.neighbour h = some u ∧ a.covers u = true := by
  have canonical := isOptimised_iff_canonical.mp smallest
  constructor
  · intro ht
    obtain ⟨depth, m, mem, heading, n, next, free, piece⟩ := mem_ring_iff.mp ht
    refine ⟨depth, ?_⟩
    rcases piece with around | ⟨inside, edge, freeT⟩
    · obtain ⟨c, hc, within, borders⟩ :=
        canonical.exists_border (borders_of_neighbour mem next free)
      exact ⟨c, hc, Tile.contains_trans around within, borders⟩
    · exact canonical.exists_border (borders_of_onEdge mem next inside edge freeT)
  · rintro ⟨depth, c, hc, inside, free, heading, u, next, covered⟩
    obtain ⟨m, mem, around⟩ := covers_iff.mp covered
    rcases Nat.le_total m.depth t.depth with le | ge
    · exact (borders_above free next inside mem around le).mem_ring depth
    · -- the member is deeper than the ring: its neighbour around `c` lies inside `t`
      obtain ⟨h', n, hn, within, freeN, -⟩ :=
        exists_free_neighbour free next (covers_of_mem mem) around
      rw [← Tile.depth_of_neighbour hn] at ge
      exact mem_ring_iff.mpr ⟨depth, m, mem, h', n, hn, freeN,
        .inl (Tile.contains_of_common inside within ge)⟩

/-- Two members of different depths in smallest form, and a tile of the ring on the first level:
it holds a deepest tile next to one that is covered. -/
theorem ring_of_optimised_two_depths :
    (ofList [Tile.ofQuadrants [.northWest] (by decide) (by decide),
        Tile.ofQuadrants [.northEast, .southWest] (by decide) (by decide)]).isOptimised = true ∧
      ∃ c : Tile, c.depth = maxDepth ∧
        (Tile.ofQuadrants [.northEast] (by decide) (by decide)).contains c = true ∧
        (ofList [Tile.ofQuadrants [.northWest] (by decide) (by decide),
          Tile.ofQuadrants [.northEast, .southWest] (by decide) (by decide)]).covers c = false ∧
        ∃ h u, c.neighbour h = some u ∧
          (ofList [Tile.ofQuadrants [.northWest] (by decide) (by decide),
            Tile.ofQuadrants [.northEast, .southWest] (by decide) (by decide)]).covers u = true := by
  have smallest : (ofList [Tile.ofQuadrants [.northWest] (by decide) (by decide),
      Tile.ofQuadrants [.northEast, .southWest] (by decide) (by decide)]).isOptimised = true :=
    decide_eq_true (optimise_of_tidy_eq (by decide +kernel))
  exact ⟨smallest, ((ring_of_optimised _ smallest 1 _).mp (by decide +kernel)).2⟩

/-! ### All rings -/

theorem free_of_mem_ring {a : Area} {d : Nat} {t : Tile} (h : t ∈ a.ring d) :
    a.covers t = false := by
  obtain ⟨-, m, -, heading, n, -, freeN, piece⟩ := mem_ring_iff.mp h
  rcases piece with around | ⟨-, -, freeT⟩
  · exact free_of_contains freeN around
  · exact freeT

/-- A tile that is bordered on, and is no larger than those of the ring, lies in one of them. -/
theorem Borders.exists_mem_ring {a : Area} {c : Tile} (h : a.Borders c) {d : Nat}
    (le : clampDepth d ≤ c.depth) : ∃ t ∈ a.ring d, t.contains c = true := by
  obtain ⟨free, heading, u, next, covered⟩ := h
  obtain ⟨m, mem, around⟩ := covers_iff.mp covered
  obtain ⟨h', n, hn, inN, freeN, edge⟩ :=
    exists_free_neighbour free next (covers_of_mem mem) around
  -- the tile around `c` on the level of the ring is a piece that comes of the neighbour `n`
  have inside := Tile.ancestor_contains c (clampDepth d) (clampDepth_pos d) le
  refine ⟨_, mem_ring_iff.mpr ⟨rfl, m, mem, h', n, hn, freeN, ?_⟩, inside⟩
  rcases Nat.le_total (clampDepth d) n.depth with up | down
  · exact .inl (Tile.contains_of_common inside inN up)
  · have within := Tile.contains_of_common inN inside down
    exact .inr ⟨within, edge.above within inside, free_of_contains free inside⟩

/-- **Rings lie outside and leave no gap**, whatever the members of the area are and whatever depth
is asked for.  All tiles of a ring have the depth that it is asked for, moved into the levels of the
tree, and none of them is covered.  Every tile of the deepest level that is not covered but has a
covered neighbour lies in a tile of the ring. -/
theorem ring_outside_without_gap (a : Area) (d : Nat) :
    (∀ t ∈ a.ring d,
      t.depth = clampDepth d ∧ a.covers t = false ∧ ∀ m ∈ a, m.contains t = false) ∧
    ∀ c : Tile, c.depth = maxDepth → a.covers c = false →
      (∃ h u, c.neighbour h = some u ∧ a.covers u = true) →
      ∃ t ∈ a.ring d, t.contains c = true := by
  constructor
  · intro t ht
    have free := free_of_mem_ring ht
    refine ⟨(mem_ring_iff.mp ht).1, free, fun m mem => ?_⟩
    rw [Bool.eq_false_iff]
    intro inside
    rw [covers_iff.mpr ⟨m, mem, inside⟩] at free
    cases free
  · intro c deepest free next
    have le : clampDepth d ≤ c.depth := deepest ▸ clampDepth_le d
    exact Borders.exists_mem_ring ⟨free, next⟩ le

end Geotile.Area
