/-
**Lying inside, in the tree and in the order.**

Dropping levels from the packed word of a tile takes quadrants off the end of its path, so one tile
lies inside another exactly when the path of the second begins the path of the first.  Everything
about ancestors, children and covering follows from that on lists.

The order of tiles is the order of their aligned words, and the tiles inside a tile are those whose
aligned words lie in one interval that begins at the tile itself.  Hence a tile comes before all
that lies inside it, and nothing else comes in between.

Main results:

* `Geotile.Tile.contains_iff_path` — lying inside is having a path that begins alike;
* `Geotile.Tile.mem_lineage`, `Geotile.Area.covers_iff` — a tile is covered exactly when some
  member contains it;
* `Geotile.Tile.exists_child_contains` — what lies strictly inside a tile lies inside a child;
* `Geotile.Tile.eq_or_lt_of_contains`, `Geotile.Tile.contains_of_between` — in the order of tiles
  those inside a tile are one stretch that begins at the tile.
-/

import Geotile.Area.Optimise

set_option autoImplicit false

namespace Geotile

/-! ### Paths of ancestors -/

theorem Packed.drop_zero (w : UInt64) : drop 0 w = w := by
  apply UInt64.toNat_inj.mp
  rw [toNat_drop (by decide)]
  simp

theorem Packed.drop_upper {k : Nat} (hk : k + 1 < maxDepth) (w : UInt64) :
    drop k (upper w) = drop (k + 1) w := by
  apply UInt64.toNat_inj.mp
  rw [toNat_drop (by omega), toNat_drop hk, toNat_upper, tileCount_succ, Nat.div_div_eq_div_mul]

/-- The levels of a word are its upper levels and then its lower ones. -/
theorem Packed.unpack_add {n k : Nat} (hk : k < maxDepth) (w : UInt64) :
    unpack (n + k) w = unpack n (drop k w) ++ unpack k w := by
  induction k generalizing w with
  | zero => simp [unpack, drop_zero]
  | succ k ih =>
      rw [← Nat.add_assoc, unpack, ih (by omega), drop_upper hk, List.append_assoc]
      rfl

namespace Tile

/-- An ancestor has the first quadrants of the path. -/
@[simp] theorem quadrants_ancestor (t : Tile) (d : Nat) (pos : 0 < d) (le : d ≤ t.depth) :
    (t.ancestor d pos le).quadrants = t.quadrants.take d := by
  have room := t.depth_le
  have split := Packed.unpack_add (n := d) (k := t.depth - d) (by omega) t.code
  rw [Nat.add_sub_cancel' le] at split
  show Packed.unpack d (Packed.drop (t.depth - d) t.code) = t.quadrants.take d
  rw [quadrants, split, List.take_left' (Packed.length_unpack d _)]

/-! ### Lying inside -/

/-- A tile contains another when it is one of its ancestors. -/
theorem contains_iff_ancestor {t u : Tile} :
    t.contains u = true ↔ ∃ le : t.depth ≤ u.depth, u.ancestor t.depth t.depth_pos le = t := by
  rw [contains, Bool.and_eq_true, decide_eq_true_eq, beq_iff_eq]
  constructor
  · rintro ⟨le, code⟩
    exact ⟨le, eq_iff.mpr ⟨code, rfl⟩⟩
  · rintro ⟨le, same⟩
    exact ⟨le, (eq_iff.mp same).1⟩

/-- A tile contains another exactly when its path begins the path of the other. -/
theorem contains_iff_path {t u : Tile} :
    t.contains u = true ↔ t.quadrants <+: u.quadrants := by
  rw [contains_iff_ancestor]
  constructor
  · rintro ⟨le, same⟩
    rw [← same, quadrants_ancestor]
    exact List.take_prefix _ _
  · intro start
    have le : t.depth ≤ u.depth := by
      rw [← length_quadrants t, ← length_quadrants u]
      exact start.length_le
    refine ⟨le, eq_iff_quadrants.mpr ?_⟩
    rw [quadrants_ancestor, ← length_quadrants t]
    exact (List.prefix_iff_eq_take.mp start).symm

@[simp] theorem contains_refl (t : Tile) : t.contains t = true :=
  contains_iff_path.mpr (List.prefix_refl _)

theorem contains_trans {t u v : Tile} (h : t.contains u = true) (h' : u.contains v = true) :
    t.contains v = true :=
  contains_iff_path.mpr ((contains_iff_path.mp h).trans (contains_iff_path.mp h'))

theorem depth_le_of_contains {t u : Tile} (h : t.contains u = true) : t.depth ≤ u.depth :=
  (contains_iff_ancestor.mp h).1

/-- Tiles of one depth contain each other only when they are equal. -/
theorem eq_of_contains_of_depth_le {t u : Tile} (h : t.contains u = true)
    (le : u.depth ≤ t.depth) : t = u := by
  refine eq_iff_quadrants.mpr ((contains_iff_path.mp h).eq_of_length ?_)
  have := depth_le_of_contains h
  simp
  omega

theorem contains_antisymm {t u : Tile} (h : t.contains u = true) (h' : u.contains t = true) :
    t = u :=
  eq_of_contains_of_depth_le h (depth_le_of_contains h')

/-- Of two tiles that contain a third one, the one of smaller depth contains the other. -/
theorem contains_of_common {t u v : Tile} (ht : t.contains v = true) (hu : u.contains v = true)
    (le : t.depth ≤ u.depth) : t.contains u = true := by
  rw [contains_iff_path] at ht hu ⊢
  exact List.prefix_of_prefix_length_le ht hu (by simpa using le)

theorem ancestor_contains (t : Tile) (d : Nat) (pos : 0 < d) (le : d ≤ t.depth) :
    (t.ancestor d pos le).contains t = true := by
  rw [contains_iff_path, quadrants_ancestor]
  exact List.take_prefix _ _

theorem contains_child (t : Tile) (q : Quadrant) (room : t.depth < maxDepth) :
    t.contains (t.child q room) = true := by
  rw [contains_iff_path, quadrants_child]
  exact List.prefix_append _ _

/-- What lies strictly inside a tile lies inside one of its children. -/
theorem exists_child_contains {t u : Tile} (h : t.contains u = true) (lt : t.depth < u.depth) :
    ∃ q, ∃ room : t.depth < maxDepth, (t.child q room).contains u = true := by
  have room : t.depth < maxDepth := Nat.lt_of_lt_of_le lt u.depth_le
  obtain ⟨rest, split⟩ := contains_iff_path.mp h
  cases rest with
  | nil =>
      have lengths := congrArg List.length split
      simp at lengths
      omega
  | cons q rest =>
      refine ⟨q, room, contains_iff_path.mpr ⟨rest, ?_⟩⟩
      rw [quadrants_child, ← split, List.append_assoc]
      rfl

/-- What contains a child contains its parent, or is that child. -/
theorem eq_or_contains_of_contains_child {t u : Tile} {q : Quadrant} {room : t.depth < maxDepth}
    (h : u.contains (t.child q room) = true) : u = t.child q room ∨ u.contains t = true := by
  rcases Nat.lt_or_ge t.depth u.depth with deep | le
  · exact .inl (eq_of_contains_of_depth_le h deep)
  · exact .inr (contains_of_common h (contains_child t q room) le)

/-- A tile has a parent exactly when it is a child of it. -/
theorem parent?_eq_some_iff {t p : Tile} :
    t.parent? = some p ↔ ∃ q, ∃ room : p.depth < maxDepth, t = p.child q room := by
  constructor
  · intro h
    unfold parent? at h
    split at h
    · next deep =>
      cases h
      obtain ⟨q, room, inside⟩ := exists_child_contains
        (ancestor_contains t (t.depth - 1) (by omega) (by omega)) (by simp; omega)
      refine ⟨q, room, (eq_of_contains_of_depth_le inside ?_).symm⟩
      simp
      omega
    · cases h
  · rintro ⟨q, room, rfl⟩
    exact parent?_child p q room

theorem depth_of_parent? {t p : Tile} (h : t.parent? = some p) : t.depth = p.depth + 1 := by
  obtain ⟨q, room, rfl⟩ := parent?_eq_some_iff.mp h
  rfl

/-- Only the four quadrants of the map have no parent. -/
theorem exists_parent? {t : Tile} (deep : 1 < t.depth) : ∃ p, t.parent? = some p := by
  unfold parent?
  rw [dif_pos deep]
  exact ⟨_, rfl⟩

/-! ### Covering -/

theorem mem_lineage {t u : Tile} : u ∈ t.lineage ↔ u.contains t = true := by
  rw [lineage, List.mem_map]
  constructor
  · rintro ⟨i, -, rfl⟩
    exact ancestor_contains _ _ _ _
  · intro h
    obtain ⟨le, same⟩ := contains_iff_ancestor.mp h
    have pos := u.depth_pos
    refine ⟨⟨u.depth - 1, by omega⟩, List.mem_finRange _, ?_⟩
    simp only [Nat.sub_add_cancel pos, same]

end Tile

/-- A tile is covered exactly when some member contains it. -/
theorem Area.covers_iff {a : Area} {t : Tile} :
    a.covers t = true ↔ ∃ u ∈ a, u.contains t = true := by
  rw [covers, List.any_eq_true]
  simp only [Tile.mem_lineage, decide_eq_true_eq]
  exact exists_congr fun u => and_comm

theorem Area.covers_of_mem {a : Area} {t : Tile} (h : t ∈ a) : a.covers t = true :=
  covers_iff.mpr ⟨t, h, Tile.contains_refl t⟩

/-- What lies inside a covered tile is covered. -/
theorem Area.covers_of_contains {a : Area} {t u : Tile} (h : a.covers t = true)
    (inside : t.contains u = true) : a.covers u = true := by
  obtain ⟨v, hv, hvt⟩ := covers_iff.mp h
  exact covers_iff.mpr ⟨v, hv, Tile.contains_trans hvt inside⟩

theorem Area.free_of_contains {a : Area} {t u : Tile} (h : a.covers u = false)
    (inside : t.contains u = true) : a.covers t = false := by
  rw [Bool.eq_false_iff]
  intro covered
  rw [covers_of_contains covered inside] at h
  cases h

/-! ### The stretch of tiles inside a tile -/

namespace Tile

/-- The tiles inside a tile are those at least as deep whose aligned words lie in its interval. -/
theorem contains_iff_aligned {t u : Tile} :
    t.contains u = true ↔ t.depth ≤ u.depth ∧ t.aligned.toNat ≤ u.aligned.toNat ∧
      u.aligned.toNat < t.aligned.toNat + tileCount (maxDepth - t.depth) := by
  rw [contains, Bool.and_eq_true, decide_eq_true_eq, beq_iff_eq]
  refine and_congr_right fun le => ?_
  have room := u.depth_le
  have pos := t.depth_pos
  -- the levels below `t` are those between the two depths and those below `u`
  have levels : tileCount (maxDepth - t.depth)
      = tileCount (u.depth - t.depth) * tileCount (maxDepth - u.depth) := by
    rw [← tileCount_add]
    congr 1
    omega
  have wide := tileCount_pos (u.depth - t.depth)
  have wide' := tileCount_pos (maxDepth - u.depth)
  rw [← UInt64.toNat_inj, Packed.toNat_drop (by omega), toNat_aligned, toNat_aligned, levels,
    ← Nat.mul_assoc, ← Nat.add_mul, Nat.mul_le_mul_right_iff wide',
    Nat.mul_lt_mul_right wide', Nat.div_eq_iff wide]
  omega

/-- A tile comes before all tiles inside it. -/
theorem eq_or_lt_of_contains {t u : Tile} (h : t.contains u = true) : t = u ∨ t < u := by
  obtain ⟨le, low, -⟩ := contains_iff_aligned.mp h
  rcases Nat.lt_or_eq_of_le low with lt | eq
  · exact .inr (lt_iff.mpr (.inl (UInt64.lt_iff_toNat_lt.mpr lt)))
  · rcases Nat.lt_or_eq_of_le le with deep | same
    · exact .inr (lt_iff.mpr (.inr ⟨UInt64.toNat_inj.mp eq, deep⟩))
    · exact .inl (eq_of_contains_of_depth_le h (Nat.le_of_eq same.symm))

theorem not_contains_of_lt {t u : Tile} (h : t < u) : u.contains t = false := by
  rw [Bool.eq_false_iff]
  intro inside
  rcases eq_or_lt_of_contains inside with rfl | lt
  · exact lt_irrefl _ h
  · exact lt_asymm h lt

/-- A tile that comes between a tile and something inside it lies inside it too. -/
theorem contains_of_between {t u v : Tile} (htu : t < u) (huv : u < v)
    (h : t.contains v = true) : t.contains u = true := by
  obtain ⟨-, -, high⟩ := contains_iff_aligned.mp h
  rw [lt_iff, UInt64.lt_iff_toNat_lt, ← UInt64.toNat_inj] at htu huv
  refine contains_iff_aligned.mpr ⟨?_, by omega, by omega⟩
  -- if `u` were less deep, its word would be a multiple of the length of the interval of `t`,
  -- and the only such number in the interval is its start
  refine Nat.le_of_not_lt fun shallow => ?_
  have room := t.depth_le
  have levels : tileCount (maxDepth - u.depth)
      = tileCount (t.depth - u.depth) * tileCount (maxDepth - t.depth) := by
    rw [← tileCount_add]
    congr 1
    omega
  have after : t.aligned.toNat < u.aligned.toNat := by omega
  have before : u.aligned.toNat < t.aligned.toNat + tileCount (maxDepth - t.depth) := by omega
  rw [toNat_aligned, toNat_aligned, levels, ← Nat.mul_assoc] at after before
  rw [← Nat.succ_mul] at before
  have := Nat.lt_of_mul_lt_mul_right after
  have := Nat.lt_of_mul_lt_mul_right before
  omega

end Tile

end Geotile
