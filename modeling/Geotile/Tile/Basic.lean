/-
**Tiles: paths from the whole map down to one square.**

A tile is a list of between one and thirty-two quadrants: the quadrant of the map, the quadrant of
that quadrant, and so on.  It is stored as one packed word and a depth.  Since the type holds only
words that fit their depth, two tiles are equal exactly when their lists of quadrants are.

Tiles are ordered as their digit strings are, first difference first and a path before its
continuations.  The order is read off the words: shifted so that their first levels line up, they
compare as numbers, and of two equal numbers the smaller depth comes first.

Main definitions:

* `Geotile.Tile`, `Geotile.Tile.quadrants`, `Geotile.Tile.ofQuadrants` — a tile, and its list of
  quadrants;
* `Geotile.Tile.ancestor`, `Geotile.Tile.parent?`, `Geotile.Tile.shorten` — dropping levels;
* `Geotile.Tile.child`, `Geotile.Tile.children?` — adding a level;
* `Geotile.Tile.contains`, `Geotile.Tile.meets` — lying inside, and overlapping;
* the order `<` on tiles, and `Geotile.Tile.compare`.

Main results:

* `Geotile.Tile.quadrants_ofQuadrants`, `Geotile.Tile.ofQuadrants_quadrants`,
  `Geotile.Tile.eq_iff_quadrants` — a tile is its list of quadrants;
* `Geotile.Tile.quadrants_child` — a child adds its quadrant at the end;
* `Geotile.Tile.lt_irrefl`, `Geotile.Tile.lt_trans`, `Geotile.Tile.eq_of_not_lt` — the order is a
  strict linear order.
-/

import Geotile.Packed

set_option autoImplicit false

namespace Geotile

/-- A tile of the map: a packed path of at least one and at most thirty-two quadrants. -/
structure Tile where
  /-- The packed quadrants, the deepest in the lowest bits. -/
  code : UInt64
  /-- The number of quadrants. -/
  depth : Nat
  depth_pos : 0 < depth
  depth_le : depth ≤ maxDepth
  code_lt : code.toNat < tileCount depth
  deriving DecidableEq

namespace Tile

/-- Word and depth determine a tile. -/
theorem eq_iff {t u : Tile} : t = u ↔ t.code = u.code ∧ t.depth = u.depth := by
  cases t
  cases u
  simp

/-! ### Quadrants -/

/-- The quadrants of a tile, from the whole map down. -/
def quadrants (t : Tile) : List Quadrant := Packed.unpack t.depth t.code

/-- The tile at the end of a path. -/
def ofQuadrants (qs : List Quadrant) (pos : 0 < qs.length) (le : qs.length ≤ maxDepth) : Tile where
  code := Packed.pack qs
  depth := qs.length
  depth_pos := pos
  depth_le := le
  code_lt := Packed.toNat_pack_lt qs le

@[simp] theorem length_quadrants (t : Tile) : t.quadrants.length = t.depth := by
  simp [quadrants]

@[simp] theorem depth_ofQuadrants (qs : List Quadrant) (pos : 0 < qs.length)
    (le : qs.length ≤ maxDepth) : (ofQuadrants qs pos le).depth = qs.length := rfl

@[simp] theorem quadrants_ofQuadrants (qs : List Quadrant) (pos : 0 < qs.length)
    (le : qs.length ≤ maxDepth) : (ofQuadrants qs pos le).quadrants = qs :=
  Packed.unpack_pack qs le

@[simp] theorem ofQuadrants_quadrants (t : Tile) :
    ofQuadrants t.quadrants (by simp [t.depth_pos]) (by simp [t.depth_le]) = t := by
  refine eq_iff.mpr ⟨Packed.pack_unpack t.code_lt, ?_⟩
  simp

/-- Two tiles are equal exactly when their paths are. -/
theorem eq_iff_quadrants {t u : Tile} : t = u ↔ t.quadrants = u.quadrants := by
  constructor
  · exact fun h => h ▸ rfl
  · intro h
    have depths : t.depth = u.depth := by
      rw [← length_quadrants t, ← length_quadrants u, h]
    refine eq_iff.mpr ⟨?_, depths⟩
    rw [← Packed.pack_unpack t.code_lt, ← Packed.pack_unpack u.code_lt]
    exact congrArg Packed.pack h

/-- The quadrant at a level, the level of the whole map's quadrants being `0`. -/
def quadrant? (t : Tile) (level : Nat) : Option Quadrant :=
  if level < t.depth then some (Packed.lowest (Packed.drop (t.depth - 1 - level) t.code)) else none

/-! ### Dropping levels -/

/-- The tile of the given smaller depth in which a tile lies. -/
def ancestor (t : Tile) (d : Nat) (pos : 0 < d) (le : d ≤ t.depth) : Tile where
  code := Packed.drop (t.depth - d) t.code
  depth := d
  depth_pos := pos
  depth_le := Nat.le_trans le t.depth_le
  code_lt := by
    have room := t.depth_le
    refine Packed.toNat_drop_lt (by omega) ?_
    rw [Nat.add_sub_cancel' le]
    exact t.code_lt

@[simp] theorem depth_ancestor (t : Tile) (d : Nat) (pos : 0 < d) (le : d ≤ t.depth) :
    (t.ancestor d pos le).depth = d := rfl

/-- The tile one level up; a quadrant of the whole map has none. -/
def parent? (t : Tile) : Option Tile :=
  if h : 1 < t.depth then some (t.ancestor (t.depth - 1) (by omega) (by omega)) else none

/-- All tiles in which a tile lies, itself included, from the whole map down. -/
def lineage (t : Tile) : List Tile :=
  (List.finRange t.depth).map fun i => t.ancestor (i.val + 1) (by omega) (by omega)

/-- The depth that a selector asks for: zero and below count the levels to drop, above zero the
levels to keep. -/
def shortenedDepth (depth : Nat) (selector : Int) : Nat :=
  let asked := if selector ≤ 0 then depth + selector else selector
  (max 1 (min asked depth)).toNat

theorem shortenedDepth_pos (depth : Nat) (selector : Int) : 0 < shortenedDepth depth selector := by
  simp only [shortenedDepth]
  split <;> omega

theorem shortenedDepth_le {depth : Nat} (pos : 0 < depth) (selector : Int) :
    shortenedDepth depth selector ≤ depth := by
  simp only [shortenedDepth]
  split <;> omega

/-- The tile with as many levels as a selector asks for, at least one and never more than it
has. -/
def shorten (t : Tile) (selector : Int) : Tile :=
  t.ancestor (shortenedDepth t.depth selector) (shortenedDepth_pos _ _)
    (shortenedDepth_le t.depth_pos _)

/-! ### Adding a level -/

/-- The tile in one quadrant of a tile. -/
def child (t : Tile) (q : Quadrant) (room : t.depth < maxDepth) : Tile where
  code := Packed.push t.code q
  depth := t.depth + 1
  depth_pos := Nat.succ_pos _
  depth_le := room
  code_lt := Packed.toNat_push_lt room t.code_lt q

@[simp] theorem depth_child (t : Tile) (q : Quadrant) (room : t.depth < maxDepth) :
    (t.child q room).depth = t.depth + 1 := rfl

@[simp] theorem quadrants_child (t : Tile) (q : Quadrant) (room : t.depth < maxDepth) :
    (t.child q room).quadrants = t.quadrants ++ [q] := by
  have fits : t.code.toNat < tileCount 31 :=
    Nat.lt_of_lt_of_le t.code_lt (tileCount_le (Nat.le_of_lt_succ room))
  simp [quadrants, child, Packed.unpack, fits]

/-- The four tiles that make up a tile, in the order of their quadrants; a tile of the deepest
level has none. -/
def children? (t : Tile) : Option (List Tile) :=
  if room : t.depth < maxDepth then some (Quadrant.all.map fun q => t.child q room) else none

/-! ### Lying inside -/

/-- Whether the second tile lies inside the first, every tile lying inside itself. -/
def contains (t u : Tile) : Bool :=
  t.depth ≤ u.depth && Packed.drop (u.depth - t.depth) u.code == t.code

/-- Whether two tiles overlap, that is, one lies inside the other. -/
def meets (t u : Tile) : Bool := t.contains u || u.contains t

/-! ### Order -/

/-- The word of a tile with its first level in the highest bits. -/
def aligned (t : Tile) : UInt64 := Packed.raise (maxDepth - t.depth) t.code

/-- The order of digit strings: the aligned words decide, and of equal ones the depth. -/
instance : LT Tile where
  lt t u := t.aligned < u.aligned ∨ (t.aligned = u.aligned ∧ t.depth < u.depth)

instance (t u : Tile) : Decidable (t < u) :=
  inferInstanceAs
    (Decidable (t.aligned < u.aligned ∨ (t.aligned = u.aligned ∧ t.depth < u.depth)))

theorem lt_iff {t u : Tile} :
    t < u ↔ t.aligned < u.aligned ∨ (t.aligned = u.aligned ∧ t.depth < u.depth) := Iff.rfl

/-- The order of two tiles as one of three answers. -/
def compare (t u : Tile) : Ordering :=
  if t < u then .lt else if u < t then .gt else .eq

theorem toNat_aligned (t : Tile) :
    t.aligned.toNat = t.code.toNat * tileCount (maxDepth - t.depth) :=
  Packed.toNat_raise t.depth_pos (Nat.le_of_eq (Nat.add_sub_cancel' t.depth_le)) t.code_lt

theorem lt_irrefl (t : Tile) : ¬ t < t := by
  rw [lt_iff, UInt64.lt_iff_toNat_lt]
  omega

theorem lt_trans {t u v : Tile} (h : t < u) (h' : u < v) : t < v := by
  rw [lt_iff, UInt64.lt_iff_toNat_lt, ← UInt64.toNat_inj] at *
  omega

theorem lt_asymm {t u : Tile} (h : t < u) : ¬ u < t := fun h' => lt_irrefl t (lt_trans h h')

/-- Of two different tiles one comes first. -/
theorem eq_of_not_lt {t u : Tile} (h : ¬ t < u) (h' : ¬ u < t) : t = u := by
  rw [lt_iff, UInt64.lt_iff_toNat_lt, ← UInt64.toNat_inj] at *
  have depths : t.depth = u.depth := by omega
  refine eq_iff.mpr ⟨?_, depths⟩
  have words : t.aligned.toNat = u.aligned.toNat := by omega
  rw [toNat_aligned, toNat_aligned, depths] at words
  exact UInt64.toNat_inj.mp (Nat.eq_of_mul_eq_mul_right (tileCount_pos _) words)

end Tile

end Geotile
