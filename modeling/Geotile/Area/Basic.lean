/-
**Areas: finite sets of tiles.**

An area is described by a set of tiles of any depths, its members.  Nothing is normalised when a
member is added, so one member may lie inside another.  The members are kept in the order of
their digits, each once, so two areas have the same members exactly when they are equal, and the
tiles inside a given tile are consecutive.

Main definitions:

* `Geotile.Area`, `Geotile.Area.ofList`, `Geotile.Area.insert`, `Geotile.Area.insertAll` — areas
  and how they are built;
* `Geotile.Area.filter`, `Geotile.Area.erase` — taking members away;
* `Geotile.Area.covers` — whether a tile lies inside some member;
* `Geotile.Area.membersWithin`, `Geotile.Area.hasMembersBelow` — the members inside a tile, and
  whether there are any but the tile itself.

Main results:

* `Geotile.Area.ext_mem` — areas with the same members are equal;
* `Geotile.Area.mem_insert`, `Geotile.Area.mem_insertAll`, `Geotile.Area.mem_ofList`,
  `Geotile.Area.mem_filter`, `Geotile.Area.mem_erase` — the members of each result.
-/

import Geotile.Tile.Text

set_option autoImplicit false

namespace Geotile

/-- A finite set of tiles, in the order of their digits. -/
structure Area where
  /-- The members. -/
  tiles : List Tile
  sorted : tiles.Pairwise (· < ·)
  deriving DecidableEq

namespace Area

/-- The area without members. -/
def empty : Area := ⟨[], .nil⟩

instance : EmptyCollection Area := ⟨empty⟩

instance : Inhabited Area := ⟨empty⟩

instance : Membership Tile Area := ⟨fun a t => t ∈ a.tiles⟩

theorem mem_def {t : Tile} {a : Area} : t ∈ a ↔ t ∈ a.tiles := Iff.rfl

instance (t : Tile) (a : Area) : Decidable (t ∈ a) := inferInstanceAs (Decidable (t ∈ a.tiles))

/-- The number of members. -/
def size (a : Area) : Nat := a.tiles.length

/-- Whether there is no member. -/
def isEmpty (a : Area) : Bool := a.tiles.isEmpty

/-- The members as digit texts, in order. -/
def texts (a : Area) : List String := a.tiles.map Tile.text

/-- The members between brackets. -/
def text (a : Area) : String := "[" ++ String.intercalate ", " a.texts ++ "]"

instance : ToString Area := ⟨text⟩

/-- The depth of the deepest member. -/
def deepest? (a : Area) : Option Nat := (a.tiles.map Tile.depth).max?

theorem nodup (a : Area) : a.tiles.Nodup :=
  a.sorted.imp fun {t u} (h : t < u) (e : t = u) => Tile.lt_irrefl u (e ▸ h)

/-- Areas with the same list of members are equal. -/
theorem ext_tiles {a b : Area} (h : a.tiles = b.tiles) : a = b := by
  cases a
  cases b
  simpa using h

theorem eq_of_sorted_of_mem : ∀ {xs ys : List Tile}, xs.Pairwise (· < ·) → ys.Pairwise (· < ·) →
    (∀ t, t ∈ xs ↔ t ∈ ys) → xs = ys
  | [], [], _, _, _ => rfl
  | [], y :: _, _, _, h => absurd ((h y).mpr (List.mem_cons_self ..)) List.not_mem_nil
  | x :: _, [], _, _, h => absurd ((h x).mp (List.mem_cons_self ..)) List.not_mem_nil
  | x :: xs, y :: ys, hx, hy, h => by
    rw [List.pairwise_cons] at hx hy
    -- each of the two first members is a member of the other list, and none comes before it there
    have first : x = y := by
      refine Tile.eq_of_not_lt ?_ ?_
      · intro lt
        rcases List.mem_cons.mp ((h x).mp (List.mem_cons_self ..)) with e | m
        · exact Tile.lt_irrefl y (e ▸ lt)
        · exact Tile.lt_asymm lt (hy.1 x m)
      · intro lt
        rcases List.mem_cons.mp ((h y).mpr (List.mem_cons_self ..)) with e | m
        · exact Tile.lt_irrefl x (e ▸ lt)
        · exact Tile.lt_asymm lt (hx.1 y m)
    subst first
    -- the first member does not come again, so the tails have the same members too
    refine congrArg (x :: ·) (eq_of_sorted_of_mem hx.2 hy.2 fun t => ?_)
    have both := h t
    simp only [List.mem_cons] at both
    constructor
    · intro m
      rcases both.mp (.inr m) with e | m'
      · exact absurd (hx.1 t m) (e ▸ Tile.lt_irrefl x)
      · exact m'
    · intro m
      rcases both.mpr (.inr m) with e | m'
      · exact absurd (hy.1 t m) (e ▸ Tile.lt_irrefl x)
      · exact m'

/-- Areas with the same members are equal. -/
theorem ext_mem {a b : Area} (h : ∀ t, t ∈ a ↔ t ∈ b) : a = b :=
  ext_tiles (eq_of_sorted_of_mem a.sorted b.sorted h)

/-! ### Adding members -/

/-- A tile put in its place in an ordered list, unless it is there already. -/
def insertSorted (t : Tile) : List Tile → List Tile
  | [] => [t]
  | u :: us => if t < u then t :: u :: us else if u < t then u :: insertSorted t us else u :: us

theorem mem_insertSorted {t u : Tile} {us : List Tile} :
    u ∈ insertSorted t us ↔ u = t ∨ u ∈ us := by
  induction us with
  | nil => simp [insertSorted]
  | cons v vs ih =>
      rw [insertSorted]
      split
      · simp
      · split
        · simp only [List.mem_cons, ih]
          exact or_left_comm
        · next h h' =>
          have same : t = v := Tile.eq_of_not_lt h h'
          simp [same]

theorem pairwise_insertSorted {t : Tile} {us : List Tile} (h : us.Pairwise (· < ·)) :
    (insertSorted t us).Pairwise (· < ·) := by
  induction us with
  | nil => simp [insertSorted]
  | cons v vs ih =>
      rw [List.pairwise_cons] at h
      rw [insertSorted]
      split
      · next lt =>
        refine List.pairwise_cons.mpr ⟨fun w hw => ?_, List.pairwise_cons.mpr h⟩
        rcases List.mem_cons.mp hw with rfl | hw
        · exact lt
        · exact Tile.lt_trans lt (h.1 w hw)
      · split
        · next lt =>
          refine List.pairwise_cons.mpr ⟨fun w hw => ?_, ih h.2⟩
          rcases mem_insertSorted.mp hw with rfl | hw
          · exact lt
          · exact h.1 w hw
        · exact List.pairwise_cons.mpr h

theorem length_insertSorted_le (t : Tile) (us : List Tile) :
    (insertSorted t us).length ≤ us.length + 1 := by
  induction us with
  | nil => simp [insertSorted]
  | cons v vs ih =>
      rw [insertSorted]
      split
      · simp
      · split <;> simp
        exact ih

/-- The area with one more member. -/
def insert (t : Tile) (a : Area) : Area := ⟨insertSorted t a.tiles, pairwise_insertSorted a.sorted⟩

/-- The area with all tiles of a list as members. -/
def insertAll (ts : List Tile) (a : Area) : Area := ts.foldr insert a

/-- The area whose members are the tiles of a list. -/
def ofList (ts : List Tile) : Area := insertAll ts empty

/-- The area with one member. -/
def single (t : Tile) : Area := ⟨[t], List.pairwise_singleton _ _⟩

@[simp] theorem not_mem_empty (t : Tile) : t ∉ empty := List.not_mem_nil

@[simp] theorem mem_single {t u : Tile} : u ∈ single t ↔ u = t := List.mem_singleton

@[simp] theorem mem_insert {t u : Tile} {a : Area} : u ∈ a.insert t ↔ u = t ∨ u ∈ a :=
  mem_insertSorted

@[simp] theorem mem_insertAll {ts : List Tile} {u : Tile} {a : Area} :
    u ∈ insertAll ts a ↔ u ∈ ts ∨ u ∈ a := by
  induction ts with
  | nil => simp [insertAll]
  | cons t ts ih =>
      rw [insertAll, List.foldr_cons, mem_insert, ← insertAll, ih, List.mem_cons, or_assoc]

@[simp] theorem mem_ofList {ts : List Tile} {u : Tile} : u ∈ ofList ts ↔ u ∈ ts := by
  simp [ofList]

/-- Tiles added group by group are all added. -/
theorem foldl_insertAll {β : Type} (f : β → List Tile) (bs : List β) (a : Area) :
    bs.foldl (fun a b => insertAll (f b) a) a = insertAll (bs.flatMap f) a := by
  refine ext_mem fun u => ?_
  induction bs generalizing a with
  | nil => simp [insertAll]
  | cons b bs ih =>
      rw [List.foldl_cons, ih]
      simp only [mem_insertAll, List.mem_flatMap, List.mem_cons, exists_eq_or_imp]
      rw [← or_assoc, or_comm (a := ∃ c ∈ bs, u ∈ f c)]

theorem size_insertAll_le (ts : List Tile) (a : Area) :
    (insertAll ts a).size ≤ ts.length + a.size := by
  induction ts with
  | nil => simp [insertAll]
  | cons t ts ih =>
      have step := length_insertSorted_le t (insertAll ts a).tiles
      simp only [size] at ih ⊢
      simp only [insertAll, List.foldr_cons, List.length_cons] at step ih ⊢
      simp only [insert]
      omega

/-- An area has as many members as the list that it is made from, when no tile is listed twice. -/
theorem size_ofList {ts : List Tile} (h : ts.Nodup) : (ofList ts).size = ts.length :=
  ((List.perm_ext_iff_of_nodup (nodup _) h).mpr fun _ => mem_ofList).length_eq

/-! ### Taking members away -/

/-- The members that pass a test. -/
def filter (keep : Tile → Bool) (a : Area) : Area :=
  ⟨a.tiles.filter keep, a.sorted.filter keep⟩

/-- The area without one member; what the member covers is not cut out of others. -/
def erase (t : Tile) (a : Area) : Area := a.filter fun u => u ≠ t

@[simp] theorem mem_filter {keep : Tile → Bool} {t : Tile} {a : Area} :
    t ∈ a.filter keep ↔ t ∈ a ∧ keep t = true := List.mem_filter

@[simp] theorem mem_erase {t u : Tile} {a : Area} : u ∈ a.erase t ↔ u ∈ a ∧ u ≠ t := by
  simp [erase]

/-! ### What an area covers -/

/-- Whether a tile lies inside some member: whether some tile it lies in is a member. -/
def covers (a : Area) (t : Tile) : Bool := t.lineage.any fun u => u ∈ a

/-- The members inside a tile: the stretch of members that starts at the tile. -/
def membersWithin (a : Area) (t : Tile) : List Tile :=
  (a.tiles.dropWhile fun u => u < t).takeWhile t.contains

/-- Whether some member lies inside a tile and is not that tile. -/
def hasMembersBelow (a : Area) (t : Tile) : Bool := (a.membersWithin t).any fun u => u ≠ t

end Area

end Geotile
