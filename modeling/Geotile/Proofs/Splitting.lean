/-
**A tile is made up of its parts.**

Splitting a tile goes down level by level through all four quadrants, or, on words, counts through
the bits of the levels in between.  Either way it reaches every tile of the depth asked for that
lies inside, and reaches none twice.  So there are four times as many for each level, and bringing
them to their smallest form undoes the splitting over all levels at once: they cover what the tile
covers, and the area that consists of the tile alone is in its smallest form already.

A split is refused when it is not clear how deep it should go, or when the depth is above the tile
or below the deepest level, and never otherwise.

Main definitions:

* `Geotile.Tile.Asks` — the depth that a split asks for.

Main results:

* `Geotile.Tile.mem_descendants`, `Geotile.Tile.nodup_descendants` — the tiles of a depth inside a
  tile, each once;
* `Geotile.Area.optimise_descendants` — **their smallest form is the tile**;
* `Geotile.Tile.split_eq_ok_iff` — when a split is accepted;
* `Geotile.Tile.split_makes_up_tile` — **what a split gives, and when**.
-/

import Geotile.Proofs.RawMembers
import Geotile.Proofs.SmallestForm

set_option autoImplicit false

namespace Geotile

/-- There are four times as many tiles on each further level. -/
theorem tileCount_eq_four_pow (d : Nat) : tileCount d = 4 ^ d := by
  induction d with
  | zero => rfl
  | succ d ih => rw [tileCount_succ, ih, Nat.pow_succ, Nat.mul_comm]

namespace Tile

/-! ### All tiles of one depth inside a tile -/

/-- Going down level by level reaches all tiles of the depth aimed at inside the tile, and no
other. -/
theorem mem_descendants {levels : Nat} {t u : Tile} (room : t.depth + levels ≤ maxDepth) :
    u ∈ t.descendants levels room ↔ u.depth = t.depth + levels ∧ t.contains u = true := by
  induction levels generalizing t with
  | zero =>
      rw [descendants, List.mem_singleton, Nat.add_zero]
      constructor
      · rintro rfl
        exact ⟨rfl, contains_refl u⟩
      · rintro ⟨depth, inside⟩
        exact (eq_of_contains_of_depth_le inside (Nat.le_of_eq depth)).symm
  | succ k ih =>
      simp only [descendants, List.mem_flatMap, Quadrant.mem_all, true_and, ih, depth_child]
      constructor
      · rintro ⟨q, depth, inside⟩
        exact ⟨by omega, contains_trans (contains_child t q (by omega)) inside⟩
      · rintro ⟨depth, inside⟩
        obtain ⟨q, _, within⟩ := exists_child_contains inside (by omega)
        exact ⟨q, by omega, within⟩

/-- It reaches none of them twice. -/
theorem nodup_descendants {levels : Nat} {t : Tile} (room : t.depth + levels ≤ maxDepth) :
    (t.descendants levels room).Nodup := by
  induction levels generalizing t with
  | zero => exact List.pairwise_singleton _ t
  | succ k ih =>
      refine List.pairwise_flatMap.mpr ⟨fun q _ => ih _, ?_⟩
      -- a tile inside two children would make one of the children lie inside the other
      refine Quadrant.nodup_all.imp fun {p q} other u hu v hv same => other ?_
      subst same
      have first := ((mem_descendants _).mp hu).2
      have second := ((mem_descendants _).mp hv).2
      have within := contains_of_common first second (Nat.le_refl _)
      exact child_inj.mp (eq_of_contains_of_depth_le within (Nat.le_refl _))

end Tile

/-! ### Their smallest form -/

namespace Area

theorem sameCover_descendants {t : Tile} {levels : Nat} (room : t.depth + levels ≤ maxDepth) :
    SameCover (ofList (t.descendants levels room)) (single t) := by
  intro c deepest
  rw [Bool.eq_iff_iff, covers_iff, covers_iff]
  simp only [mem_ofList, Tile.mem_descendants, mem_single, exists_eq_left]
  constructor
  · rintro ⟨u, ⟨-, inside⟩, around⟩
    exact Tile.contains_trans inside around
  · intro inside
    have pos := t.depth_pos
    have around := Tile.ancestor_contains c (t.depth + levels) (by omega) (by omega)
    have within := Tile.contains_of_common inside around (Nat.le_add_right ..)
    exact ⟨_, ⟨rfl, within⟩, around⟩

/-- The tiles of one depth inside a tile are merged into it again. -/
theorem optimise_descendants {t : Tile} {levels : Nat} (room : t.depth + levels ≤ maxDepth) :
    (ofList (t.descendants levels room)).optimise = single t := by
  rw [(sameCover_descendants room).optimise_eq, (canonical_single t).optimise_eq]

theorem size_descendants {t : Tile} {levels : Nat} (room : t.depth + levels ≤ maxDepth) :
    (ofList (t.descendants levels room)).size = 4 ^ levels := by
  rw [size_ofList (Tile.nodup_descendants room), Tile.length_descendants, tileCount_eq_four_pow]

end Area

/-! ### Splits that are accepted -/

namespace Tile

/-- The depth that a split of a tile asks for: a depth alone, or a number of further levels alone
that is at least one. -/
inductive Asks (t : Tile) : (target extra : Option UInt8) → (d : Nat) → Prop where
  /-- A depth is given. -/
  | depth (target : UInt8) : Asks t (some target) none target.toNat
  /-- A number of further levels is given. -/
  | levels (extra : UInt8) (further : 1 ≤ extra.toNat) :
    Asks t none (some extra) (t.depth + extra.toNat)

/-- A split asks for one depth at most. -/
theorem Asks.unique {t : Tile} {target extra : Option UInt8} {d e : Nat}
    (h : t.Asks target extra d) (h' : t.Asks target extra e) : d = e := by
  cases h with
  | depth => cases h' with | depth => rfl
  | levels => cases h' with | levels => rfl

theorem splitTo_eq_ok_iff {t : Tile} {d : Nat} {a : Area} :
    t.splitTo d = .ok a ↔ ∃ levels, ∃ room : t.depth + levels ≤ maxDepth,
      t.depth + levels = d ∧ a = .ofList (t.descendants levels room) := by
  rw [splitTo]
  split
  · next above =>
    refine iff_of_false (by simp) ?_
    rintro ⟨levels, -, sum, -⟩
    omega
  · next reached =>
    split
    · next deep =>
      refine iff_of_false (by simp) ?_
      rintro ⟨levels, room, sum, -⟩
      omega
    · next high =>
      constructor
      · intro accepted
        cases accepted
        exact ⟨d - t.depth, by omega, by omega, rfl⟩
      · rintro ⟨levels, room, rfl, rfl⟩
        simp only [Nat.add_sub_cancel_left]

variable {t : Tile} {target extra : Option UInt8}

/-- A split that is accepted gives the tiles of the depth that it asks for. -/
theorem split_eq_ok_iff {a : Area} :
    t.split (target.map UInt8.toNat) (extra.map UInt8.toNat) = .ok a ↔
      ∃ levels, ∃ room : t.depth + levels ≤ maxDepth,
        t.Asks target extra (t.depth + levels) ∧ a = .ofList (t.descendants levels room) := by
  cases target with
  | some n =>
      cases extra with
      | some k =>
          refine iff_of_false (by simp [split]) ?_
          rintro ⟨levels, room, asked, -⟩
          cases asked
      | none =>
          rw [show t.split ((some n).map UInt8.toNat) ((none : Option UInt8).map UInt8.toNat)
            = t.splitTo n.toNat from rfl, splitTo_eq_ok_iff]
          refine exists_congr fun levels => exists_congr fun room => and_congr_left fun _ => ?_
          constructor
          · intro sum
            exact sum ▸ .depth n
          · intro asked
            exact asked.unique (.depth n)
  | none =>
      cases extra with
      | none =>
          refine iff_of_false (by simp [split]) ?_
          rintro ⟨levels, room, asked, -⟩
          cases asked
      | some k =>
          rw [show t.split ((none : Option UInt8).map UInt8.toNat) ((some k).map UInt8.toNat)
            = t.splitBy k.toNat from rfl, splitBy]
          split
          · next zero =>
            refine iff_of_false (by simp) ?_
            rintro ⟨levels, room, asked, -⟩
            generalize sum : t.depth + levels = d at asked
            cases asked with
            | levels _ further => omega
          · next further =>
            have asked : t.Asks none (some k) (t.depth + k.toNat) := .levels k (by omega)
            rw [splitTo_eq_ok_iff]
            refine exists_congr fun levels => exists_congr fun room => and_congr_left fun _ => ?_
            constructor
            · intro sum
              exact sum ▸ asked
            · intro asked'
              exact asked'.unique asked

/-- **A tile is made up of its parts.**  A split that asks for a depth is accepted exactly when that
depth is not above the tile and not below the deepest level.  It gives the area of all tiles of that
depth inside the tile; there are four for each tile of the level before, and the smallest form of
the area is the tile alone.  Every other split is refused as an invalid request for a depth.  On
words the same happens without a fault. -/
theorem split_makes_up_tile (t : Tile) (target extra : Option UInt8) :
    ((∃ a, t.split (target.map UInt8.toNat) (extra.map UInt8.toNat) = .ok a) ↔
      ∃ d, t.Asks target extra d ∧ t.depth ≤ d ∧ d ≤ 32) ∧
    (∀ a, t.split (target.map UInt8.toNat) (extra.map UInt8.toNat) = .ok a →
      t.raw.split target extra = .ok (.ok a.raw) ∧ a.optimise = .single t ∧
      ∀ d, t.Asks target extra d →
        (∀ u, u ∈ a ↔ u.depth = d ∧ t.contains u = true) ∧ a.size = 4 ^ (d - t.depth)) ∧
    ((¬ ∃ d, t.Asks target extra d ∧ t.depth ≤ d ∧ d ≤ 32) →
      ∃ e : SplitError, t.split (target.map UInt8.toNat) (extra.map UInt8.toNat) = .error e ∧
        t.raw.split target extra = .ok (.error ("Invalid depth request: " ++ e.reason))) := by
  have accepted : (∃ a, t.split (target.map UInt8.toNat) (extra.map UInt8.toNat) = .ok a) ↔
      ∃ d, t.Asks target extra d ∧ t.depth ≤ d ∧ d ≤ 32 := by
    simp only [split_eq_ok_iff]
    constructor
    · rintro ⟨a, levels, room, asked, -⟩
      exact ⟨_, asked, Nat.le_add_right .., room⟩
    · rintro ⟨d, asked, reached, high⟩
      obtain ⟨levels, rfl⟩ := Nat.le.dest reached
      exact ⟨_, levels, high, asked, rfl⟩
  refine ⟨accepted, fun a given => ?_, fun refused => ?_⟩
  · have words := Raw.Path.split_eq t target extra
    rw [given] at words
    obtain ⟨levels, room, asked, rfl⟩ := split_eq_ok_iff.mp given
    refine ⟨words, Area.optimise_descendants room, fun d asked' => ?_⟩
    cases asked'.unique asked
    refine ⟨fun u => ?_, ?_⟩
    · rw [Area.mem_ofList, mem_descendants]
    · rw [Area.size_descendants, Nat.add_sub_cancel_left]
  · cases result : t.split (target.map UInt8.toNat) (extra.map UInt8.toNat) with
    | ok a => exact absurd (accepted.mp ⟨a, result⟩) refused
    | error e =>
        refine ⟨e, rfl, ?_⟩
        rw [Raw.Path.split_eq, result]
        rfl

end Tile

end Geotile
