/-
**Sets of paths are the members of areas.**

The members of an area, each as its word and its byte, are a set of paths in order, since comparing
the words is comparing the tiles.  So a search by that order finds what is there, and every
operation on the set ends without a fault in the members of the area that the operation on areas
ends in.  Sets are filled in another order than areas are; that makes no difference, for both are in
order and two areas with the same members are equal.

Main results:

* `Geotile.Raw.Members.insert_raw`, `Geotile.Raw.Members.remove_raw`,
  `Geotile.Raw.Members.has_raw` — members put in, taken out and looked for;
* `Geotile.Raw.Members.foldlM_insertAll` — sets filled group by group;
* `Geotile.Raw.Members.covers_raw`, `Geotile.Raw.Members.within_raw` — what they cover;
* `Geotile.Raw.Members.union_raw`, `Geotile.Raw.Members.inter_raw`,
  `Geotile.Raw.Members.diff_raw` — combining them, and `Geotile.Raw.Members.carve_raw`, that a tile
  is cut up without running out of levels;
* `Geotile.Raw.Members.ring_raw`, `Geotile.Raw.Path.split_eq` — the tiles around, and the parts of
  one.
-/

import Geotile.Area.Ring
import Geotile.Proofs.RawPaths
import Geotile.Raw.Members

set_option autoImplicit false

namespace Geotile

open Checked

/-! ### Tiles -/

namespace Tile

theorem ancestor_depth (t : Tile) : t.ancestor t.depth t.depth_pos (Nat.le_refl _) = t := by
  refine eq_iff.mpr ⟨?_, rfl⟩
  show Packed.drop (t.depth - t.depth) t.code = t.code
  rw [Nat.sub_self, Packed.drop_zero]

/-- A positive selector that does not exceed the depth is the depth to cut to. -/
theorem shorten_eq_ancestor {t : Tile} {d : Nat} (pos : 0 < d) (le : d ≤ t.depth) :
    t.shorten d = t.ancestor d pos le := by
  have depth : shortenedDepth t.depth d = d := by
    rw [shortenedDepth, if_neg (by omega)]
    omega
  refine eq_iff.mpr ⟨?_, depth⟩
  show Packed.drop (t.depth - shortenedDepth t.depth d) t.code = Packed.drop (t.depth - d) t.code
  rw [depth]

end Tile

namespace Raw.Members

/-! ### Lists in order -/

theorem insert_eq (t : Tile) (ts : List Tile) :
    insert t.raw (ts.map Tile.raw) = .ok ((Area.insertSorted t ts).map Tile.raw) := by
  induction ts with
  | nil => rfl
  | cons u us ih =>
      rw [List.map_cons, insert, Path.compare_eq, ok_bind, Area.insertSorted]
      rcases t.lt_or_eq_or_gt u with before | rfl | after
      · rw [Tile.compare_of_lt before, if_pos before]
        rfl
      · rw [Tile.compare_self, if_neg (Tile.lt_irrefl t), if_neg (Tile.lt_irrefl t)]
        rfl
      · rw [Tile.compare_of_gt after, if_neg (Tile.lt_asymm after), if_pos after]
        dsimp only
        rw [ih]
        rfl

theorem remove_eq (t : Tile) {ts : List Tile} (sorted : ts.Pairwise (· < ·)) :
    remove t.raw (ts.map Tile.raw) = .ok ((ts.filter fun u => u ≠ t).map Tile.raw) := by
  induction ts with
  | nil => rfl
  | cons u us ih =>
      rw [List.pairwise_cons] at sorted
      rw [List.map_cons, remove, Path.compare_eq, ok_bind]
      rcases t.lt_or_eq_or_gt u with before | rfl | after
      · -- the tile would have come before all members that are left
        have kept : (u :: us).filter (fun v => v ≠ t) = u :: us := by
          refine List.filter_eq_self.mpr fun v hv => decide_eq_true ?_
          rintro rfl
          rcases List.mem_cons.mp hv with rfl | hv
          · exact Tile.lt_irrefl v before
          · exact Tile.lt_asymm before (sorted.1 v hv)
        rw [Tile.compare_of_lt before, kept]
        rfl
      · have kept : us.filter (fun v => v ≠ t) = us := by
          refine List.filter_eq_self.mpr fun v hv => decide_eq_true ?_
          rintro rfl
          exact Tile.lt_irrefl v (sorted.1 v hv)
        rw [Tile.compare_self, List.filter_cons_of_neg (by simp), kept]
        rfl
      · have other : u ≠ t := by
          rintro rfl
          exact Tile.lt_irrefl u after
        rw [Tile.compare_of_gt after, List.filter_cons_of_pos (by simpa using other)]
        dsimp only
        rw [ih sorted.2]
        rfl

theorem has_eq (t : Tile) {ts : List Tile} (sorted : ts.Pairwise (· < ·)) :
    has t.raw (ts.map Tile.raw) = .ok (decide (t ∈ ts)) := by
  induction ts with
  | nil => rfl
  | cons u us ih =>
      rw [List.pairwise_cons] at sorted
      rw [List.map_cons, has, Path.compare_eq, ok_bind]
      rcases t.lt_or_eq_or_gt u with before | rfl | after
      · have missing : t ∉ u :: us := by
          intro mem
          rcases List.mem_cons.mp mem with rfl | mem
          · exact Tile.lt_irrefl t before
          · exact Tile.lt_asymm before (sorted.1 t mem)
        rw [Tile.compare_of_lt before, decide_eq_false missing]
        rfl
      · rw [Tile.compare_self, decide_eq_true (List.mem_cons_self ..)]
        rfl
      · have other : t ≠ u := by
          rintro rfl
          exact Tile.lt_irrefl t after
        rw [Tile.compare_of_gt after]
        dsimp only
        rw [ih sorted.2]
        simp [other]

/-! ### Areas -/

theorem insert_raw (t : Tile) (a : Area) : insert t.raw a.raw = .ok (a.insert t).raw :=
  insert_eq t a.tiles

theorem remove_raw (t : Tile) (a : Area) : remove t.raw a.raw = .ok (a.erase t).raw :=
  remove_eq t a.sorted

theorem has_raw (t : Tile) (a : Area) : has t.raw a.raw = .ok (decide (t ∈ a)) :=
  has_eq t a.sorted

/-- Paths put into a set one group after the other. -/
theorem foldlM_insertAll {α β : Type} {g : β → α} {s : Members → α → Checked Members}
    {f : β → List Tile} {bs : List β}
    (h : ∀ a : Area, ∀ b ∈ bs, s a.raw (g b) = .ok (Area.insertAll (f b) a).raw) (a : Area) :
    (bs.map g).foldlM s a.raw = .ok (Area.insertAll (bs.flatMap f) a).raw := by
  rw [foldlM_map (g := Area.raw) (k := fun a b => Area.insertAll (f b) a) h, Area.foldl_insertAll]

theorem insertEach_raw (ts : List Tile) (a : Area) :
    insertEach (ts.map Tile.raw) a.raw = .ok (Area.insertAll ts a).raw := by
  rw [insertEach, foldlM_insertAll (f := fun t => [t]) fun a t _ => insert_raw t a]
  exact congrArg (fun ts => Except.ok (Area.insertAll ts a).raw) (List.flatMap_singleton' ts)

theorem ofList_raw (ts : List Tile) : ofList (ts.map Tile.raw) = .ok (Area.ofList ts).raw :=
  insertEach_raw ts Area.empty

/-! ### What they cover -/

theorem covers_raw (a : Area) (t : Tile) : covers a.raw t.raw = .ok (a.covers t) := by
  have each : ∀ d ∈ List.range t.depth,
      (do has (← t.raw.cut (.ofNat (d + 1))) a.raw : Checked Bool)
        = .ok (a.tiles.any fun u => u.depth = d + 1 && u.contains t) := by
    intro d hd
    have le : d + 1 ≤ t.depth := List.mem_range.mp hd
    rw [Path.cut_eq t (Nat.succ_pos d) le, ok_bind, has_raw]
    refine congrArg Except.ok (Bool.eq_iff_iff.mpr ?_)
    simp only [decide_eq_true_eq, List.any_eq_true, Bool.and_eq_true]
    constructor
    · intro mem
      exact ⟨_, mem, rfl, Tile.ancestor_contains ..⟩
    · rintro ⟨u, mem, depth, inside⟩
      obtain ⟨_, same⟩ := Tile.contains_iff_ancestor.mp inside
      simp only [depth] at same
      rwa [same]
  rw [covers, Tile.toNat_depth_raw, anyM_eq each]
  refine congrArg Except.ok (Bool.eq_iff_iff.mpr ?_)
  rw [Area.covers_iff]
  simp only [List.any_eq_true, List.mem_range, Bool.and_eq_true, decide_eq_true_eq]
  constructor
  · rintro ⟨d, -, u, mem, -, inside⟩
    exact ⟨u, mem, inside⟩
  · rintro ⟨u, mem, inside⟩
    have pos := u.depth_pos
    have le := Tile.depth_le_of_contains inside
    exact ⟨u.depth - 1, by omega, u, mem, by omega, inside⟩

theorem within_raw (a : Area) (t : Tile) :
    within a.raw t.raw = .ok ((a.membersWithin t).map Tile.raw) := by
  have before : ∀ u ∈ a.tiles, (do return (← u.raw.compare t.raw) == .lt : Checked Bool)
      = .ok (decide (u < t)) := by
    rintro u -
    rw [Path.compare_eq, ok_bind, Tile.compare]
    by_cases lt : u < t
    · rw [if_pos lt, decide_eq_true lt]
      rfl
    · rw [if_neg lt, decide_eq_false lt]
      split <;> rfl
  rw [within, Area.raw, dropWhile_map before, ok_bind,
    takeWhile_map fun u _ => Path.contains_eq t u]
  rfl

theorem hasBelow_raw (a : Area) (t : Tile) :
    hasBelow a.raw t.raw = .ok (a.hasMembersBelow t) := by
  rw [hasBelow, within_raw, ok_bind, pure_eq, List.any_map, Area.hasMembersBelow]
  simp only [Function.comp_def, ne_eq, Tile.raw_inj]

/-! ### Combining them -/

theorem union_raw (a b : Area) : union a.raw b.raw = .ok (a.union b).raw := by
  rw [union, Area.raw, insertEach_raw]
  refine congrArg (fun a : Area => Except.ok a.raw) (Area.ext_mem fun t => ?_)
  rw [Area.mem_insertAll, Area.mem_union]
  exact or_comm

theorem inter_raw (a b : Area) : inter a.raw b.raw = .ok (a.inter b).raw := by
  refine foldlM_insertAll (fun out t _ => ?_) Area.empty
  rw [covers_raw, ok_bind]
  split
  · exact insert_raw t out
  · rw [within_raw, ok_bind, insertEach_raw]

/-- Cutting follows the levels below a tile, of which there are as many as are left to the deepest
one. -/
theorem carve_raw (cut : Area) {n : Nat} {t : Tile} (levels : maxDepth - t.depth ≤ n)
    (out : Area) :
    carve cut.raw n t.raw out.raw = .ok (Area.insertAll (cut.carve t) out).raw := by
  induction n generalizing t out with
  | zero =>
      have bottom : ¬ t.depth < maxDepth := by omega
      rw [carve, covers_raw, ok_bind, Area.carve]
      split
      · rfl
      · rw [Path.children?_eq, Tile.children?, dif_neg bottom]
        exact insert_raw t out
  | succ n ih =>
      rw [carve, covers_raw, ok_bind, Area.carve]
      split
      · rfl
      · rw [Path.children?_eq, Tile.children?, ok_bind]
        by_cases room : t.depth < maxDepth
        · rw [dif_pos room, dif_pos room]
          dsimp only [Option.map_some]
          rw [hasBelow_raw, ok_bind]
          split
          · have each : ∀ out : Area, ∀ c ∈ (Quadrant.all.map fun q => t.child q room).reverse,
                carve cut.raw n c.raw out.raw = .ok (Area.insertAll (cut.carve c) out).raw := by
              intro out c hc
              obtain ⟨q, -, rfl⟩ := List.mem_map.mp (List.mem_reverse.mp hc)
              refine ih ?_ out
              rw [Tile.depth_child]
              omega
            rw [← List.map_reverse, foldlM_insertAll each out]
            refine congrArg (fun a : Area => Except.ok a.raw) (Area.ext_mem fun u => ?_)
            simp only [Area.mem_insertAll, List.mem_flatMap, List.mem_reverse, List.mem_map,
              exists_exists_and_eq_and]
          · exact insert_raw t out
        · rw [dif_neg room, dif_neg room]
          exact insert_raw t out

theorem diff_raw (a b : Area) : diff a.raw b.raw = .ok (a.diff b).raw := by
  refine foldlM_insertAll (fun out t _ => ?_) Area.empty
  rw [covers_raw, ok_bind]
  by_cases covered : b.covers t = true
  · rw [if_pos covered, Area.carve_of_covers covered]
    rfl
  · rw [if_neg covered, hasBelow_raw, ok_bind]
    split
    · exact carve_raw b (Nat.sub_le ..) out
    · next clear =>
      rw [Area.carve_eq_self covered (.inl clear)]
      exact insert_raw t out

/-! ### The tiles around -/

theorem clamped_eq (depth : UInt8) :
    (if depth < 1 then 1 else if UInt8.ofNat maxDepth < depth then .ofNat maxDepth else depth)
      = UInt8.ofNat (clampDepth depth.toNat) := by
  have low : depth < 1 ↔ depth.toNat < 1 := UInt8.lt_iff_toNat_lt
  have high : UInt8.ofNat maxDepth < depth ↔ maxDepth < depth.toNat := UInt8.lt_iff_toNat_lt
  have small := depth.toNat_lt
  refine UInt8.toNat_inj.mp ?_
  rw [UInt8.toNat_ofNat_of_lt' (lt_byte_of_le_maxDepth (clampDepth_le _)), clampDepth]
  by_cases top : depth.toNat < 1
  · rw [if_pos (low.mpr top), UInt8.toNat_one]
    omega
  · rw [if_neg (mt low.mp top)]
    by_cases deep : maxDepth < depth.toNat
    · rw [if_pos (high.mpr deep), UInt8.toNat_ofNat_of_lt' (by decide)]
      unfold maxDepth at deep ⊢
      omega
    · rw [if_neg (mt high.mp deep)]
      omega

theorem ringPiece_raw (a : Area) {d : Nat} (pos : 0 < d) (le : d ≤ maxDepth) (h : Heading)
    (n : Tile) : ringPiece a.raw (.ofNat d) h n.raw
      = .ok ((a.ringPiece d pos le h n).map Tile.raw) := by
  have small := lt_byte_of_le_maxDepth le
  have order : Ord.compare (UInt8.ofNat d) n.raw.depth = Ord.compare d n.depth := by
    show compareOfLessAndEq _ _ = compareOfLessAndEq _ _
    simp only [compareOfLessAndEq, Tile.depth_raw, UInt8.ofNat_lt_iff_lt small n.depth_lt_byte,
      byte_inj small n.depth_lt_byte]
  have selector : (Int64.ofNat d).toInt = d := Int64.toInt_ofNat_of_lt (by omega)
  rw [ringPiece, covers_raw, ok_bind, Area.ringPiece]
  split
  · rfl
  · rw [order]
    rcases Nat.lt_trichotomy d n.depth with less | same | more
    · rw [Nat.compare_eq_lt.mpr less, dif_pos (Nat.le_of_lt less)]
      dsimp only
      rw [UInt8.toNat_ofNat_of_lt' small, Path.shorten_eq, selector,
        Tile.shorten_eq_ancestor pos (Nat.le_of_lt less)]
      rfl
    · subst same
      rw [Nat.compare_eq_eq.mpr rfl, dif_pos (Nat.le_refl _), Tile.ancestor_depth]
      rfl
    · rw [Nat.compare_eq_gt.mpr more, dif_neg (by omega)]
      dsimp only
      rw [Path.edge_eq h (by omega) (Nat.add_sub_cancel' (Nat.le_of_lt more)), ok_bind,
        Checked.filter_map (p := fun t => !a.covers t)]
      rintro t -
      rw [covers_raw]
      rfl

theorem ring_raw (a : Area) (depth : UInt8) : ring a.raw depth = .ok (a.ring depth.toNat).raw := by
  rw [ring]
  dsimp only
  rw [clamped_eq]
  refine foldlM_insertAll (fun out t _ => ?_) Area.empty
  rw [Path.presentNeighbours_eq, ok_bind]
  refine foldlM_insertAll (fun out next _ => ?_) out
  rw [ringPiece_raw a (clampDepth_pos _) (clampDepth_le _), ok_bind, insertEach_raw]

end Raw.Members

/-! ### The parts of a tile -/

theorem Raw.Path.splitTo_eq (t : Tile) (target : Nat) :
    t.raw.splitTo target
      = .ok (((t.splitTo target).map Area.raw).mapError SplitError.message) := by
  rw [Raw.Path.splitTo, Tile.splitTo, Tile.toNat_depth_raw]
  by_cases above : target < t.depth
  · rw [if_pos above, if_pos above, text_eq]
    rfl
  · rw [if_neg above, if_neg above]
    by_cases deep : maxDepth < target
    · rw [if_pos deep, dif_pos deep]
      rfl
    · rw [if_neg deep, dif_neg deep, descendants_eq (by omega)
        (Nat.add_sub_cancel' (Nat.le_of_not_lt above)), ok_bind, Members.ofList_raw]
      rfl

theorem Raw.Path.split_eq (t : Tile) (target extra : Option UInt8) :
    t.raw.split target extra
      = .ok (((t.split (target.map UInt8.toNat) (extra.map UInt8.toNat)).map Area.raw).mapError
        SplitError.message) := by
  cases target with
  | some target =>
      cases extra with
      | some extra => rfl
      | none => exact splitTo_eq t target.toNat
  | none =>
      cases extra with
      | none => rfl
      | some extra =>
          have zero : extra = 0 ↔ extra.toNat = 0 := UInt8.toNat_inj.symm
          simp only [split, Tile.split, Tile.splitBy, Option.map_some, Option.map_none, zero,
            Tile.toNat_depth_raw]
          split
          · rfl
          · exact splitTo_eq t _

end Geotile
