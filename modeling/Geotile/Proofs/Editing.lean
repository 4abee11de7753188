/-
**Edits of an area.**

An area is built up by edits: tiles are inserted, it is combined with other areas, and now and then
it is brought to its smallest form.  What comes out as a set of tiles depends on every detail of
this, on the order of the edits, on how an operand is cut up and on where the area was optimised.
What it covers does not.

On a tile of the deepest level each edit acts by itself: whether the tile is covered afterwards is
told by whether it was covered before and whether the operand covers it.  Nothing in between is
covered in part, since what overlaps a deepest tile contains it.  A run of edits therefore acts on
each deepest tile by the composition of these effects.  Optimising has none, and two operands that
cover the same have the same, so runs that differ in nothing else agree on every deepest tile, and
that tells the smallest form.

Main definitions:

* `Geotile.Area.Combination` — the ways to combine two areas;
* `Geotile.Area.Edit`, `Geotile.Area.edited` — edits, and an area after a run of them;
* `Geotile.Area.Edit.effect` — what an edit does to a tile of the deepest level;
* `Geotile.Area.SameEdits` — runs that differ in optimising and in how operands are cut up.

Main results:

* `Geotile.Area.Combination.covers_apply`, `Geotile.Area.covers_symmDiff_of_deepest` — what the
  combinations cover on the deepest level;
* `Geotile.Area.Edit.covers_apply`, `Geotile.Area.covers_edited` — one edit, and **any run of
  edits**;
* `Geotile.Area.edits_told_by_cover` — **the smallest form after a run of edits depends only on
  what the area and the operands cover**.
-/

import Geotile.Proofs.Differences
import Geotile.Proofs.SmallestForm

set_option autoImplicit false

namespace Geotile.Area

/-! ### Combinations -/

/-- The ways to combine two areas. -/
inductive Combination where
  | union
  | inter
  | diff
  | symmDiff
  deriving DecidableEq

namespace Combination

/-- The two areas combined. -/
def apply : Combination → Area → Area → Area
  | union => Area.union
  | inter => Area.inter
  | diff => Area.diff
  | symmDiff => Area.symmDiff

/-- Whether a deepest tile is covered, given whether each of the two areas covers it. -/
def keeps : Combination → Bool → Bool → Bool
  | union => or
  | inter => and
  | diff => fun x y => x && !y
  | symmDiff => xor

end Combination

/-- On the deepest level a symmetric difference covers what exactly one of the areas covers. -/
theorem covers_symmDiff_of_deepest {a b : Area} {c : Tile} (hc : c.depth = maxDepth) :
    (a.symmDiff b).covers c = xor (a.covers c) (b.covers c) := by
  rw [symmDiff, sameCover_optimise _ c hc, covers_diff_of_deepest hc, covers_union, covers_inter]
  cases a.covers c with
  | false => simp
  | true => simp

theorem Combination.covers_apply (op : Combination) (a b : Area) {c : Tile}
    (hc : c.depth = maxDepth) :
    (op.apply a b).covers c = op.keeps (a.covers c) (b.covers c) := by
  cases op with
  | union => exact covers_union
  | inter => exact covers_inter
  | diff => exact covers_diff_of_deepest hc
  | symmDiff => exact covers_symmDiff_of_deepest hc

theorem covers_insert {a : Area} {t u : Tile} :
    (a.insert t).covers u = (a.covers u || t.contains u) := by
  rw [Bool.eq_iff_iff, Bool.or_eq_true, covers_iff, covers_iff]
  simp only [mem_insert, or_and_right, exists_or, exists_eq_left]
  exact or_comm

/-! ### Edits -/

/-- What can be done to an area. -/
inductive Edit where
  /-- A tile is added. -/
  | insert (t : Tile)
  /-- It is combined with another area. -/
  | combine (op : Combination) (b : Area)
  /-- It is brought to its smallest form. -/
  | optimise

namespace Edit

/-- The area after an edit. -/
def apply (a : Area) : Edit → Area
  | insert t => a.insert t
  | combine op b => op.apply a b
  | optimise => a.optimise

/-- Whether a deepest tile is covered after an edit, given whether it was before. -/
def effect (c : Tile) (covered : Bool) : Edit → Bool
  | insert t => covered || t.contains c
  | combine op b => op.keeps covered (b.covers c)
  | optimise => covered

/-- An edit acts on each deepest tile by itself. -/
theorem covers_apply (a : Area) (e : Edit) {c : Tile} (hc : c.depth = maxDepth) :
    (apply a e).covers c = effect c (a.covers c) e := by
  cases e with
  | insert t => exact covers_insert
  | combine op b => exact op.covers_apply a b hc
  | optimise => exact sameCover_optimise a c hc

end Edit

/-- The area after a run of edits. -/
def edited (a : Area) (edits : List Edit) : Area := edits.foldl Edit.apply a

/-- So does a run of edits, by the effects of its edits one after the other. -/
theorem covers_edited (a : Area) (edits : List Edit) {c : Tile} (hc : c.depth = maxDepth) :
    (a.edited edits).covers c = edits.foldl (Edit.effect c) (a.covers c) := by
  induction edits generalizing a with
  | nil => rfl
  | cons e edits ih =>
      rw [List.foldl_cons, ← e.covers_apply a hc]
      exact ih (e.apply a)

/-! ### Runs that differ in form only -/

/-- Edits that are the same but for how an operand is cut up. -/
inductive Edit.Alike : Edit → Edit → Prop where
  | insert (t : Tile) : Alike (.insert t) (.insert t)
  | combine (op : Combination) {b b' : Area} (same : b.sameAs b' = true) :
      Alike (.combine op b) (.combine op b')

/-- Runs that become alike, edit by edit, when all optimising is left out. -/
inductive SameEdits : List Edit → List Edit → Prop where
  | nil : SameEdits [] []
  | cons {e e' : Edit} {es es' : List Edit} (first : e.Alike e') (rest : SameEdits es es') :
      SameEdits (e :: es) (e' :: es')
  | optimiseLeft {es es' : List Edit} (rest : SameEdits es es') :
      SameEdits (.optimise :: es) es'
  | optimiseRight {es es' : List Edit} (rest : SameEdits es es') :
      SameEdits es (.optimise :: es')

theorem Edit.Alike.effect_eq {e e' : Edit} (h : e.Alike e') {c : Tile} (hc : c.depth = maxDepth)
    (covered : Bool) : effect c covered e = effect c covered e' := by
  cases h with
  | insert t => rfl
  | combine op same => exact congrArg (op.keeps covered) (sameAs_iff.mp same c hc)

theorem SameEdits.effect_eq {es es' : List Edit} (h : SameEdits es es') {c : Tile}
    (hc : c.depth = maxDepth) (covered : Bool) :
    es.foldl (Edit.effect c) covered = es'.foldl (Edit.effect c) covered := by
  induction h generalizing covered with
  | nil => rfl
  | cons first _ ih =>
      rw [List.foldl_cons, List.foldl_cons, first.effect_eq hc]
      exact ih _
  | optimiseLeft _ ih => exact ih covered
  | optimiseRight _ ih => exact ih covered

/-- Such runs lead from areas that cover the same to areas that cover the same. -/
theorem SameCover.edited {a a' : Area} {es es' : List Edit} (h : SameCover a a')
    (edits : SameEdits es es') : SameCover (a.edited es) (a'.edited es') := by
  intro c hc
  rw [covers_edited a es hc, covers_edited a' es' hc, h c hc]
  exact edits.effect_eq hc _

/-- **The smallest form after a run of edits depends only on what the area and the operands
cover.**  It stays the same when an area that covers the same is put in place of the first one or
of an operand, and when the area is optimised on the way more often or less.  The test for covering
the same is exact: it holds of two areas just when the same tiles of the deepest level are
covered. -/
theorem edits_told_by_cover :
    (∀ a b : Area, a.sameAs b = true ↔
      ∀ c : Tile, c.depth = maxDepth → (a.covers c = true ↔ b.covers c = true)) ∧
    ∀ (a a' : Area) (es es' : List Edit), a.sameAs a' = true → SameEdits es es' →
      (a.edited es).optimise = (a'.edited es').optimise := by
  constructor
  · intro a b
    rw [sameAs_iff]
    exact forall_congr' fun c => imp_congr_right fun _ => Bool.eq_iff_iff
  · intro a a' es es' same edits
    exact ((sameAs_iff.mp same).edited edits).optimise_eq

/-- A tile is cut up in the first area, and one in the operand that is taken out; the second run
drops a nested tile on the way. -/
theorem edits_told_by_cover_cut_up :
    ∃ (a a' cut cut' : Area) (t u : Tile), a.texts = ["00", "01", "02", "03"] ∧
      a'.texts = ["0"] ∧ cut.texts = ["01"] ∧ cut'.texts = ["010", "011", "012", "013"] ∧
      t.text = "1" ∧ u.text = "10" ∧
      (a.edited [.insert t, .insert u, .combine .diff cut]).texts
        = ["00", "02", "03", "1", "10"] ∧
      (a'.edited [.insert t, .insert u, .optimise, .combine .diff cut']).texts
        = ["00", "02", "03", "1"] ∧
      (a.edited [.insert t, .insert u, .combine .diff cut]).optimise
        = (a'.edited [.insert t, .insert u, .optimise, .combine .diff cut']).optimise := by
  have whole : (ofList (Quadrant.all.map fun q =>
      (Tile.ofQuadrants [.northWest] (by decide) (by decide)).child q (by decide))).sameAs
        (single (Tile.ofQuadrants [.northWest] (by decide) (by decide))) = true :=
    sameAs_children _
  have operand : (single (Tile.ofQuadrants [.northWest, .northEast] (by decide) (by decide))).sameAs
      (ofList (Quadrant.all.map fun q =>
        (Tile.ofQuadrants [.northWest, .northEast] (by decide) (by decide)).child q (by decide)))
          = true :=
    sameAs_iff.mpr (sameAs_iff.mp (sameAs_children _)).symm
  have edits := SameEdits.cons (.insert (Tile.ofQuadrants [.northEast] (by decide) (by decide)))
    (.cons (.insert (Tile.ofQuadrants [.northEast, .northWest] (by decide) (by decide)))
      (.optimiseRight (.cons (.combine .diff operand) .nil)))
  have same := edits_told_by_cover.2 _ _ _ _ whole edits
  refine ⟨_, _, _, _, _, _, ?_, ?_, ?_, ?_, ?_, ?_, ?_, ?_, same⟩
  all_goals decide +kernel

end Geotile.Area
