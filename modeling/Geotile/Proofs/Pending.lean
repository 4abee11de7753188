/-
**Cutting with a stack of pending tiles.**

A tile that an area covers in part is cut up without recursion: the tiles still to be looked at are
kept on a stack, and each step takes the topmost one.  It is dropped if the cut covers it, kept if
the cut is clear of it, and else its four children are put on the stack in its place.  The order in
which this goes through the tiles is not that of the recursion, and what has been kept so far says
nothing about the tiles that are still pending.

What does not change from step to step is what is kept in the end: the pieces kept so far and those
that the pending tiles leave.  Each step leaves fewer tiles to be looked at, when all that a pending
tile may still be cut up into are counted with it: it takes one off the stack, and the four that it
may put there in its place were counted already.  So the stack runs empty, with the pieces that the
recursion finds, on the deepest level too, where there are no children to go on with.

Main definitions:

* `Geotile.Area.Cut`, `Geotile.Area.Cut.next`, `Geotile.Area.Cut.run` — a cut in progress, one step
  of it, and all steps until nothing is pending;
* `Geotile.Area.Cut.outcome` — what a cut in progress will have kept in the end;
* `Geotile.Area.cutOut` — the difference of two areas with such a stack.

Main results:

* `Geotile.Area.Cut.outcome_next`, `Geotile.Area.Cut.run_eq_outcome` — a step keeps the outcome, and
  a run reaches it;
* `Geotile.Area.cutOut_eq_diff` — cutting with a stack is the difference;
* `Geotile.Area.diff_covers_clear` — **what a difference covers**.
-/

import Mathlib.Logic.Basic
import Geotile.Proofs.Differences

set_option autoImplicit false

namespace Geotile.Area

/-! ### Steps -/

/-- A cut in progress. -/
structure Cut where
  /-- The tiles still to be looked at, the topmost of the stack first. -/
  pending : List Tile
  /-- The pieces kept so far. -/
  kept : Area

namespace Cut

/-- Takes the topmost tile from the stack: it is dropped, cut up into its children, of which the
last comes to lie on top, or kept. -/
def next (cut : Area) : Cut → Cut
  | ⟨[], kept⟩ => ⟨[], kept⟩
  | ⟨t :: rest, kept⟩ =>
    if cut.covers t then ⟨rest, kept⟩
    else
      match t.children? with
      | some children =>
        if cut.hasMembersBelow t then ⟨children.reverse ++ rest, kept⟩ else ⟨rest, kept.insert t⟩
      | none => ⟨rest, kept.insert t⟩

/-- What a step can do with the topmost tile, and what this tile leaves. -/
theorem next_cases (cut : Area) (t : Tile) (rest : List Tile) (kept : Area) :
    (carve cut t = [] ∧ next cut ⟨t :: rest, kept⟩ = ⟨rest, kept⟩) ∨
    (∃ room : t.depth < maxDepth,
      carve cut t = Quadrant.all.flatMap (fun q => carve cut (t.child q room)) ∧
      next cut ⟨t :: rest, kept⟩
        = ⟨(Quadrant.all.map fun q => t.child q room).reverse ++ rest, kept⟩) ∨
    (carve cut t = [t] ∧ next cut ⟨t :: rest, kept⟩ = ⟨rest, kept.insert t⟩) := by
  by_cases covered : cut.covers t = true
  · refine .inl ⟨carve_of_covers covered, ?_⟩
    rw [next, if_pos covered]
  · by_cases room : t.depth < maxDepth
    · by_cases below : cut.hasMembersBelow t = true
      · refine .inr (.inl ⟨room, ?_, ?_⟩)
        · rw [carve, if_neg covered, dif_pos room, if_pos below]
        · rw [next, if_neg covered, Tile.children?, dif_pos room]
          exact if_pos below
      · refine .inr (.inr ⟨carve_eq_self covered (.inl below), ?_⟩)
        rw [next, if_neg covered, Tile.children?, dif_pos room]
        exact if_neg below
    · refine .inr (.inr ⟨carve_eq_self covered (.inr room), ?_⟩)
      rw [next, if_neg covered, Tile.children?, dif_neg room]

/-! ### The outcome does not change -/

/-- What a cut in progress will have kept in the end: what it has kept, and what the pending tiles
leave. -/
def outcome (cut : Area) (s : Cut) : Area := insertAll (s.pending.flatMap (carve cut)) s.kept

@[simp] theorem mem_outcome {cut : Area} {s : Cut} {u : Tile} :
    u ∈ s.outcome cut ↔ (∃ t ∈ s.pending, u ∈ carve cut t) ∨ u ∈ s.kept := by
  rw [outcome, mem_insertAll, List.mem_flatMap]

/-- A step keeps the outcome. -/
theorem outcome_next (cut : Area) (s : Cut) : (s.next cut).outcome cut = s.outcome cut := by
  obtain ⟨pending, kept⟩ := s
  cases pending with
  | nil => rfl
  | cons t rest =>
      refine ext_mem fun u => ?_
      simp only [mem_outcome, List.mem_cons, exists_eq_or_imp]
      obtain ⟨pieces, after⟩ | ⟨room, pieces, after⟩ | ⟨pieces, after⟩ :=
        next_cases cut t rest kept
      · simp [after, pieces]
      · rw [after, pieces]
        simp only [List.mem_append, List.mem_reverse, List.mem_map, List.mem_flatMap,
          or_and_right, exists_or, exists_exists_and_eq_and]
      · rw [after, pieces]
        simp only [mem_insert, List.mem_singleton]
        exact or_left_comm.trans or_assoc.symm

/-! ### The stack runs empty -/

/-- The number of tiles inside a tile with a number of levels below it, itself included. -/
def treeSize : (levels : Nat) → Nat
  | 0 => 1
  | n + 1 => 4 * treeSize n + 1

/-- The number of tiles that a stack can still lead to. -/
def load : List Tile → Nat
  | [] => 0
  | t :: ts => treeSize (maxDepth - t.depth) + load ts

theorem load_children {t : Tile} (room : t.depth < maxDepth) (rest : List Tile) :
    load ((Quadrant.all.map fun q => t.child q room).reverse ++ rest) < load (t :: rest) := by
  have levels : maxDepth - t.depth = maxDepth - (t.depth + 1) + 1 := by omega
  show load (t.child .southEast room :: t.child .southWest room :: t.child .northEast room ::
    t.child .northWest room :: rest) < load (t :: rest)
  simp only [load, Tile.depth_child]
  rw [levels, treeSize]
  omega

theorem load_lt_cons (t : Tile) (rest : List Tile) : load rest < load (t :: rest) := by
  refine Nat.lt_add_of_pos_left ?_
  cases maxDepth - t.depth with
  | zero => decide
  | succ n => exact Nat.succ_pos _

theorem load_next {cut : Area} {s : Cut} (more : s.pending ≠ []) :
    load (s.next cut).pending < load s.pending := by
  obtain ⟨pending, kept⟩ := s
  cases pending with
  | nil => exact absurd rfl more
  | cons t rest =>
      obtain ⟨-, after⟩ | ⟨room, -, after⟩ | ⟨-, after⟩ := next_cases cut t rest kept
      · rw [after]
        exact load_lt_cons t rest
      · rw [after]
        exact load_children room rest
      · rw [after]
        exact load_lt_cons t rest

/-- The pieces kept when nothing is pending any more. -/
def run (cut : Area) (s : Cut) : Area :=
  if s.pending = [] then s.kept else run cut (s.next cut)
termination_by load s.pending
decreasing_by exact load_next ‹_›

/-- A run reaches the outcome. -/
theorem run_eq_outcome (cut : Area) (s : Cut) : s.run cut = s.outcome cut := by
  induction s using run.induct cut with
  | case1 s done =>
      rw [run, if_pos done, outcome, done]
      rfl
  | case2 s more ih => rw [run, if_neg more, ih, outcome_next]

end Cut

/-! ### The difference -/

/-- What the first area covers and the second does not: members that are covered are dropped, those
covered in part are cut up with a stack, and the others are kept. -/
def cutOut (a b : Area) : Area :=
  a.tiles.foldl (fun kept t =>
    if b.covers t then kept
    else if b.hasMembersBelow t then Cut.run b ⟨[t], kept⟩
    else kept.insert t) empty

/-- Cutting with a stack is the difference. -/
theorem cutOut_eq_diff (a b : Area) : a.cutOut b = a.diff b := by
  rw [cutOut, diff, ofList, ← foldl_insertAll]
  congr 1
  funext kept t
  by_cases covered : b.covers t = true
  · rw [if_pos covered, carve_of_covers covered]
    rfl
  · rw [if_neg covered]
    by_cases below : b.hasMembersBelow t = true
    · rw [if_pos below, Cut.run_eq_outcome, Cut.outcome, List.flatMap_singleton]
    · rw [if_neg below, carve_eq_self covered (.inl below)]
      rfl

/-- **What a difference covers.**  A tile of any depth is covered just when the first area covers it
and no member of the second contains it or lies inside it.  On the deepest level, where no tile can
be cut any further, these are the tiles that the first area covers and the second does not.  Cutting
with a stack of pending tiles ends in the same area. -/
theorem diff_covers_clear (a b : Area) :
    (∀ t : Tile, (a.diff b).covers t = true ↔
      a.covers t = true ∧ ∀ u ∈ b, u.contains t = false ∧ t.contains u = false) ∧
    (∀ c : Tile, c.depth = maxDepth →
      ((a.diff b).covers c = true ↔ a.covers c = true ∧ b.covers c = false)) ∧
    a.cutOut b = a.diff b := by
  refine ⟨fun t => ?_, fun c hc => ?_, cutOut_eq_diff a b⟩
  · rw [covers_diff_iff]
    refine and_congr_right fun _ => forall_congr' fun u => imp_congr_right fun _ => ?_
    rw [Tile.meets, Bool.or_eq_false_iff]
    exact and_comm
  · rw [covers_diff_iff, avoids_iff_of_deepest hc]

/-- A cut two levels down leaves pieces of two sizes. -/
example : ((single (Tile.ofQuadrants [.northEast] (by decide) (by decide))).diff
    (single (Tile.ofQuadrants [.northEast, .southWest, .southEast] (by decide) (by decide)))).texts
      = ["10", "11", "120", "121", "122", "13"] := by
  decide +kernel

end Geotile.Area
