/-
**Which threshold a speed chooses.**

Thresholds are put in order when they are set, by the order of all doubles, and a speed takes the
last one before the first that it does not reach, by the comparison of doubles as numbers.  The two
orders differ at the zeros and at not-a-number, and a threshold may be negative or infinite or given
more than once.  Still nothing is missed by stopping early: what has its place before a threshold
that is reached is reached as well.

So the threshold can be told from the thresholds as they are given: of those that the speed reaches
it is the last one in the order of speeds, and of those of one speed the last one given, because
sorting keeps those in their order.

Main definitions:

* `Geotile.Settings.Chooses` — the threshold that a speed chooses among thresholds in any order.

Main results:

* `Geotile.Settings.takeWhile_reaches` — stopping early misses nothing;
* `Geotile.Settings.chooses_last_reached` — the last one reached of the sorted thresholds is chosen;
* `Geotile.Settings.Chooses.unique`, `Geotile.Settings.Chooses.perm` — only one is chosen, and of
  thresholds of different speeds the same one in any order;
* `Geotile.Settings.depthForSpeed_withThresholds` — **the depth at a speed is that of the threshold
  chosen**.
-/

import Geotile.Proofs.DoubleOrder
import Geotile.Settings.Basic

set_option autoImplicit false

namespace Geotile.Settings

open Binary64

/-! ### Thresholds in order -/

theorem inOrder_iff {t u : Threshold} :
    inOrder t u = true ↔ rank t.minSpeed ≤ rank u.minSpeed := by
  rw [inOrder, decide_eq_true_eq]

theorem inOrder_trans (t u w : Threshold) (h : inOrder t u = true) (h' : inOrder u w = true) :
    inOrder t w = true := by
  rw [inOrder_iff] at h h' ⊢
  omega

theorem inOrder_total (t u : Threshold) : (inOrder t u || inOrder u t) = true := by
  rw [Bool.or_eq_true, inOrder_iff, inOrder_iff]
  omega

theorem inOrder_eq_false_iff {t u : Threshold} :
    inOrder t u = false ↔ Before u.minSpeed t.minSpeed := by
  rw [← rank_lt_iff, inOrder, decide_eq_false_iff_not, Int.not_le]

/-- Sorted thresholds stand in order. -/
theorem pairwise_sorted (ts : List Threshold) :
    (ts.mergeSort inOrder).Pairwise fun t u => inOrder t u = true :=
  List.pairwise_mergeSort inOrder_trans inOrder_total ts

/-! ### What a speed reaches -/

/-- A speed that is negative or not a number reaches what standing still does. -/
theorem le_countedSpeed_iff (x speed : Float) : x ≤ countedSpeed speed ↔
    x ≤ if speed.isNaN ∨ speed < 0.0 then 0.0 else speed := by
  have zero : (0.0 : Float).isNaN = false := by decide
  rw [countedSpeed]
  cases number : speed.isNaN with
  | true => rfl
  | false =>
      change x ≤ (if speed ≤ 0.0 then 0.0 else speed) ↔ x ≤ _
      simp only [Bool.false_eq_true, false_or]
      by_cases low : speed ≤ 0.0
      · rw [if_pos low]
        by_cases less : speed < 0.0
        · rw [if_pos less]
        · -- what is left is one of the zeros
          rw [if_neg less]
          refine le_iff_of_level_eq zero number ?_
          rw [le_iff_level number zero] at low
          rw [lt_iff_level number zero] at less
          omega
      · have less : ¬speed < 0.0 := by
          rw [le_iff_level number zero] at low
          rw [lt_iff_level number zero]
          omega
        rw [if_neg low, if_neg less]

/-- A test that nothing passes after what fails it cuts a list like it filters it. -/
theorem takeWhile_eq_filter {α : Type} {p : α → Bool} {l : List α}
    (h : l.Pairwise fun x y => p y = true → p x = true) : l.takeWhile p = l.filter p := by
  induction l with
  | nil => rfl
  | cons a l ih =>
      obtain ⟨head, tail⟩ := List.pairwise_cons.mp h
      cases pa : p a with
      | true =>
          rw [List.takeWhile_cons_of_pos pa, List.filter_cons_of_pos pa, ih tail]
      | false =>
          have none : ∀ b ∈ a :: l, ¬p b = true := by
            intro b mem passes
            rcases List.mem_cons.mp mem with rfl | mem
            · cases pa.symm.trans passes
            · cases pa.symm.trans (head b mem passes)
          rw [List.takeWhile_cons_of_neg (none a List.mem_cons_self),
            List.filter_eq_nil_iff.mpr none]

/-- What a speed reaches in thresholds in order, it reaches before what it does not. -/
theorem takeWhile_reaches {ts : List Threshold} (h : ts.Pairwise fun t u => inOrder t u = true)
    (speed : Float) : ts.takeWhile (reaches speed) = ts.filter (reaches speed) := by
  refine takeWhile_eq_filter (h.imp ?_)
  intro t u order reached
  rw [reaches, decide_eq_true_eq] at reached ⊢
  exact le_of_rank_le (inOrder_iff.mp order) reached

/-! ### The threshold chosen -/

/-- What a speed chooses among thresholds in any order: of those that it reaches the last one in
the order of speeds, of those of one speed the last one given; nothing where it reaches none. -/
inductive Chooses (v : Float) (ts : List Threshold) : Option Threshold → Prop where
  | none (above : ∀ t ∈ ts, ¬t.minSpeed ≤ v) : Chooses v ts none
  | some (before : List Threshold) (t : Threshold) (after : List Threshold)
      (given : ts = before ++ t :: after) (reached : t.minSpeed ≤ v)
      (first : ∀ u ∈ before, u.minSpeed ≤ v → ¬Before t.minSpeed u.minSpeed)
      (last : ∀ u ∈ after, u.minSpeed ≤ v → Before u.minSpeed t.minSpeed) : Chooses v ts (some t)

theorem Chooses.congr {v v' : Float} {ts : List Threshold} {chosen : Option Threshold}
    (h : Chooses v ts chosen) (same : ∀ x, x ≤ v ↔ x ≤ v') : Chooses v' ts chosen := by
  cases h with
  | none above => exact .none fun t mem reached => above t mem ((same _).mpr reached)
  | some before t after given reached first last =>
      exact .some before t after given ((same _).mp reached)
        (fun u mem reachedU => first u mem ((same _).mpr reachedU))
        (fun u mem reachedU => last u mem ((same _).mpr reachedU))

/-- A threshold that is not reached, or comes no later than what is chosen, does not change the
choice when it is given first. -/
theorem Chooses.cons {v : Float} {t : Threshold} {ts : List Threshold} {chosen : Option Threshold}
    (h : Chooses v ts chosen) (earlier : t.minSpeed ≤ v →
      ∃ u, chosen = Option.some u ∧ ¬Before u.minSpeed t.minSpeed) :
    Chooses v (t :: ts) chosen := by
  cases h with
  | none above =>
      refine .none ?_
      intro u mem reached
      rcases List.mem_cons.mp mem with rfl | mem
      · obtain ⟨w, found, -⟩ := earlier reached
        cases found
      · exact above u mem reached
  | some before u after given reached first last =>
      refine .some (t :: before) u after (congrArg (t :: ·) given) reached ?_ last
      intro w mem reachedW
      rcases List.mem_cons.mp mem with rfl | mem
      · obtain ⟨_, found, order⟩ := earlier reachedW
        cases found
        exact order
      · exact first w mem reachedW

/-- The last one reached of the sorted thresholds is chosen. -/
theorem chooses_last_reached (v : Float) (ts : List Threshold) :
    Chooses v ts ((ts.mergeSort inOrder).filter fun t => t.minSpeed ≤ v).getLast? := by
  induction ts with
  | nil =>
      rw [List.mergeSort_nil]
      exact .none (by intro t mem; cases mem)
  | cons t ts ih =>
      -- sorting puts the first threshold behind those of lower speed and before all others
      obtain ⟨slower, rest, sorted, without, before⟩ :=
        List.mergeSort_cons inOrder_trans inOrder_total t ts
      have ordered := pairwise_sorted (t :: ts)
      rw [sorted, List.pairwise_append] at ordered
      have behind : ∀ u ∈ rest, inOrder t u = true := (List.pairwise_cons.mp ordered.2.1).1
      rw [without, List.filter_append, List.getLast?_append] at ih
      rw [sorted, List.filter_append, List.getLast?_append]
      by_cases reached : t.minSpeed ≤ v
      · rw [List.filter_cons_of_pos (by exact decide_eq_true reached), List.getLast?_cons,
          Option.some_or]
        cases found : (rest.filter fun t => t.minSpeed ≤ v).getLast? with
        | none =>
            have passed := List.getLast?_eq_none_iff.mp found
            refine .some [] t ts rfl reached (by intro u mem; cases mem) ?_
            intro u mem reachedU
            have place : u ∈ slower ++ rest := without ▸ List.mem_mergeSort.mpr mem
            rcases List.mem_append.mp place with mem | mem
            · rw [← inOrder_eq_false_iff, ← Bool.not_eq_true']
              exact before u mem
            · exact absurd (decide_eq_true reachedU) (List.filter_eq_nil_iff.mp passed u mem)
        | some u =>
            rw [found, Option.some_or] at ih
            have mem := (List.mem_filter.mp (List.mem_of_getLast? found)).1
            refine ih.cons fun _ => ⟨u, rfl, ?_⟩
            rw [← inOrder_eq_false_iff, Bool.not_eq_false]
            exact behind u mem
      · rw [List.filter_cons_of_neg (by simpa using reached)]
        exact ih.cons fun h => absurd h reached

/-- Of two entries of a list one is the other, or one stands before the other. -/
theorem eq_or_apart {α : Type} {before before' after after' : List α} {a a' : α}
    (h : before ++ a :: after = before' ++ a' :: after') :
    a = a' ∨ (a ∈ before' ∧ a' ∈ after) ∨ (a' ∈ before ∧ a ∈ after') := by
  rcases List.append_eq_append_iff.mp h with ⟨gap, front, back⟩ | ⟨gap, front, back⟩
  · cases gap with
    | nil => exact .inl (List.cons.inj back).1
    | cons b gap =>
        obtain ⟨rfl, rfl⟩ := List.cons.inj back
        exact .inr (.inl ⟨front ▸ List.mem_append_cons_self, List.mem_append_cons_self⟩)
  · cases gap with
    | nil => exact .inl (List.cons.inj back).1.symm
    | cons b gap =>
        obtain ⟨rfl, rfl⟩ := List.cons.inj back
        exact .inr (.inr ⟨front ▸ List.mem_append_cons_self, List.mem_append_cons_self⟩)

/-- Only one threshold is chosen. -/
theorem Chooses.unique {v : Float} {ts : List Threshold} {chosen chosen' : Option Threshold}
    (h : Chooses v ts chosen) (h' : Chooses v ts chosen') : chosen = chosen' := by
  cases h with
  | none above =>
      cases h' with
      | none _ => rfl
      | some before t after given reached =>
          exact absurd reached (above t (given ▸ List.mem_append_cons_self))
  | some before t after given reached first last =>
      cases h' with
      | none above => exact absurd reached (above t (given ▸ List.mem_append_cons_self))
      | some before' t' after' given' reached' first' last' =>
          rcases eq_or_apart (given.symm.trans given') with rfl | ⟨front, back⟩ | ⟨back, front⟩
          · rfl
          · exact absurd (last t' back reached') (first' t front reached)
          · exact absurd (last' t front reached) (first t' back reached')

/-- The choice among thresholds of different speeds does not depend on how they are given.  Those
that are not a number are never chosen, so there may be several of them. -/
theorem Chooses.perm {v : Float} {ts ts' : List Threshold} {chosen : Option Threshold}
    (h : Chooses v ts chosen) (perm : ts.Perm ts')
    (different : ts.Pairwise fun t u => t.minSpeed = u.minSpeed → t.minSpeed.isNaN = true) :
    Chooses v ts' chosen := by
  cases h with
  | none above => exact .none fun t mem => above t (perm.mem_iff.mpr mem)
  | some before t after given reached first last =>
      have bound : ∀ u ∈ ts, u.minSpeed ≤ v → rank u.minSpeed ≤ rank t.minSpeed := by
        intro u mem reachedU
        rw [given, List.mem_append, List.mem_cons] at mem
        rcases mem with mem | rfl | mem
        · have place := first u mem reachedU
          rwa [← rank_lt_iff, Int.not_lt] at place
        · exact Int.le_refl _
        · exact Int.le_of_lt (rank_lt_iff.mpr (last u mem reachedU))
      obtain ⟨before', after', given'⟩ :=
        List.append_of_mem (perm.mem_iff.mp (given ▸ List.mem_append_cons_self : t ∈ ts))
      have different' : ts'.Pairwise fun t u => t.minSpeed = u.minSpeed → t.minSpeed.isNaN = true :=
        different.perm perm fun h same => same ▸ h same.symm
      rw [given', List.pairwise_append, List.pairwise_cons] at different'
      refine .some before' t after' given' reached ?_ ?_
      · intro u mem reachedU
        rw [← rank_lt_iff, Int.not_lt]
        exact bound u (perm.mem_iff.mpr (given' ▸ List.mem_append_left _ mem)) reachedU
      · intro u mem reachedU
        have place := bound u (perm.mem_iff.mpr (given' ▸ by simp [mem])) reachedU
        have other : rank u.minSpeed ≠ rank t.minSpeed := by
          intro same
          have none := different'.2.1.1 u mem (rank_inj.mp same.symm)
          cases none.symm.trans (numbers_of_le reached).1
        rw [← rank_lt_iff]
        omega

/-! ### The depth at a speed -/

/-- What is chosen gives the depth. -/
theorem depthForSpeed_of_chooses (s : Settings) {ts : List Threshold} {speed : Float}
    {chosen : Option Threshold} (h : Chooses (countedSpeed speed) ts chosen) :
    (s.withThresholds ts).depthForSpeed speed =
      max s.lowerBound (min ((chosen.map Threshold.depth).getD s.upperBound) s.upperBound) := by
  have last : ((ts.mergeSort inOrder).takeWhile (reaches speed)).getLast? = chosen := by
    rw [takeWhile_reaches (pairwise_sorted ts)]
    exact (chooses_last_reached (countedSpeed speed) ts).unique h
  rw [← last]
  rfl

/-- **The depth at a speed is that of the threshold that the speed chooses** among those given in
any order, or the larger bound where it chooses none, between the two bounds; and a choice there
always is.  Thresholds of different speeds may be given in any order. -/
theorem depthForSpeed_withThresholds (s : Settings) (ts : List Threshold) (speed : Float) :
    let v := if speed.isNaN ∨ speed < 0.0 then 0.0 else speed
    let inside (depth : Nat) := max 1 (min depth 32)
    let lo := min (inside s.shallowest) (inside s.deepest)
    let hi := max (inside s.shallowest) (inside s.deepest)
    (∃ chosen, Chooses v ts chosen) ∧
    (∀ chosen, Chooses v ts chosen →
      (s.withThresholds ts).depthForSpeed speed =
        max lo (min ((chosen.map Threshold.depth).getD hi) hi)) ∧
    ∀ ts', ts.Perm ts' →
      (ts.Pairwise fun t u => t.minSpeed = u.minSpeed → t.minSpeed.isNaN = true) →
      (s.withThresholds ts').depthForSpeed speed = (s.withThresholds ts).depthForSpeed speed := by
  intro v inside lo hi
  have same : ∀ x, x ≤ countedSpeed speed ↔ x ≤ v := fun x => le_countedSpeed_iff x speed
  refine ⟨⟨_, chooses_last_reached v ts⟩, ?_, ?_⟩
  · intro chosen h
    exact depthForSpeed_of_chooses s (h.congr fun x => (same x).symm)
  · intro ts' perm different
    have h := chooses_last_reached (countedSpeed speed) ts
    rw [depthForSpeed_of_chooses s h, depthForSpeed_of_chooses s (h.perm perm different)]

end Geotile.Settings
