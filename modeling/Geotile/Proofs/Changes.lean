/-
**Changes account for the area.**

A change says in two ways what happens from one area to the next: which members come and go, and
what is newly covered and no longer covered.  The second is the difference of the two areas, in
smallest form, so it adds up: what is lost taken away from the area before, and what is gained put
to it, covers what the next area covers.

On the question whether anything happens at all the two ways can disagree, since different members
may cover the same.  They agree between areas in smallest form, which are determined by what they
cover; and every area that a tracker reaches is in smallest form.

Main definitions:

* `Geotile.Change.Accounts` — a change accounts for the step from one area to the next;
* `Geotile.Tracker.changeOf` — the change that comes of an event.

Main results:

* `Geotile.Change.accounts_between` — changes between areas in smallest form;
* `Geotile.Tracker.changeOf_cases` — what an event can do;
* `Geotile.Tracker.Follows.canonical` — the areas that a tracker reaches are in smallest form;
* `Geotile.Tracker.changes_account_for_area` — **the changes of a tracker**.
-/

import Geotile.Proofs.Differences
import Geotile.Proofs.Following

set_option autoImplicit false

namespace Geotile

namespace Change

/-! ### Between two areas -/

/-- A change accounts for the step from one area to the next. -/
structure Accounts (c : Change) (before next : Area) : Prop where
  gained_smallest : c.gained.isOptimised = true
  lost_smallest : c.lost.isOptimised = true
  /-- What is gained is what only the next area covers. -/
  gained_covers : ∀ t : Tile, t.depth = maxDepth →
    (c.gained.covers t = true ↔ next.covers t = true ∧ before.covers t = false)
  /-- What is lost is what only the area before covers. -/
  lost_covers : ∀ t : Tile, t.depth = maxDepth →
    (c.lost.covers t = true ↔ before.covers t = true ∧ next.covers t = false)
  /-- Without what is lost and with what is gained, the area before covers what the next one
  does. -/
  rebuilt : Area.SameCover ((before.diff c.lost).union c.gained) next
  apart : ∀ t : Tile, t.depth = maxDepth → ¬ (c.gained.covers t = true ∧ c.lost.covers t = true)
  /-- The members stay the same exactly when nothing is gained and nothing is lost. -/
  isEmpty_iff : c.isEmpty = true ↔ c.gained.isEmpty = true ∧ c.lost.isEmpty = true

/-- On the deepest level the smallest form of a difference is the difference of sets. -/
theorem covers_optimise_diff (a b : Area) {t : Tile} (ht : t.depth = maxDepth) :
    (a.diff b).optimise.covers t = (a.covers t && !b.covers t) := by
  rw [Area.sameCover_optimise _ t ht, Area.covers_diff_of_deepest ht]

/-- No members come and none go exactly when the area stays the same. -/
theorem isEmpty_between_iff {before next : Area} :
    (between before next).isEmpty = true ↔ before = next := by
  rw [isEmpty, Bool.and_eq_true, Area.isEmpty_iff, Area.isEmpty_iff]
  simp only [mem_subscribe, mem_unsubscribe, not_and, Classical.not_not]
  constructor
  · rintro ⟨fromNext, fromBefore⟩
    exact Area.ext_mem fun t => ⟨fromBefore t, fromNext t⟩
  · rintro rfl
    exact ⟨fun _ => id, fun _ => id⟩

/-- Nothing is gained and nothing is lost exactly when both areas cover the same. -/
theorem gained_lost_isEmpty_iff {before next : Area} :
    (between before next).gained.isEmpty = true ∧ (between before next).lost.isEmpty = true ↔
      before.SameCover next := by
  rw [Area.isEmpty_iff_covers, Area.isEmpty_iff_covers, ← forall_and]
  refine forall_congr' fun c => ?_
  rw [← forall_and]
  refine forall_congr' fun hc => ?_
  rw [between, covers_optimise_diff _ _ hc, covers_optimise_diff _ _ hc]
  cases before.covers c <;> cases next.covers c <;> simp

/-- A change between areas in smallest form accounts for the step. -/
theorem accounts_between {before next : Area} (hb : before.Canonical) (hn : next.Canonical) :
    (between before next).Accounts before next where
  gained_smallest := Area.isOptimised_iff_canonical.mpr (Area.canonical_optimise _)
  lost_smallest := Area.isOptimised_iff_canonical.mpr (Area.canonical_optimise _)
  gained_covers t ht := by
    rw [between, covers_optimise_diff _ _ ht, Bool.and_eq_true, Bool.not_eq_true']
  lost_covers t ht := by
    rw [between, covers_optimise_diff _ _ ht, Bool.and_eq_true, Bool.not_eq_true']
  rebuilt t ht := by
    rw [between, Area.covers_union, Area.covers_diff_of_deepest ht, covers_optimise_diff _ _ ht,
      covers_optimise_diff _ _ ht]
    cases before.covers t <;> cases next.covers t <;> rfl
  apart t ht := by
    rw [between, covers_optimise_diff _ _ ht, covers_optimise_diff _ _ ht]
    cases before.covers t <;> cases next.covers t <;> simp
  isEmpty_iff := by
    rw [isEmpty_between_iff, gained_lost_isEmpty_iff]
    constructor
    · rintro rfl
      exact Area.SameCover.refl _
    · exact hb.eq_of_sameCover hn

end Change

namespace Tracker

/-! ### Along a run -/

/-- The change that comes of an event; a refused fix gives none. -/
def changeOf (tr : Tracker) : Event → Option Change
  | .fix p speed => (tr.receive p speed).1.toOption
  | .clear => some tr.clear.1

/-- A finite fix gives the change to the area around the tile that fills its cell. -/
theorem changeOf_fix (tr : Tracker) {p : Position} (finite : p.isFinite = true) {speed : Float}
    {d : Nat} (depth : tr.settings.depthForSpeed speed = d) :
    ∃ t, Tile.ofCell ⟨p.row d, p.column d, d⟩ = .ok t ∧
      tr.changeOf (.fix p speed) = some (.between tr.area (.around t)) ∧
      (tr.after (.fix p speed)).area = .around t := by
  obtain ⟨c, t, cell, encoded, -, accepted⟩ := tr.receive_of_finite finite speed
  rw [Position.eq_of_cell cell, depth] at encoded
  refine ⟨t, encoded, ?_, ?_⟩
  · rw [changeOf, accepted]
    rfl
  · rw [after, accepted]

/-- An event either gives no change and leaves the tracker as it is, or gives the change between
the areas before and after it, and leaves the settings and the scheme. -/
theorem changeOf_cases (tr : Tracker) (event : Event) :
    (tr.changeOf event = none ∧ tr.after event = tr) ∨
    (tr.changeOf event = some (.between tr.area (tr.after event).area) ∧
      (tr.after event).settings = tr.settings ∧ (tr.after event).scheme = tr.scheme) := by
  cases event with
  | clear => exact .inr ⟨rfl, rfl, rfl⟩
  | fix p speed =>
      rw [changeOf, after]
      by_cases finite : p.isFinite = true
      · obtain ⟨_, t, -, -, -, accepted⟩ := tr.receive_of_finite finite speed
        rw [accepted]
        exact .inr ⟨rfl, rfl, rfl⟩
      · rw [tr.receive_of_not_finite (Bool.eq_false_iff.mpr finite) speed]
        exact .inl ⟨rfl, rfl⟩

/-- A change is the one between the areas before and after the event. -/
theorem eq_between_of_changeOf {tr : Tracker} {event : Event} {c : Change}
    (h : tr.changeOf event = some c) : c = .between tr.area (tr.after event).area := by
  rcases tr.changeOf_cases event with ⟨none, -⟩ | ⟨between, -⟩
  · rw [none] at h
    cases h
  · exact Option.some.inj (h.symm.trans between)

/-- Without a change the tracker stays as it is. -/
theorem after_of_changeOf_eq_none {tr : Tracker} {event : Event} (h : tr.changeOf event = none) :
    tr.after event = tr := by
  rcases tr.changeOf_cases event with ⟨-, same⟩ | ⟨between, -⟩
  · exact same
  · rw [between] at h
    cases h

/-- The area of a tracker that follows its station is in smallest form. -/
theorem Follows.canonical {s : Settings} {last : Option (Position × Float)} {tr : Tracker}
    (h : Follows s last tr) : tr.area.Canonical := by
  cases last with
  | none =>
      rw [(h.idle rfl).2]
      exact Area.canonical_empty
  | some fix =>
      obtain ⟨_, t, -, -, -, -, -, -, area⟩ := h.placed fix.1 fix.2 rfl
      rw [area]
      exact Area.canonical_optimise _

/-- **The changes of a tracker account for its area.**  After any run of events, the change that
comes of one more event has its areas in smallest form, what it gains and what it loses is what
only the area after and only the area before covers, and it is empty exactly when there is neither
gain nor loss. -/
theorem changes_account_for_area (s : Settings) (events : List Event) (event : Event) (c : Change)
    (h : ((start s).run events).changeOf event = some c) :
    c.Accounts ((start s).run events).area (((start s).run events).after event).area := by
  have reached := (follows_start s).run events
  rw [eq_between_of_changeOf h]
  exact Change.accounts_between reached.canonical (reached.after event).canonical

/-- Settings for tiles on the first two levels, the larger ones at high speed. -/
def twoLevels : Settings :=
  { Settings.standard with shallowest := 1, deepest := 2, thresholds := [⟨0.0, 2⟩, ⟨28.0, 1⟩] }

/-- What changes from a tile in the third of four columns to an eastern quadrant of the map, in
whatever rows the two are. -/
theorem between_of_columns {row row' : Nat} {t u : Tile} (hr : row < 4) (hr' : row' < 2)
    (ht : Tile.ofCell ⟨row, 2, 2⟩ = .ok t) (hu : Tile.ofCell ⟨row', 1, 1⟩ = .ok u) :
    ["0", "2"] ⊆ (Change.between (.around t) (.around u)).subscribe.texts ∧
      (Change.between (.around t) (.around u)).gained.covers
        (.ofQuadrants [.northWest, .northWest] (by decide) (by decide)) = true ∧
      (Change.between (.around t) (.around u)).lost.texts = [] := by
  have evaluated : ∀ row < 4, ∀ row' < 2,
      ((Tile.ofCell ⟨row, 2, 2⟩).bind fun t => (Tile.ofCell ⟨row', 1, 1⟩).map fun u =>
        let c := Change.between (.around t) (.around u)
        decide (["0", "2"] ⊆ c.subscribe.texts ∧
          c.gained.covers (.ofQuadrants [.northWest, .northWest] (by decide) (by decide)) = true ∧
          c.lost.texts = [])) = .ok true := by
    decide +kernel
  have found := evaluated row hr row' hr'
  rw [ht, hu] at found
  exact of_decide_eq_true (Except.ok.inj found)

/-- A second fix further east, at a speed that asks for larger tiles: the two western quadrants of
the map are new members, so its north-western corner is gained, and nothing is lost. -/
theorem changes_account_for_area_second_fix :
    ∃ c,
      ((start twoLevels).run [.fix ⟨43.6, 1.44⟩ 5.0]).changeOf (.fix ⟨43.6, 1.46⟩ 30.0) = some c ∧
      c.Accounts ((start twoLevels).run [.fix ⟨43.6, 1.44⟩ 5.0]).area
        (((start twoLevels).run [.fix ⟨43.6, 1.44⟩ 5.0]).after (.fix ⟨43.6, 1.46⟩ 30.0)).area ∧
      ["0", "2"] ⊆ c.subscribe.texts ∧
      c.gained.covers (.ofQuadrants [.northWest, .northWest] (by decide) (by decide)) = true ∧
      c.lost.texts = [] := by
  have slow : twoLevels.depthForSpeed 5.0 = 2 := by decide +kernel
  have fast : twoLevels.depthForSpeed 30.0 = 1 := by decide +kernel
  have column : (⟨43.6, 1.44⟩ : Position).column 2 = 2 := by decide +kernel
  have column' : (⟨43.6, 1.46⟩ : Position).column 1 = 1 := by decide +kernel
  have settings := ((follows_start twoLevels).run [.fix ⟨43.6, 1.44⟩ 5.0]).settings
  obtain ⟨t, ht, -, area⟩ := (start twoLevels).changeOf_fix (p := ⟨43.6, 1.44⟩) (by decide) slow
  obtain ⟨u, hu, changed, -⟩ := ((start twoLevels).run [.fix ⟨43.6, 1.44⟩ 5.0]).changeOf_fix
    (p := ⟨43.6, 1.46⟩) (by decide) (settings ▸ fast)
  rw [column] at ht
  rw [column'] at hu
  have members := between_of_columns (gridIndex_lt _ 2) (gridIndex_lt _ 1) ht hu
  rw [← area] at members
  exact ⟨_, changed, changes_account_for_area twoLevels _ _ _ changed, members⟩

end Tracker

end Geotile
