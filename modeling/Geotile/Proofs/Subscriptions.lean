/-
**Subscriptions follow the area.**

A client that holds a set of filters, and on every change first gives up the filters of the members
that go and then takes up those of the members that come, always holds the filters of the tracked
area.  Nothing is given up that it does not hold and nothing is taken up that it holds: filters for
different types and tiles are different, so the filter of a member that goes is not needed for
another one or another type, even when types are listed more than once or hold wildcards.

One change preserves this because the members that come and go are the two differences of the
areas; a run preserves it by induction.  Replaying a track does the same with the lists in its
reports.

Main definitions:

* `Geotile.exchange`, `Geotile.Tracker.held` — the filters that a client holds after a change, and
  after a run of events;
* `Geotile.Fix.event` — a fix of a track as an event.

Main results:

* `Geotile.Tracker.filter_mem_filtersFor` — which filters are among those of an area;
* `Geotile.Tracker.exchange_between` — one change;
* `Geotile.Tracker.held_eq` — any run of events;
* `Geotile.foldl_replayFrom` — the reports of a track;
* `Geotile.Tracker.subscriptions_follow_area` — **the filters that a client holds are those of the
  area**.
-/

import Mathlib.Data.Set.Basic
import Geotile.Proofs.Changes
import Geotile.Proofs.Topics
import Geotile.Report.Track

set_option autoImplicit false

namespace Geotile

/-- The filters that a client holds after it gave some up and then took some up. -/
def exchange (held : Set String) (givenUp takenUp : List String) : Set String :=
  (held \ {f | f ∈ givenUp}) ∪ {f | f ∈ takenUp}

/-- A fix of a track as an event. -/
def Fix.event (fix : Fix) : Tracker.Event := .fix fix.position fix.speed

namespace Tracker

/-- The filters that a client holds after a run of events, when it exchanges them with every
change. -/
def held (tr : Tracker) (before : Set String) : List Event → Set String
  | [] => before
  | event :: events =>
    held (tr.after event)
      (match tr.changeOf event with
        | some c => exchange before (tr.filtersFor c.unsubscribe) (tr.filtersFor c.subscribe)
        | none => before)
      events

/-! ### The filters of an area -/

theorem mem_filtersFor {tr : Tracker} {a : Area} {f : String} :
    f ∈ tr.filtersFor a ↔
      ∃ messageType ∈ tr.settings.messageTypes, ∃ t ∈ a, tr.scheme.filter messageType t = f := by
  simp only [filtersFor, Scheme.filters, List.mem_flatMap, List.mem_map]
  exact Iff.rfl

/-- The filter of a type and a tile is among those of an area exactly when the type is listened to
and the tile is a member. -/
theorem filter_mem_filtersFor {tr : Tracker} {a : Area} {messageType : String} {t : Tile} :
    tr.scheme.filter messageType t ∈ tr.filtersFor a ↔
      messageType ∈ tr.settings.messageTypes ∧ t ∈ a := by
  rw [mem_filtersFor]
  constructor
  · rintro ⟨m, hm, u, hu, same⟩
    obtain ⟨rfl, rfl⟩ := (Scheme.filter_inj _).mp same
    exact ⟨hm, hu⟩
  · rintro ⟨hm, ht⟩
    exact ⟨messageType, hm, t, ht, rfl⟩

/-- No event changes how filters are written. -/
theorem filtersFor_after (tr : Tracker) (event : Event) (a : Area) :
    (tr.after event).filtersFor a = tr.filtersFor a := by
  rcases tr.changeOf_cases event with ⟨-, same⟩ | ⟨-, settings, scheme⟩
  · rw [same]
  · rw [filtersFor, filtersFor, settings, scheme]

/-! ### One change -/

/-- What is given up belongs to the area before. -/
theorem mem_filtersFor_of_unsubscribe {tr : Tracker} {before next : Area} {f : String}
    (h : f ∈ tr.filtersFor (Change.between before next).unsubscribe) :
    f ∈ tr.filtersFor before := by
  obtain ⟨m, hm, t, ht, rfl⟩ := mem_filtersFor.mp h
  exact filter_mem_filtersFor.mpr ⟨hm, (Change.mem_unsubscribe.mp ht).1⟩

/-- What is taken up does not. -/
theorem notMem_filtersFor_of_subscribe {tr : Tracker} {before next : Area} {f : String}
    (h : f ∈ tr.filtersFor (Change.between before next).subscribe) :
    f ∉ tr.filtersFor before := by
  obtain ⟨m, -, t, ht, rfl⟩ := mem_filtersFor.mp h
  intro old
  exact (Change.mem_subscribe.mp ht).2 (filter_mem_filtersFor.mp old).2

/-- A change leads from the filters of one area to those of the next. -/
theorem exchange_between (tr : Tracker) (before next : Area) :
    exchange {f | f ∈ tr.filtersFor before}
        (tr.filtersFor (Change.between before next).unsubscribe)
        (tr.filtersFor (Change.between before next).subscribe)
      = {f | f ∈ tr.filtersFor next} := by
  ext f
  simp only [exchange, Set.mem_union, Set.mem_sdiff, Set.mem_ofPred_eq]
  constructor
  · rintro (⟨old, kept⟩ | new)
    · obtain ⟨m, hm, t, ht, rfl⟩ := mem_filtersFor.mp old
      simp only [filter_mem_filtersFor, Change.mem_unsubscribe, not_and, Classical.not_not] at kept
      exact filter_mem_filtersFor.mpr ⟨hm, kept hm ht⟩
    · obtain ⟨m, hm, t, ht, rfl⟩ := mem_filtersFor.mp new
      exact filter_mem_filtersFor.mpr ⟨hm, (Change.mem_subscribe.mp ht).1⟩
  · intro wanted
    obtain ⟨m, hm, t, ht, rfl⟩ := mem_filtersFor.mp wanted
    simp only [filter_mem_filtersFor, Change.mem_unsubscribe, Change.mem_subscribe]
    by_cases old : t ∈ before
    · exact .inl ⟨⟨hm, old⟩, fun gone => gone.2.2 ht⟩
    · exact .inr ⟨hm, ht, old⟩

/-! ### Runs -/

/-- Who holds the filters of the area holds those of the area after any run of events. -/
theorem held_eq (tr : Tracker) (events : List Event) :
    tr.held {f | f ∈ tr.filters} events = {f | f ∈ (tr.run events).filters} := by
  induction events generalizing tr with
  | nil => rfl
  | cons event events ih =>
      refine Eq.trans (congrArg ((tr.after event).held · events) ?_) (ih (tr.after event))
      cases changed : tr.changeOf event with
      | none => rw [after_of_changeOf_eq_none changed]
      | some c =>
          simp only [eq_between_of_changeOf changed, filters, filtersFor_after]
          exact exchange_between tr tr.area (tr.after event).area

end Tracker

/-! ### Tracks -/

/-- A fix with a finite position gives a report and goes on with the tracker after it. -/
theorem replayFrom_cons_of_finite (tr : Tracker) {fix : Fix} (finite : fix.position.isFinite = true)
    (fixes : List Fix) :
    ∃ c, tr.changeOf fix.event = some c ∧ replayFrom tr (fix :: fixes)
      = (replayFrom (tr.after fix.event) fixes).map (FixReport.of c (tr.after fix.event) :: ·) := by
  obtain ⟨_, t, -, -, -, accepted⟩ := tr.receive_of_finite finite fix.speed
  refine ⟨_, congrArg (fun outcome => outcome.1.toOption) accepted, ?_⟩
  rw [replayFrom, Tracker.update, Fix.event, Tracker.after, accepted]
  rfl

theorem replayFrom_cons_of_not_finite (tr : Tracker) {fix : Fix}
    (h : fix.position.isFinite = false) (fixes : List Fix) :
    replayFrom tr (fix :: fixes) = .error (.notFinite fix.position) := by
  rw [replayFrom, Tracker.update, tr.receive_of_not_finite h]
  rfl

/-- The reports on a track are the one on its first fix, and those of the tracker after it. -/
theorem replayFrom_cons_eq_ok {tr : Tracker} {fix : Fix} {fixes : List Fix}
    {reports : List FixReport} (h : replayFrom tr (fix :: fixes) = .ok reports) :
    ∃ c later, tr.changeOf fix.event = some c ∧
      replayFrom (tr.after fix.event) fixes = .ok later ∧
      reports = .of c (tr.after fix.event) :: later := by
  by_cases finite : fix.position.isFinite = true
  · obtain ⟨c, changed, step⟩ := replayFrom_cons_of_finite tr finite fixes
    rw [step] at h
    cases rest : replayFrom (tr.after fix.event) fixes with
    | error e =>
        rw [rest] at h
        cases h
    | ok later =>
        rw [rest] at h
        cases h
        exact ⟨c, later, changed, rfl, rfl⟩
  · rw [replayFrom_cons_of_not_finite tr (Bool.eq_false_iff.mpr finite)] at h
    cases h

/-- Exchanging the filters listed in the reports on a track is exchanging those of its changes. -/
theorem foldl_replayFrom {tr : Tracker} {fixes : List Fix} {reports : List FixReport}
    (h : replayFrom tr fixes = .ok reports) (before : Set String) :
    reports.foldl (fun held r => exchange held r.unsubscribe r.subscribe) before
      = tr.held before (fixes.map Fix.event) := by
  induction fixes generalizing tr reports before with
  | nil =>
      cases h
      rfl
  | cons fix fixes ih =>
      obtain ⟨c, later, changed, rest, rfl⟩ := replayFrom_cons_eq_ok h
      rw [List.foldl_cons, ih rest, List.map_cons, Tracker.held, changed]
      simp only [FixReport.of, Tracker.filtersFor_after]

/-- No report on a track lists a filter as taken up and as given up. -/
theorem notMem_unsubscribe_of_replayFrom {tr : Tracker} {fixes : List Fix}
    {reports : List FixReport} (h : replayFrom tr fixes = .ok reports) {r : FixReport}
    (mem : r ∈ reports) {f : String} (hf : f ∈ r.subscribe) : f ∉ r.unsubscribe := by
  induction fixes generalizing tr reports with
  | nil =>
      cases h
      cases mem
  | cons fix fixes ih =>
      obtain ⟨c, later, changed, rest, rfl⟩ := replayFrom_cons_eq_ok h
      rcases List.mem_cons.mp mem with rfl | mem
      · rw [Tracker.eq_between_of_changeOf changed] at hf ⊢
        exact fun gone => Tracker.notMem_filtersFor_of_subscribe hf
          (Tracker.mem_filtersFor_of_unsubscribe gone)
      · exact ih rest mem

/-- A track is reported on exactly when all its positions are finite. -/
theorem exists_replayFrom_iff (tr : Tracker) (fixes : List Fix) :
    (∃ reports, replayFrom tr fixes = .ok reports) ↔
      ∀ fix ∈ fixes, fix.position.isFinite = true := by
  induction fixes generalizing tr with
  | nil => simp [replayFrom]
  | cons fix fixes ih =>
      rw [List.forall_mem_cons]
      by_cases finite : fix.position.isFinite = true
      · obtain ⟨c, -, step⟩ := replayFrom_cons_of_finite tr finite fixes
        rw [step, ← ih (tr.after fix.event)]
        cases replayFrom (tr.after fix.event) fixes <;> simp [Except.map, finite]
      · rw [replayFrom_cons_of_not_finite tr (Bool.eq_false_iff.mpr finite)]
        simp [finite]

namespace Tracker

/-- **The filters that a client holds are those of the area.**  A client that starts with no filter
and exchanges them with every change of a run holds the filters of the area afterwards.  With each
change that follows it gives up only filters that it holds and takes up only filters that it does
not hold.  The same comes of the filters listed in the reports on a track, which are there whenever
its positions are finite; and since none of them is listed on both sides of a report, it does not
matter which side is read first. -/
theorem subscriptions_follow_area (s : Settings) (events : List Event) :
    (start s).held ∅ events = {f | f ∈ ((start s).run events).filters} ∧
    (∀ event c, ((start s).run events).changeOf event = some c →
      (∀ f ∈ ((start s).run events).filtersFor c.unsubscribe, f ∈ (start s).held ∅ events) ∧
      ∀ f ∈ ((start s).run events).filtersFor c.subscribe, f ∉ (start s).held ∅ events) ∧
    ∀ fixes,
      ((∃ reports, replay s fixes = .ok reports) ↔
        ∀ fix ∈ fixes, fix.position.isFinite = true) ∧
      ∀ reports, replay s fixes = .ok reports →
        reports.foldl (fun held r => exchange held r.unsubscribe r.subscribe) ∅
            = {f | f ∈ ((start s).run (fixes.map Fix.event)).filters} ∧
          ∀ r ∈ reports, ∀ f ∈ r.subscribe, f ∉ r.unsubscribe := by
  have none : (∅ : Set String) = {f | f ∈ (start s).filters} := by
    ext f
    simp [filters, mem_filtersFor, start]
  have all : ∀ run, (start s).held ∅ run = {f | f ∈ ((start s).run run).filters} := by
    intro run
    rw [none]
    exact held_eq (start s) run
  refine ⟨all events, fun event c changed => ?_, fun fixes => ⟨exists_replayFrom_iff _ fixes, ?_⟩⟩
  · rw [all events, eq_between_of_changeOf changed]
    exact ⟨fun f => mem_filtersFor_of_unsubscribe, fun f => notMem_filtersFor_of_subscribe⟩
  · intro reports reported
    rw [foldl_replayFrom reported, all]
    exact ⟨rfl, fun r mem f => notMem_unsubscribe_of_replayFrom reported mem⟩

end Tracker

end Geotile
