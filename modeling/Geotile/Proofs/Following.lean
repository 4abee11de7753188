/-
**A tracker follows its station.**

Whatever fixes a tracker is given and whenever it is cleared, its tile and its area are told by the
last fix that it accepted, and by its settings: the tile is the one of the position at the depth of
the speed, and the area is the tile with its neighbours in smallest form.  A fix is refused only
for a coordinate that is not finite, and then nothing changes.  No settings make it fail, since the
depth is moved into the levels of the tree and a row and a column are kept inside the grid.

One event preserves this, as the area around a position and its tile are replaced together or not
at all; a run of events preserves it by induction.

Main definitions:

* `Geotile.Tracker.Event`, `Geotile.Tracker.after`, `Geotile.Tracker.run` — fixes and clearing, and
  what they do to a tracker;
* `Geotile.Tracker.lastFix` — the last fix accepted since the tracker was cleared;
* `Geotile.Tracker.Follows` — a tracker is where that fix tells.

Main results:

* `Geotile.Area.around_eq` — the area of interest is the smallest form of a tile and its neighbours;
* `Geotile.Tracker.receive_of_finite`, `Geotile.Tracker.receive_of_not_finite` — what a fix does;
* `Geotile.Tracker.Follows.after` — one event;
* `Geotile.Tracker.follows_last_fix` — **any run of events**.
-/

import Geotile.Proofs.Rings
import Geotile.Tracker

set_option autoImplicit false

namespace Geotile

/-! ### The area around a tile -/

theorem Tile.mem_presentNeighbours {t u : Tile} :
    u ∈ t.presentNeighbours.map Prod.snd ↔ ∃ h, t.neighbour h = some u := by
  simp only [presentNeighbours, List.mem_map, List.mem_filterMap, Heading.mem_all, true_and,
    Option.map_eq_some_iff]
  constructor
  · rintro ⟨_, ⟨h, n, hn, rfl⟩, rfl⟩
    exact ⟨h, hn⟩
  · rintro ⟨h, hn⟩
    exact ⟨(h, u), ⟨h, u, hn, rfl⟩, rfl⟩

theorem clampDepth_depth (t : Tile) : clampDepth t.depth = t.depth := by
  rw [clampDepth, Nat.min_eq_left t.depth_le, Nat.max_eq_right t.depth_pos]

namespace Area

theorem covers_single {t u : Tile} : (single t).covers u = t.contains u := by
  rw [Bool.eq_iff_iff, covers_iff]
  simp

/-- The ring around one tile, on its own level, consists of its neighbours. -/
theorem mem_ring_single {t u : Tile} :
    u ∈ (single t).ring t.depth ↔ u ≠ t ∧ ∃ h, t.neighbour h = some u := by
  have deep : ∀ m ∈ single t, m.depth ≤ clampDepth t.depth := by
    intro m hm
    rw [mem_single.mp hm, clampDepth_depth]
  rw [mem_ring_iff_borders deep, clampDepth_depth]
  constructor
  · rintro ⟨depth, free, h, v, next, covered⟩
    rw [covers_single] at free covered
    have same : t = v := by
      refine Tile.eq_of_contains_of_depth_le covered ?_
      rw [Tile.depth_of_neighbour next, depth]
    refine ⟨?_, h.opposite, Tile.neighbour_opposite (same ▸ next)⟩
    rintro rfl
    rw [Tile.contains_refl] at free
    cases free
  · rintro ⟨apart, h, next⟩
    have depth := Tile.depth_of_neighbour next
    refine ⟨depth, ?_, h.opposite, t, Tile.neighbour_opposite next, ?_⟩
    · rw [covers_single, Bool.eq_false_iff]
      intro inside
      exact apart (Tile.eq_of_contains_of_depth_le inside (Nat.le_of_eq depth)).symm
    · rw [covers_single, Tile.contains_refl]

/-- The area of interest around a tile is the smallest form of the tile and its neighbours. -/
theorem around_eq (t : Tile) :
    around t = (ofList (t :: t.presentNeighbours.map Prod.snd)).optimise := by
  have members : (single t).union ((single t).ring t.depth)
      = ofList (t :: t.presentNeighbours.map Prod.snd) := by
    refine ext_mem fun u => ?_
    rw [mem_union, mem_single, mem_ring_single, mem_ofList, List.mem_cons,
      Tile.mem_presentNeighbours]
    by_cases same : u = t
    · simp [same]
    · simp [same]
  rw [around, members]

end Area

/-! ### The tile of a position -/

/-- On every level a finite position falls into the tile that fills its cell. -/
theorem Tile.exists_atPosition {p : Position} (finite : p.isFinite = true) {d : Nat} (pos : 0 < d)
    (le : d ≤ maxDepth) :
    ∃ c t, p.cell d = .ok c ∧ Tile.ofCell c = .ok t ∧ Tile.atPosition p d = .ok t ∧
      t.depth = d := by
  have level : ¬ (d = 0 ∨ maxDepth < d) := by omega
  have inGrid : (⟨p.row d, p.column d, d⟩ : Cell).inGrid = true :=
    Cell.inGrid_iff.mpr ⟨le, gridIndex_lt _ _, gridIndex_lt _ _⟩
  refine ⟨⟨p.row d, p.column d, d⟩,
    ofQuadrants (Cell.path d (p.row d) (p.column d)) (by simpa using pos) (by simpa using le),
    ?_, ?_, ?_, by simp⟩
  · simp [Position.cell, finite, level]
  · simp [ofCell, pos, inGrid]
  · simp [atPosition, finite, level]

/-- The cell of a position has its row and its column. -/
theorem Position.eq_of_cell {p : Position} {d : Nat} {c : Cell} (h : p.cell d = .ok c) :
    c = ⟨p.row d, p.column d, d⟩ := by
  rw [cell] at h
  split at h
  · cases h
  · split at h
    · cases h
    · cases h
      rfl

theorem Tile.atPosition_of_not_finite {p : Position} (h : p.isFinite = false) (d : Nat) :
    Tile.atPosition p d = .error (.notFinite p) := by
  simp [atPosition, h]

theorem Position.isFinite_eq_false_iff {p : Position} :
    p.isFinite = false ↔ p.lat.isFinite = false ∨ p.lon.isFinite = false := by
  rw [isFinite, Bool.and_eq_false_iff]

/-! ### The depth at a speed -/

/-- The depth lies between the bounds. -/
theorem Settings.depthForSpeed_mem_bounds (s : Settings) (speed : Float) :
    s.lowerBound ≤ s.depthForSpeed speed ∧ s.depthForSpeed speed ≤ s.upperBound := by
  have := s.lowerBound_le_upperBound
  simp only [depthForSpeed]
  omega

namespace Tracker

/-! ### One fix -/

/-- A finite position is accepted, at the depth of the speed. -/
theorem receive_of_finite (tr : Tracker) {p : Position} (finite : p.isFinite = true)
    (speed : Float) :
    ∃ c t, p.cell (tr.settings.depthForSpeed speed) = .ok c ∧ Tile.ofCell c = .ok t ∧
      t.depth = tr.settings.depthForSpeed speed ∧
      tr.receive p speed = (.ok (.between tr.area (.around t)),
        { tr with area := .around t, tile := some t }) := by
  obtain ⟨c, t, cell, encoded, located, depth⟩ := Tile.exists_atPosition finite
    (tr.settings.depthForSpeed_pos speed) (tr.settings.depthForSpeed_le speed)
  refine ⟨c, t, cell, encoded, depth, ?_⟩
  simp [receive, Area.aroundPosition, located, Except.map, replace]

/-- Any other position is refused, and nothing changes. -/
theorem receive_of_not_finite (tr : Tracker) {p : Position} (h : p.isFinite = false)
    (speed : Float) : tr.receive p speed = (.error (.notFinite p), tr) := by
  simp [receive, Area.aroundPosition, Tile.atPosition_of_not_finite h, Except.map]

/-- A fix is refused exactly when its position is not finite. -/
theorem receive_eq_error_iff {tr : Tracker} {p : Position} {speed : Float} :
    (∃ e, (tr.receive p speed).1 = .error e) ↔ p.isFinite = false := by
  constructor
  · rintro ⟨e, refused⟩
    rw [Bool.eq_false_iff]
    intro finite
    obtain ⟨c, t, -, -, -, accepted⟩ := tr.receive_of_finite finite speed
    rw [accepted] at refused
    cases refused
  · intro h
    exact ⟨_, congrArg Prod.fst (tr.receive_of_not_finite h speed)⟩

/-! ### Runs -/

/-- What happens to a tracker. -/
inductive Event where
  /-- It is given a position and a speed. -/
  | fix (position : Position) (speed : Float)
  /-- It is cleared. -/
  | clear

/-- A tracker after an event. -/
def after (tr : Tracker) : Event → Tracker
  | .fix p speed => (tr.receive p speed).2
  | .clear => tr.clear.2

/-- A tracker after a run of events. -/
def run (tr : Tracker) (events : List Event) : Tracker := events.foldl after tr

/-- The last accepted fix after one more event: a finite one takes its place, another one leaves it,
and clearing forgets it. -/
def nextFix (last : Option (Position × Float)) : Event → Option (Position × Float)
  | .fix p speed => if p.isFinite then some (p, speed) else last
  | .clear => none

/-- The last fix of a run that was accepted since the tracker was cleared. -/
def lastFix (events : List Event) : Option (Position × Float) := events.foldl nextFix none

/-- A tracker with the given settings is where the last accepted fix tells. -/
structure Follows (s : Settings) (last : Option (Position × Float)) (tr : Tracker) : Prop where
  settings : tr.settings = s
  /-- Without a fix it has no tile and an empty area. -/
  idle : last = none → tr.tile = none ∧ tr.area = .empty
  /-- With one it has the tile of the position, at the depth of the speed, and the smallest form of
  that tile and its neighbours. -/
  placed : ∀ p speed, last = some (p, speed) →
    ∃ c t, p.cell (s.depthForSpeed speed) = .ok c ∧ Tile.ofCell c = .ok t ∧
      tr.tile = some t ∧ t.depth = s.depthForSpeed speed ∧
      s.lowerBound ≤ t.depth ∧ t.depth ≤ s.upperBound ∧
      tr.area = (Area.ofList (t :: t.presentNeighbours.map Prod.snd)).optimise

theorem follows_start (s : Settings) : Follows s none (start s) where
  settings := rfl
  idle _ := ⟨rfl, rfl⟩
  placed _ _ h := by cases h

/-- One event keeps a tracker where the last accepted fix tells. -/
theorem Follows.after {s : Settings} {last : Option (Position × Float)} {tr : Tracker}
    (h : Follows s last tr) (event : Event) : Follows s (nextFix last event) (tr.after event) := by
  cases event with
  | clear =>
      exact ⟨h.settings, fun _ => ⟨rfl, rfl⟩, fun _ _ given => by cases given⟩
  | fix p speed =>
      rw [Tracker.after, nextFix]
      by_cases finite : p.isFinite = true
      · obtain ⟨c, t, cell, encoded, depth, accepted⟩ := tr.receive_of_finite finite speed
        rw [h.settings] at cell depth
        rw [accepted, if_pos finite]
        refine ⟨h.settings, fun given => (by cases given), fun _ _ given => ?_⟩
        cases given
        obtain ⟨low, high⟩ := s.depthForSpeed_mem_bounds speed
        rw [← depth] at low high
        exact ⟨c, t, cell, encoded, rfl, depth, low, high, Area.around_eq t⟩
      · rw [tr.receive_of_not_finite (Bool.eq_false_iff.mpr finite) speed, if_neg finite]
        exact h

theorem Follows.run {s : Settings} {last : Option (Position × Float)} {tr : Tracker}
    (h : Follows s last tr) (events : List Event) :
    Follows s (events.foldl nextFix last) (tr.run events) := by
  induction events generalizing last tr with
  | nil => exact h
  | cons event events ih => exact ih (h.after event)

/-- **After any run of events a tracker is where the last accepted fix tells**, whatever its
settings are.  Then another fix is refused exactly when a coordinate is not finite, and a refused
one leaves the area and the tile as they are. -/
theorem follows_last_fix (s : Settings) (events : List Event) :
    Follows s (lastFix events) ((start s).run events) ∧
    ∀ p speed,
      ((∃ e, (((start s).run events).receive p speed).1 = .error e) ↔
        p.lat.isFinite = false ∨ p.lon.isFinite = false) ∧
      ∀ e, (((start s).run events).receive p speed).1 = .error e →
        (((start s).run events).receive p speed).2.area = ((start s).run events).area ∧
        (((start s).run events).receive p speed).2.tile = ((start s).run events).tile := by
  refine ⟨(follows_start s).run events, fun p speed => ⟨?_, fun e refused => ?_⟩⟩
  · rw [receive_eq_error_iff, Position.isFinite_eq_false_iff]
  · rw [receive_of_not_finite _ (receive_eq_error_iff.mp ⟨e, refused⟩)]
    exact ⟨rfl, rfl⟩

end Tracker

end Geotile
