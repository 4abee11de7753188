/-
**Following a moving station.**

The area of interest around a position is the tile of the position with its neighbours, in its
smallest form.  A tracker keeps the area around the last position that it was given and says what
changes with every new one: which members to subscribe to and which to give up, and what is newly
covered and no longer covered.

Main definitions:

* `Geotile.Area.around` — the area of interest around a tile;
* `Geotile.Change`, `Geotile.Change.between` — what changes from one area to the next;
* `Geotile.Tracker`, `Geotile.Tracker.start` — a tracker, and one that has seen no position;
* `Geotile.Tracker.receive`, `Geotile.Tracker.update`, `Geotile.Tracker.clear` — a new position, and
  giving everything up;
* `Geotile.Tracker.filters`, `Geotile.Tracker.filtersFor`, `Geotile.Tracker.topic?` — the filters
  of the area, and the topic to publish at.
-/

import Geotile.Area.Algebra
import Geotile.Position
import Geotile.Settings.Basic

set_option autoImplicit false

namespace Geotile

/-! ### Areas of interest -/

/-- A tile with the tiles around it, in the smallest form. -/
def Area.around (t : Tile) : Area :=
  ((Area.single t).union ((Area.single t).ring t.depth)).optimise

/-- The area of interest around a position at a depth. -/
def Area.aroundPosition (p : Position) (depth : Nat) : Except PositionError Area :=
  (Tile.atPosition p depth).map Area.around

/-! ### Changes -/

/-- What changes from one area to the next. -/
structure Change where
  /-- The members of the next area that are new. -/
  subscribe : Area
  /-- The members of the area before that are gone. -/
  unsubscribe : Area
  /-- What is newly covered, in the smallest form. -/
  gained : Area
  /-- What is no longer covered, in the smallest form. -/
  lost : Area
  deriving DecidableEq

namespace Change

/-- What changes from one area to the next. -/
def between (before next : Area) : Change where
  subscribe := next.filter fun t => t ∉ before
  unsubscribe := before.filter fun t => t ∉ next
  gained := (next.diff before).optimise
  lost := (before.diff next).optimise

/-- Whether the members stay the same. -/
def isEmpty (c : Change) : Bool := c.subscribe.isEmpty && c.unsubscribe.isEmpty

@[simp] theorem mem_subscribe {before next : Area} {t : Tile} :
    t ∈ (between before next).subscribe ↔ t ∈ next ∧ t ∉ before := by
  simp [between]

@[simp] theorem mem_unsubscribe {before next : Area} {t : Tile} :
    t ∈ (between before next).unsubscribe ↔ t ∈ before ∧ t ∉ next := by
  simp [between]

end Change

/-! ### Trackers -/

/-- A station that is followed. -/
structure Tracker where
  /-- The settings of the station. -/
  settings : Settings
  /-- The scheme of its topics. -/
  scheme : Scheme
  /-- The area around its last position. -/
  area : Area
  /-- The tile of its last position. -/
  tile : Option Tile

namespace Tracker

/-- A tracker that has seen no position. -/
def start (settings : Settings) : Tracker where
  settings := settings
  scheme := .ofText settings.base
  area := .empty
  tile := none

/-- The tracker with another area, and what that changes. -/
def replace (tr : Tracker) (next : Area) : Change × Tracker :=
  (.between tr.area next, { tr with area := next })

/-- A new position at a speed in metres per second: what it changes or why it is refused, and the
tracker afterwards. -/
def receive (tr : Tracker) (p : Position) (speed : Float) :
    Except PositionError Change × Tracker :=
  let depth := tr.settings.depthForSpeed speed
  match Area.aroundPosition p depth with
  | .error e => (.error e, tr)
  | .ok next =>
    match Tile.atPosition p depth with
    | .error e => (.error e, tr)
    | .ok t =>
      let (change, moved) := tr.replace next
      (.ok change, { moved with tile := some t })

/-- A new position that has to be accepted for anything to go on. -/
def update (tr : Tracker) (p : Position) (speed : Float) :
    Except PositionError (Change × Tracker) :=
  let (outcome, next) := tr.receive p speed
  outcome.map fun change => (change, next)

/-- The whole area given up. -/
def clear (tr : Tracker) : Change × Tracker := replace { tr with tile := none } .empty

/-- The filters of an area, for every type of message that the station listens to. -/
def filtersFor (tr : Tracker) (a : Area) : List String :=
  tr.settings.messageTypes.flatMap fun messageType => tr.scheme.filters messageType a

/-- The filters of the area around the last position. -/
def filters (tr : Tracker) : List String := tr.filtersFor tr.area

/-- The topic of a message of a type at the last position. -/
def topic? (tr : Tracker) (messageType : String) : Option String :=
  tr.tile.map (tr.scheme.publish messageType tr.settings.source)

end Tracker

end Geotile
