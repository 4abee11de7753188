/-
**Settings of a station.**

The settings say under which levels a station publishes, what it calls itself, which types of
messages it listens to, and how deep its tiles are.  The depth depends on the speed: of the
thresholds in order of speed, the last one that the speed reaches gives the depth, kept between
the two bounds.  Fast stations get large tiles, so that the area they listen to keeps up with them.

Bounds may be set to anything; they are moved into the levels of the tree and put in order
whenever they are used.

Main definitions:

* `Geotile.Threshold`, `Geotile.Settings` — thresholds and settings;
* `Geotile.Settings.withDepthRange`, `Geotile.Settings.withThresholds` — settings with other
  bounds and other thresholds;
* `Geotile.Settings.inOrder`, `Geotile.Settings.reaches` — whether thresholds stand in order, and
  whether a speed reaches one;
* `Geotile.Settings.depthForSpeed` — the depth at a speed.

Main results:

* `Geotile.Settings.depthForSpeed_pos`, `Geotile.Settings.depthForSpeed_le` — the depth is a level
  of the tree, whatever the settings are.
-/

import Geotile.Number.Binary64
import Geotile.Area.Ring
import Geotile.Topic

set_option autoImplicit false

namespace Geotile

/-- A depth to use from a speed on. -/
structure Threshold where
  /-- The least speed, in metres per second. -/
  minSpeed : Float
  /-- The depth to use. -/
  depth : Nat

/-- The settings of a station. -/
structure Settings where
  /-- The leading levels of its topics. -/
  base : String
  /-- The name of the station. -/
  source : String
  /-- The types of messages it listens to. -/
  messageTypes : List String
  /-- The smallest depth to use, whatever the speed. -/
  shallowest : Nat
  /-- The greatest depth to use, whatever the speed. -/
  deepest : Nat
  /-- The thresholds, slowest first. -/
  thresholds : List Threshold

namespace Settings

/-- The settings used where none are given. -/
def standard : Settings where
  base := Scheme.defaultBase
  source := "its-station"
  messageTypes := ["cam", "denm", "cpm"]
  shallowest := 12
  deepest := 18
  thresholds := [⟨0.0, 18⟩, ⟨14.0, 16⟩, ⟨28.0, 14⟩]

instance : Inhabited Settings := ⟨standard⟩

/-! ### Bounds of the depth -/

/-- The smaller of the two bounds, inside the levels of the tree. -/
def lowerBound (s : Settings) : Nat := min (clampDepth s.shallowest) (clampDepth s.deepest)

/-- The larger of the two bounds, inside the levels of the tree. -/
def upperBound (s : Settings) : Nat := max (clampDepth s.shallowest) (clampDepth s.deepest)

theorem lowerBound_pos (s : Settings) : 0 < s.lowerBound := by
  have := clampDepth_pos s.shallowest
  have := clampDepth_pos s.deepest
  unfold lowerBound
  omega

theorem upperBound_le (s : Settings) : s.upperBound ≤ maxDepth := by
  have := clampDepth_le s.shallowest
  have := clampDepth_le s.deepest
  unfold upperBound
  omega

theorem lowerBound_le_upperBound (s : Settings) : s.lowerBound ≤ s.upperBound := by
  unfold lowerBound upperBound
  omega

/-- The settings with other bounds of the depth, moved into the levels of the tree and put in
order. -/
def withDepthRange (s : Settings) (shallowest deepest : Nat) : Settings :=
  let given := { s with shallowest := shallowest, deepest := deepest }
  { given with shallowest := given.lowerBound, deepest := given.upperBound }

/-- Whether thresholds stand in order of speed, by the order of all doubles.  There is one
not-a-number, and it comes last; one with the sign bit, which would come first, is no `Float` and
is left out. -/
def inOrder (t u : Threshold) : Bool := Binary64.rank t.minSpeed ≤ Binary64.rank u.minSpeed

/-- The settings with other thresholds, put in order of speed; those of one speed stay in the
order in which they are given. -/
def withThresholds (s : Settings) (thresholds : List Threshold) : Settings :=
  { s with thresholds := thresholds.mergeSort inOrder }

/-! ### The depth at a speed -/

/-- A speed as it counts: what is negative or not a number counts as standing still. -/
def countedSpeed (speed : Float) : Float := if speed.isNaN then 0.0 else max speed 0.0

/-- Whether a speed reaches a threshold, by the comparison of doubles as numbers: the two zeros are
equal, and nothing reaches a threshold that is not a number. -/
def reaches (speed : Float) (t : Threshold) : Bool := t.minSpeed ≤ countedSpeed speed

/-- The depth at a speed: that of the last threshold reached, or the larger bound below the first
one, kept between the bounds. -/
def depthForSpeed (s : Settings) (speed : Float) : Nat :=
  let reached := (s.thresholds.takeWhile (reaches speed)).getLast?
  let depth := (reached.map Threshold.depth).getD s.upperBound
  max s.lowerBound (min depth s.upperBound)

theorem depthForSpeed_pos (s : Settings) (speed : Float) : 0 < s.depthForSpeed speed := by
  have := s.lowerBound_pos
  simp only [depthForSpeed]
  omega

theorem depthForSpeed_le (s : Settings) (speed : Float) : s.depthForSpeed speed ≤ maxDepth := by
  have := s.upperBound_le
  have := s.lowerBound_le_upperBound
  simp only [depthForSpeed]
  omega

end Settings

end Geotile
