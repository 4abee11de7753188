/-
**Splitting a tile and an area.**

A tile can be split into all tiles inside it at a deeper level, which is asked for either as a
depth or as a number of further levels.  Shortening or splitting every member does the same to an
area.

Main definitions:

* `Geotile.SplitError` — why a split is refused;
* `Geotile.Tile.split`, `Geotile.Tile.splitTo`, `Geotile.Tile.splitBy` — a tile as the area of its
  parts;
* `Geotile.Area.shorten`, `Geotile.Area.splitBy` — the same on every member of an area.
-/

import Geotile.Area.Basic
import Geotile.Tile.Descend

set_option autoImplicit false

namespace Geotile

/-- Why a split is refused. -/
inductive SplitError where
  /-- Both a depth and a number of levels are given. -/
  | both
  /-- Neither a depth nor a number of levels is given. -/
  | neither
  /-- The number of further levels is zero. -/
  | noLevels
  /-- The depth asked for is above the tile. -/
  | shallower (tile : Tile) (target : Nat)
  /-- The depth asked for is below the deepest level. -/
  | tooDeep (target : Nat)
  deriving DecidableEq

namespace SplitError

/-- The reason in words. -/
def reason : SplitError → String
  | both => "give either target_depth or extra_depth, not both"
  | neither => "one of target_depth or extra_depth is required"
  | noLevels => "extra_depth must be positive"
  | shallower t target =>
    "cannot split " ++ t.text ++ " (depth " ++ toString t.depth ++ ") to shallower depth "
      ++ toString target
  | tooDeep target => "depth " ++ toString target ++ " exceeds maximum 32"

/-- The whole message. -/
def message (e : SplitError) : String := "Invalid depth request: " ++ e.reason

end SplitError

namespace Tile

/-- The parts of a tile at a depth. -/
def splitTo (t : Tile) (target : Nat) : Except SplitError Area :=
  if target < t.depth then .error (.shallower t target)
  else if deep : maxDepth < target then .error (.tooDeep target)
  else
    .ok <| .ofList <| t.descendants (target - t.depth) (by
      have := t.depth_le
      omega)

/-- The parts of a tile a number of levels further down. -/
def splitBy (t : Tile) (extra : Nat) : Except SplitError Area :=
  if extra = 0 then .error .noLevels else t.splitTo (t.depth + extra)

/-- The parts of a tile, at a depth or a number of levels further down; exactly one of the two is
to be given. -/
def split (t : Tile) : (target extra : Option Nat) → Except SplitError Area
  | some _, some _ => .error .both
  | none, none => .error .neither
  | some target, none => t.splitTo target
  | none, some extra => t.splitBy extra

end Tile

namespace Area

/-- Every member shortened as a selector asks. -/
def shorten (a : Area) (selector : Int) : Area := ofList (a.tiles.map fun t => t.shorten selector)

/-- Every member split by a number of further levels. -/
def splitBy (a : Area) (extra : Nat) : Except SplitError Area :=
  (a.tiles.mapM (Tile.splitBy · extra)).map fun parts => ofList (parts.flatMap tiles)

end Area

end Geotile
