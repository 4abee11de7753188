/-
**Positions and the tiles they fall into.**

The map is the square Web Mercator map.  A position has its longitude wrapped to less than one
turn and its latitude clamped to the edge of the map, so that every finite position falls into a
tile.  The fractions of the map to the west and to the north of the position do not depend on the
zoom; scaling them to a grid, cutting off what is left of a cell and keeping the result inside the
grid is exact, so the tile at a smaller depth contains the tile at a greater one.

Main definitions:

* `Geotile.Position`, `Geotile.PositionError` — a latitude and a longitude, and why they fall into
  no tile;
* `Geotile.wrapQuanta`, `Geotile.wrapLongitude`, `Geotile.clampLatitude` — longitudes within one
  turn, latitudes within the map;
* `Geotile.Position.westFraction`, `Geotile.Position.northFraction` — the fractions of the map
  before the position;
* `Geotile.scaledIndex`, `Geotile.gridIndex` — the row or column at a fraction;
* `Geotile.Position.cell`, `Geotile.Tile.atPosition` — the cell and the tile of a position;
* `Geotile.Cell.corner`, `Geotile.Cell.center`, `Geotile.Tile.center` — positions on a cell.

Main results:

* `Geotile.scaledIndex_lt`, `Geotile.gridIndex_lt` — a scaled fraction lies inside the grid.
-/

import Geotile.Number.Arsinh
import Geotile.Number.Shortest
import Geotile.Tile.Cell

set_option autoImplicit false

namespace Geotile

/-- A latitude and a longitude in degrees, northward and eastward. -/
structure Position where
  /-- Degrees north of the equator. -/
  lat : Float
  /-- Degrees east of the prime meridian. -/
  lon : Float

namespace Position

/-- Whether both numbers are finite. -/
def isFinite (p : Position) : Bool := p.lat.isFinite && p.lon.isFinite

end Position

/-- Why a position falls into no tile. -/
inductive PositionError where
  /-- A coordinate is infinite or not a number. -/
  | notFinite (position : Position)
  /-- The zoom is no level of the tree. -/
  | badZoom (zoom : Nat)

namespace PositionError

/-- The reason in words. -/
def reason : PositionError → String
  | notFinite p =>
    "Non-finite coordinate: (" ++ Decimal.plain p.lat ++ ", " ++ Decimal.plain p.lon ++ ")"
  | badZoom zoom => "Invalid zoom level: " ++ toString zoom ++ " (must be between 1 and 32)"

/-- The whole message, where a tile was asked for. -/
def message (e : PositionError) : String := PathError.about e.reason

end PositionError

/-! ### Longitudes within one turn, latitudes within the map -/

/-- A half turn, in quanta of degrees. -/
def halfTurn : Int := 180 * Binary64.one

/-- A whole turn, in quanta of degrees. -/
def turn : Int := 360 * Binary64.one

/-- A longitude brought to within a half turn of zero.  The half turn added first is taken off
again last, every sum is rounded to what a double can hold, and the remainder by a whole turn is
exact. -/
def wrapQuanta (lon : Int) : Int :=
  -- the remainder has the sign of the sum, so a negative one is moved up by a turn
  let rest := (Binary64.round (lon + halfTurn)).tmod turn
  let within := if rest < 0 then Binary64.round (rest + turn) else rest
  Binary64.round (within - halfTurn)

/-- A longitude brought to within a half turn of zero; what is not finite is no longitude. -/
def wrapLongitude (lon : Float) : Float :=
  match Binary64.quanta? lon with
  | some q => Binary64.ofQuanta (wrapQuanta q)
  | none => 0.0 / 0.0

/-- The latitude of the northern edge of the map. -/
def maxLatitude : Float := 85.05112878

/-- A latitude brought to within the map. -/
def clampLatitude (lat : Float) : Float :=
  if lat < -maxLatitude then -maxLatitude else if maxLatitude < lat then maxLatitude else lat

/-! ### Fractions of the map -/

/-- Half the circumference of the unit circle. -/
def pi : Float := 3.141592653589793

/-- The fraction of the map to the west of a position. -/
def Position.westFraction (p : Position) : Float := (wrapLongitude p.lon + 180.0) / 360.0

/-- The fraction of the map to the north of a position: half the map and what the stretched
latitude adds or takes off. -/
def Position.northFraction (p : Position) : Float :=
  let angle := clampLatitude p.lat * (pi / 180.0)
  (1.0 - Binary64.arsinh (Float.tan angle) / pi) / 2.0

/-- The row or column at a fraction of a grid, kept inside the grid. -/
def scaledIndex (num : Int) (den : Nat) (zoom : Nat) : Nat :=
  min (axisLength zoom - 1) (num * axisLength zoom / den).toNat

theorem scaledIndex_lt (num : Int) (den zoom : Nat) :
    scaledIndex num den zoom < axisLength zoom := by
  have := axisLength_pos zoom
  unfold scaledIndex
  omega

/-- The row or column at a fraction of a grid given as a double: what is not a number counts as
nothing, and infinity as everything. -/
def gridIndex (fraction : Float) (zoom : Nat) : Nat :=
  match Binary64.quanta? fraction with
  | some q => scaledIndex q Binary64.one zoom
  | none => if 0.0 < fraction then axisLength zoom - 1 else 0

theorem gridIndex_lt (fraction : Float) (zoom : Nat) :
    gridIndex fraction zoom < axisLength zoom := by
  have := axisLength_pos zoom
  unfold gridIndex
  split
  · exact scaledIndex_lt _ _ _
  · split <;> omega

/-! ### From positions to tiles -/

/-- The row of a position in the grid at a zoom. -/
def Position.row (p : Position) (zoom : Nat) : Nat := gridIndex p.northFraction zoom

/-- The column of a position in the grid at a zoom. -/
def Position.column (p : Position) (zoom : Nat) : Nat := gridIndex p.westFraction zoom

/-- The cell of a position in the grid at a zoom from one to thirty-two. -/
def Position.cell (p : Position) (zoom : Nat) : Except PositionError Cell :=
  if !p.isFinite then .error (.notFinite p)
  else if zoom = 0 ∨ maxDepth < zoom then .error (.badZoom zoom)
  else .ok ⟨p.row zoom, p.column zoom, zoom⟩

/-- The tile of a position at a depth from one to thirty-two. -/
def Tile.atPosition (p : Position) (depth : Nat) : Except PositionError Tile :=
  if !p.isFinite then .error (.notFinite p)
  else if h : depth = 0 ∨ maxDepth < depth then .error (.badZoom depth)
  else
    .ok <| ofQuadrants (Cell.path depth (p.row depth) (p.column depth))
      (by rw [Cell.length_path]; omega) (by rw [Cell.length_path]; omega)

/-! ### From cells to positions -/

/-- The position at a row and a column, counted with fractions, of the grid at a zoom. -/
def positionAt (row column : Float) (zoom : Nat) : Position :=
  let n := Float.ofNat (axisLength zoom)
  let y := row / n
  { lat := Float.atan (Float.sinh (pi * (1.0 - 2.0 * y))) * 57.29577951308232
    lon := column / n * 360.0 + -180.0 }

/-- The north-western corner of a cell. -/
def Cell.corner (c : Cell) : Position :=
  positionAt (Float.ofNat c.row) (Float.ofNat c.column) c.zoom

/-- The centre of a cell. -/
def Cell.center (c : Cell) : Position :=
  positionAt (Float.ofNat c.row + 0.5) (Float.ofNat c.column + 0.5) c.zoom

/-- The centre of a tile. -/
def Tile.center (t : Tile) : Position := t.cell.center

end Geotile
