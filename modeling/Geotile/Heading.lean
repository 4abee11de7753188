/-
**The eight headings of the compass.**

From a tile one can move to the eight tiles around it.  A heading is a shift of the row and a
shift of the column, not both of them zero; rows are counted southward, so north is one row back.

Main definitions:

* `Geotile.Shift` — one back, none, or one ahead on an axis;
* `Geotile.Shift.strip` — the rows or columns of a tile that touch the tile it was reached from;
* `Geotile.Heading`, `Geotile.Heading.all` — the eight headings, row by row from the north-west;
* `Geotile.Heading.rowShift`, `Geotile.Heading.columnShift`, `Geotile.Heading.opposite`;
* `Geotile.Heading.label`, `Geotile.Heading.ofLabel?` — the short compass names.

Main results:

* `Geotile.Heading.rowShift_opposite`, `Geotile.Heading.columnShift_opposite` — the opposite
  heading undoes the shifts;
* `Geotile.Heading.ofLabel?_label` — a heading is read back from its label.
-/

import Geotile.Quadrant

set_option autoImplicit false

namespace Geotile

/-- A move of at most one tile on an axis. -/
inductive Shift where
  | back
  | stay
  | ahead
  deriving DecidableEq

namespace Shift

/-- The shift as a number. -/
def offset : Shift → Int
  | back => -1
  | stay => 0
  | ahead => 1

/-- The shift the other way. -/
def reverse : Shift → Shift
  | back => ahead
  | stay => stay
  | ahead => back

/-- The rows, or columns, of a grid of the given side laid over the tile reached by a shift that
touch the tile left behind: after a move back the last one, after a move ahead the first one, and
all of them after none. -/
def strip (side : Nat) : Shift → List Nat
  | back => [side - 1]
  | stay => List.range side
  | ahead => [0]

@[simp] theorem offset_reverse (s : Shift) : s.reverse.offset = -s.offset := by
  cases s <;> rfl

end Shift

/-- A heading of the compass. -/
inductive Heading where
  | northWest
  | north
  | northEast
  | west
  | east
  | southWest
  | south
  | southEast
  deriving DecidableEq

namespace Heading

/-- The headings, row by row from the north-west. -/
def all : List Heading :=
  [northWest, north, northEast, west, east, southWest, south, southEast]

@[simp] theorem mem_all (h : Heading) : h ∈ all := by cases h <;> decide

/-- The place of a heading in the list of all. -/
def place (h : Heading) : Nat := all.idxOf h

/-- The shift of the row. -/
def rowShift : Heading → Shift
  | northWest | north | northEast => .back
  | west | east => .stay
  | southWest | south | southEast => .ahead

/-- The shift of the column. -/
def columnShift : Heading → Shift
  | northWest | west | southWest => .back
  | north | south => .stay
  | northEast | east | southEast => .ahead

/-- The heading that leads back. -/
def opposite : Heading → Heading
  | northWest => southEast
  | north => south
  | northEast => southWest
  | west => east
  | east => west
  | southWest => northEast
  | south => north
  | southEast => northWest

@[simp] theorem opposite_opposite (h : Heading) : h.opposite.opposite = h := by cases h <;> rfl

@[simp] theorem rowShift_opposite (h : Heading) : h.opposite.rowShift = h.rowShift.reverse := by
  cases h <;> rfl

@[simp] theorem columnShift_opposite (h : Heading) :
    h.opposite.columnShift = h.columnShift.reverse := by cases h <;> rfl

/-! ### Names -/

/-- The short compass name. -/
def label : Heading → String
  | northWest => "NW"
  | north => "N"
  | northEast => "NE"
  | west => "W"
  | east => "E"
  | southWest => "SW"
  | south => "S"
  | southEast => "SE"

/-- The full compass name. -/
def name : Heading → String
  | northWest => "NorthWest"
  | north => "North"
  | northEast => "NorthEast"
  | west => "West"
  | east => "East"
  | southWest => "SouthWest"
  | south => "South"
  | southEast => "SouthEast"

/-- The heading with a given short name. -/
def ofLabel? (s : String) : Option Heading := all.find? fun h => h.label == s

/-- A heading is read back from its label. -/
@[simp] theorem ofLabel?_label (h : Heading) : ofLabel? h.label = some h := by
  cases h <;> decide

end Heading

end Geotile
