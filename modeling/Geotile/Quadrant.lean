/-
**The four quadrants of a tile.**

A square tile of the map is cut into four quadrants, and a path from the whole map down to one
tile is a list of them.  A quadrant is named by two halves, northern or southern and western or
eastern.  Its number reads the southern half as two and the eastern half as one, so the quadrants
come in the order north-west, north-east, south-west, south-east, numbered `0` to `3`; the digit
of a quadrant is that number.

Main definitions:

* `Geotile.Axis` — the two axes of the map, rows and columns;
* `Geotile.Quadrant`, `Geotile.Quadrant.all` — the four quadrants, and their list in order;
* `Geotile.Quadrant.isFar`, `Geotile.Quadrant.flip` — the half on one axis, and the quadrant on
  the other half of that axis;
* `Geotile.Quadrant.number`, `Geotile.Quadrant.ofNumber?` — a quadrant as a number below four;
* `Geotile.Quadrant.digit`, `Geotile.Quadrant.ofDigit?` — a quadrant as a character.

Main results:

* `Geotile.Quadrant.ofNumber?_eq_some_iff`, `Geotile.Quadrant.ofDigit?_eq_some_iff` — reading a
  number or a digit accepts exactly what writing produces.
-/

set_option autoImplicit false

namespace Geotile

/-- The axes of the map: rows are counted southward and columns eastward. -/
inductive Axis where
  | row
  | column
  deriving DecidableEq

/-- A quarter of a tile. -/
inductive Quadrant where
  | northWest
  | northEast
  | southWest
  | southEast
  deriving DecidableEq, Inhabited

namespace Quadrant

/-- The quadrants in the order of their numbers. -/
def all : List Quadrant := [northWest, northEast, southWest, southEast]

@[simp] theorem mem_all (q : Quadrant) : q ∈ all := by cases q <;> decide

@[simp] theorem length_all : all.length = 4 := rfl

theorem nodup_all : all.Nodup := by decide

/-! ### Halves -/

/-- The quadrant in the given halves of the two axes. -/
def ofHalves : (south east : Bool) → Quadrant
  | false, false => northWest
  | false, true => northEast
  | true, false => southWest
  | true, true => southEast

/-- Whether the quadrant lies in the far half of an axis: the southern half of the rows, the
eastern half of the columns. -/
def isFar : Axis → Quadrant → Bool
  | .row, northWest | .row, northEast => false
  | .row, southWest | .row, southEast => true
  | .column, northWest | .column, southWest => false
  | .column, northEast | .column, southEast => true

@[simp] theorem isFar_row_ofHalves (s e : Bool) : (ofHalves s e).isFar .row = s := by
  cases s <;> cases e <;> rfl

@[simp] theorem isFar_column_ofHalves (s e : Bool) : (ofHalves s e).isFar .column = e := by
  cases s <;> cases e <;> rfl

/-- A quadrant is determined by its two halves. -/
@[simp] theorem ofHalves_isFar (q : Quadrant) :
    ofHalves (q.isFar .row) (q.isFar .column) = q := by cases q <;> rfl

/-- The quadrant in the other half of one axis. -/
def flip (axis : Axis) (q : Quadrant) : Quadrant :=
  match axis with
  | .row => ofHalves (!q.isFar .row) (q.isFar .column)
  | .column => ofHalves (q.isFar .row) (!q.isFar .column)

@[simp] theorem flip_flip (axis : Axis) (q : Quadrant) : (q.flip axis).flip axis = q := by
  cases axis <;> cases q <;> rfl

@[simp] theorem isFar_flip (axis : Axis) (q : Quadrant) :
    (q.flip axis).isFar axis = !q.isFar axis := by
  cases axis <;> cases q <;> rfl

/-! ### Numbers -/

/-- The number of a quadrant: two for the southern half, one for the eastern half. -/
def number : Quadrant → Nat
  | northWest => 0
  | northEast => 1
  | southWest => 2
  | southEast => 3

theorem number_lt (q : Quadrant) : q.number < 4 := by cases q <;> decide

theorem number_inj {p q : Quadrant} : p.number = q.number ↔ p = q := by
  cases p <;> cases q <;> decide

/-- The quadrant with a given number. -/
def ofNumber? : Nat → Option Quadrant
  | 0 => some northWest
  | 1 => some northEast
  | 2 => some southWest
  | 3 => some southEast
  | _ => none

@[simp] theorem ofNumber?_number (q : Quadrant) : ofNumber? q.number = some q := by
  cases q <;> rfl

/-- A number is that of a quadrant exactly when reading it gives the quadrant. -/
theorem ofNumber?_eq_some_iff {n : Nat} {q : Quadrant} : ofNumber? n = some q ↔ n = q.number := by
  constructor
  · intro h
    unfold ofNumber? at h
    split at h <;> first | (cases h; rfl) | cases h
  · rintro rfl
    exact ofNumber?_number q

/-! ### Digits -/

/-- The digit of a quadrant. -/
def digit : Quadrant → Char
  | northWest => '0'
  | northEast => '1'
  | southWest => '2'
  | southEast => '3'

/-- The quadrant with a given digit. -/
def ofDigit? (c : Char) : Option Quadrant :=
  if c = '0' then some northWest
  else if c = '1' then some northEast
  else if c = '2' then some southWest
  else if c = '3' then some southEast
  else none

@[simp] theorem ofDigit?_digit (q : Quadrant) : ofDigit? q.digit = some q := by
  cases q <;> decide

/-- A character is the digit of a quadrant exactly when reading it gives the quadrant. -/
theorem ofDigit?_eq_some_iff {c : Char} {q : Quadrant} : ofDigit? c = some q ↔ c = q.digit := by
  constructor
  · intro h
    unfold ofDigit? at h
    repeat' split at h
    all_goals first | (cases h; assumption) | cases h
  · rintro rfl
    exact ofDigit?_digit q

theorem digit_inj {p q : Quadrant} : p.digit = q.digit ↔ p = q := by
  cases p <;> cases q <;> decide

end Quadrant

end Geotile
