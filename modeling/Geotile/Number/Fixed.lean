/-
**Doubles with a fixed number of decimal places.**

The exact value of the double is rounded once, to the nearest decimal with that many places, a tie
going to the even last digit.  The sign is kept when the digits are all zero.

Main definitions:

* `Geotile.Decimal.powTen` — powers of ten;
* `Geotile.Decimal.fixed` — the text of a double with a given number of places.
-/

import Geotile.Number.Binary64

set_option autoImplicit false

namespace Geotile.Decimal

/-- Ten to a power. -/
def powTen : Nat → Nat
  | 0 => 1
  | n + 1 => 10 * powTen n

/-- The text of what is no finite number. -/
def notFinite (x : Float) : String :=
  if x.isNaN then "NaN" else if Binary64.isNegative x then "-inf" else "inf"

/-- A sign where the number is negative, negative zero included. -/
def signText (x : Float) : String := if Binary64.isNegative x then "-" else ""

/-- A whole number filled up with zeros on the left. -/
def padded (width n : Nat) : String :=
  let digits := toString n
  String.ofList (List.replicate (width - digits.length) '0') ++ digits

/-- The text of a double with at least one decimal place. -/
def fixed (places : Nat) (x : Float) : String :=
  match Binary64.magnitude? x with
  | none => notFinite x
  | some n =>
    let scaled := Binary64.roundDiv (n * powTen places) Binary64.one
    signText x ++ toString (scaled / powTen places) ++ "."
      ++ padded places (scaled % powTen places)

end Geotile.Decimal
