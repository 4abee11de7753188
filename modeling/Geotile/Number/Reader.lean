/-
**Reading numbers from text.**

A decimal is an optional sign and then either a word for infinity or not-a-number, in any case, or
digits with at most one point, at least one digit among them, and an optional exponent.  Its value
is the double nearest to it; a decimal beyond all doubles is infinite.  A whole number is an
optional sign and digits.

Main definitions:

* `Geotile.Decimal.read?` — a double from text;
* `Geotile.Decimal.nearest` — the double nearest to a decimal;
* `Geotile.Decimal.readNat?`, `Geotile.Decimal.readInt?` — whole numbers from text.
-/

import Geotile.Number.Fixed
import Geotile.Text.Split

set_option autoImplicit false

namespace Geotile.Decimal

/-! ### Whole numbers -/

/-- Whether a character is a decimal digit of ASCII. -/
def isDigit (c : Char) : Bool := '0' ≤ c && c ≤ '9'

/-- The number that digits stand for, after a number that stands before them. -/
def natOfDigits (start : Nat) (cs : List Char) : Nat :=
  cs.foldl (fun n c => 10 * n + (c.toNat - 48)) start

/-- A number from one or more digits and nothing else. -/
def readDigits? (cs : List Char) : Option Nat :=
  if !cs.isEmpty && cs.all isDigit then some (natOfDigits 0 cs) else none

/-- A number from one or more digits, a plus sign being allowed before them. -/
def readNat? : List Char → Option Nat
  | '+' :: cs => readDigits? cs
  | cs => readDigits? cs

/-- A whole number from one or more digits, a sign being allowed before them. -/
def readInt? : List Char → Option Int
  | '-' :: cs => (readDigits? cs).map fun n => -(n : Int)
  | cs => (readNat? cs).map fun n => n

/-! ### Doubles -/

/-- The double nearest to `mantissa * 10 ^ exponent`.  Numbers whose first digit is far outside
the range of doubles are decided by the place of that digit. -/
def nearest (negative : Bool) (mantissa : Nat) (exponent : Int) : Float :=
  let place := exponent + (toString mantissa).length
  let size :=
    if mantissa = 0 || place < -400 then 0
    else if 400 < place then Binary64.one <<< 1024
    else
      Binary64.nearestQuotient (mantissa * powTen exponent.toNat * Binary64.one)
        (powTen (-exponent).toNat)
  Binary64.ofMagnitude negative size

/-- The exponent at the end of a decimal: nothing, or a mark, an optional sign and digits. -/
def readExponent? : List Char → Option Int
  | [] => some 0
  | c :: cs => if c = 'e' || c = 'E' then readInt? cs else none

/-- A double from a decimal without a sign. -/
def readUnsigned? (negative : Bool) (cs : List Char) : Option Float :=
  let word := String.ofList (cs.map Char.toLower)
  if word = "inf" || word = "infinity" then
    some (Binary64.ofMagnitude negative (Binary64.one <<< 1024))
  else if word = "nan" then some (0.0 / 0.0)
  else
    let whole := cs.takeWhile isDigit
    let rest := cs.dropWhile isDigit
    let (places, rest) :=
      match rest with
      | '.' :: rest => (rest.takeWhile isDigit, rest.dropWhile isDigit)
      | rest => ([], rest)
    if whole.isEmpty && places.isEmpty then none
    else
      (readExponent? rest).map fun e =>
        nearest negative (natOfDigits (natOfDigits 0 whole) places) (e - places.length)

/-- A double from text. -/
def read? : List Char → Option Float
  | '-' :: cs => readUnsigned? true cs
  | '+' :: cs => readUnsigned? false cs
  | cs => readUnsigned? false cs

end Geotile.Decimal
