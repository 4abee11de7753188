/-
**The fewest decimal digits that name a double.**

A decimal names a double when the double is the one nearest to it.  Among the decimals that name
a given double there is a smallest number of digits; of those with that many digits the nearest is
taken.  The reals that a double is nearest to form an interval around it that reaches half way to
the doubles next to it, the ends included exactly when its significand is even.

For each number of digits it is enough to look at the two decimals next to the value itself: if
any decimal of that length lies in the interval, one of these two does.

Main definitions:

* `Geotile.Decimal.Digits` — a whole number times a power of ten;
* `Geotile.Decimal.Tie` — which of two equally near decimals is taken;
* `Geotile.Decimal.shortest` — the shortest decimal that names a double;
* `Geotile.Decimal.plain` — that decimal written without an exponent;
* `Geotile.Decimal.scientific` — that decimal with an exponent where it is very large or small.
-/

import Geotile.Number.Fixed

set_option autoImplicit false

namespace Geotile.Decimal

/-- The number `digits * 10 ^ exponent`. -/
structure Digits where
  /-- The digits as a whole number. -/
  digits : Nat
  /-- The power of ten of the last digit. -/
  exponent : Int
  deriving DecidableEq

/-- Which of two equally near decimals is taken. -/
inductive Tie where
  /-- The larger one. -/
  | up
  /-- The one with an even last digit. -/
  | even
  deriving DecidableEq

/-- The number without zeros at its end. -/
def Digits.trimmed (d : Digits) : Digits := trim (toString d.digits).length d
where
  /-- At most so many zeros taken away. -/
  trim : Nat → Digits → Digits
    | 0, d => d
    | n + 1, d =>
      if d.digits ≠ 0 ∧ d.digits % 10 = 0 then trim n ⟨d.digits / 10, d.exponent + 1⟩ else d

/-- The interval of the reals nearest to one double. -/
structure Cover where
  /-- The double, in quarters of a quantum. -/
  value : Nat
  /-- The lower end, in quarters of a quantum. -/
  low : Nat
  /-- The upper end, in quarters of a quantum. -/
  high : Nat
  /-- Whether the ends belong to it. -/
  closed : Bool

/-- The interval around a positive number of quanta that a double can hold. -/
def Cover.of (n : Nat) : Cover :=
  let shift := Binary64.bitLength n - 53
  let above := 1 <<< shift
  -- below a power of two the doubles lie twice as close, except among the smallest ones
  let below := if 0 < shift && n == 4503599627370496 <<< shift then 1 <<< (shift - 1) else above
  { value := 4 * n
    low := 4 * n - 2 * below
    high := 4 * n + 2 * above
    closed := (n >>> shift) % 2 == 0 }

/-- The power of ten of the first digit of a positive quotient. -/
def leadingExponent (num den : Nat) : Int :=
  if den ≤ num then (toString (num / den)).length - 1 else -(search 400 1 (num * 10))
where
  /-- The first power of ten that brings the quotient to one or above. -/
  search : Nat → Nat → Nat → Int
    | 0, j, _ => j
    | n + 1, j, scaled => if den ≤ scaled then j else search n (j + 1) (scaled * 10)

/-- The nearest decimal with a given last power of ten, when it lies in the interval. -/
def nearestWithin (tie : Tie) (cover : Cover) (exponent : Int) : Option Digits :=
  let up := powTen (-exponent).toNat
  let unit := 4 * Binary64.one * powTen exponent.toNat
  let inside (c : Nat) : Bool :=
    if cover.closed then cover.low * up ≤ c * unit && c * unit ≤ cover.high * up
    else cover.low * up < c * unit && c * unit < cover.high * up
  let under := cover.value * up / unit
  let rest := 2 * (cover.value * up % unit)
  let preferUpper :=
    unit < rest || (rest == unit && (match tie with | .up => true | .even => under % 2 == 1))
  let first := if preferUpper then under + 1 else under
  let second := if preferUpper then under else under + 1
  if inside first then some ⟨first, exponent⟩
  else if inside second then some ⟨second, exponent⟩
  else none

/-- The shortest decimal that names a positive number of quanta. -/
def shortest (tie : Tie) (n : Nat) : Digits :=
  let cover := Cover.of n
  let lead := leadingExponent n Binary64.one
  let found := (List.range 17).findSome? fun k : Nat => nearestWithin tie cover (lead - k)
  (found.getD ⟨n, 0⟩).trimmed

/-! ### Layouts -/

/-- The digits with as many zeros or places as the exponent asks for; a whole number gets no
point. -/
def positional (d : Digits) : String :=
  if 0 ≤ d.exponent then toString (d.digits * powTen d.exponent.toNat)
  else
    let places := (-d.exponent).toNat
    toString (d.digits / powTen places) ++ "." ++ padded places (d.digits % powTen places)

/-- A double in its fewest digits without an exponent; a whole number gets no point. -/
def plain (x : Float) : String :=
  match Binary64.magnitude? x with
  | none => notFinite x
  | some 0 => signText x ++ "0"
  | some n => signText x ++ positional (shortest .up n)

/-- The first digit, a point before the others, and the exponent of the first digit. -/
def withExponent (d : Digits) : String :=
  let digits := toString d.digits
  let exponent := d.exponent + digits.length - 1
  let rest := String.ofList (digits.toList.drop 1)
  let mantissa := String.ofList (digits.toList.take 1) ++ (if rest = "" then "" else "." ++ rest)
  mantissa ++ "e" ++ toString exponent

/-- A finite double in its fewest digits: positional, with a point, from a hundred-thousandth up
to ten quadrillion, and with an exponent outside. -/
def scientific (x : Float) : String :=
  match Binary64.magnitude? x with
  | none => "null"
  | some 0 => signText x ++ "0.0"
  | some n =>
    let d := shortest .even n
    let point := d.exponent + (toString d.digits).length
    signText x ++
      if -5 < point && point ≤ 16 then
        if 0 ≤ d.exponent then positional d ++ ".0" else positional d
      else withExponent d

end Geotile.Decimal
