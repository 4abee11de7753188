/-
**Doubles as whole numbers of quanta.**

Every finite double is a whole multiple of the smallest positive one, `2 ^ (-1074)`; that many
*quanta* are its exact value.  Sums of doubles are exact in quanta before they are rounded, and so
are remainders, so the arithmetic that has to be exact is done on integers: a double is decoded,
whole numbers of quanta are combined, and the result is rounded to the nearest whole number of
quanta that a double can hold, a tie going to the even significand.

Main definitions:

* `Geotile.Binary64.quanta?` — the exact value of a finite double, in quanta;
* `Geotile.Binary64.nearestQuotient` — a quotient rounded to what a double can hold;
* `Geotile.Binary64.round`, `Geotile.Binary64.ofQuanta` — rounding a whole number of quanta, and
  the double with that value;
* `Geotile.Binary64.mulAdd` — a product and a sum rounded once;
* `Geotile.Binary64.isNegative`, `Geotile.Binary64.rank` — the sign, and the place of a double in
  the order from negative to positive infinity and then the one not-a-number.

Main results:

* `Geotile.Binary64.roundDiv_le`, `Geotile.Binary64.le_roundDiv` — a quotient is rounded to one of
  the two whole numbers next to it.
-/

set_option autoImplicit false

namespace Geotile.Binary64

/-! ### Rounding quotients -/

/-- The whole number nearest to a quotient, a tie going to the even one. -/
def roundDiv (num den : Nat) : Nat :=
  let q := num / den
  let twice := 2 * (num % den)
  if twice < den then q else if den < twice then q + 1 else q + q % 2

theorem le_roundDiv (num den : Nat) : num / den ≤ roundDiv num den := by
  simp only [roundDiv]
  split
  · omega
  · split <;> omega

theorem roundDiv_le (num den : Nat) : roundDiv num den ≤ num / den + 1 := by
  simp only [roundDiv]
  split
  · omega
  · split <;> omega

/-- The number of binary digits. -/
def bitLength (n : Nat) : Nat := if n = 0 then 0 else n.log2 + 1

/-- The number of quanta that a double can hold nearest to a quotient: fifty-three binary digits
are kept, a tie going to the even one. -/
def nearestQuotient (num den : Nat) : Nat :=
  let low := bitLength (num / den) - 53
  roundDiv num (den <<< low) <<< low

/-- The number of quanta that a double can hold nearest to a given one. -/
def round (n : Int) : Int :=
  let size := nearestQuotient n.natAbs 1
  if n < 0 then -(size : Int) else size

/-! ### Doubles and their quanta -/

/-- The number of quanta in one. -/
def one : Nat := 1 <<< 1074

/-- Whether the sign of a double is negative; negative zero is. -/
def isNegative (x : Float) : Bool := 9223372036854775808 ≤ x.toBits.toNat

/-- The number of quanta in the size of a finite double. -/
def magnitude? (x : Float) : Option Nat :=
  let n := x.toBits.toNat % 9223372036854775808
  let exponent := n / 4503599627370496
  let fraction := n % 4503599627370496
  if exponent = 2047 then none
  else if exponent = 0 then some fraction
  else some ((4503599627370496 + fraction) <<< (exponent - 1))

/-- The exact value of a finite double, in quanta. -/
def quanta? (x : Float) : Option Int :=
  (magnitude? x).map fun n => if isNegative x then -(n : Int) else n

/-- The double with a sign and a size in quanta that a double can hold; above them all,
infinity. -/
def ofMagnitude (negative : Bool) (n : Nat) : Float :=
  let shift := bitLength n - 53
  let bits := min ((shift <<< 52) + (n >>> shift)) 9218868437227405312
  .ofBits (.ofNat (if negative then bits + 9223372036854775808 else bits))

/-- The double with a value in quanta that a double can hold. -/
def ofQuanta (n : Int) : Float := ofMagnitude (n < 0) n.natAbs

/-- The double nearest to `a * b + c`, rounded once and not after the product as well.  A product
of quanta counts in units `one` times smaller than a quantum, so `c` is brought to those before the
sum is rounded back to quanta.  Not-a-number unless all three are finite. -/
def mulAdd (a b c : Float) : Float :=
  match quanta? a, quanta? b, quanta? c with
  | some a, some b, some c =>
    let sum := a * b + c * one
    ofMagnitude (sum < 0) (nearestQuotient sum.natAbs one)
  | _, _, _ => .ofBits 0x7FF8000000000000

/-! ### Order -/

/-- The place of a double in the order of all doubles: negative infinity, negative numbers,
negative zero, zero, positive numbers, infinity, not-a-number.  `Float` has one not-a-number, and
its sign bit is clear.  Those with the sign bit, which a total order of bit patterns puts before
negative infinity, are left out. -/
def rank (x : Float) : Int :=
  let n := x.toBits.toNat
  if 9223372036854775808 ≤ n then -((n - 9223372036854775808 : Nat) : Int) - 1 else n

end Geotile.Binary64
