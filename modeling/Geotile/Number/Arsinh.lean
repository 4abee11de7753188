/-
**The inverse hyperbolic sine of a double.**

The inverse hyperbolic sine of `x` is `log (x + sqrt (x² + 1))`.  Taken like that it loses digits
near zero, where the logarithm is one of nearly one, so each range of sizes has a form of its own:

* up to two it is `log (1 + y)` with `y = x + x² / (1 + sqrt (1 + x²))`, where `log (1 + y)` is
  computed without forming `1 + y` first;
* above two it is `log (2 x + 1 / (sqrt (x² + 1) + x))`;
* above `2 ^ 28` the second term is lost, and it is `log x + log 2`.

The logarithm of `1 + y` writes it as a power of two times `1 + f` with `f` near zero, and takes
`log (1 + f)` from a polynomial in `s = f / (2 + f)`, for which
`log (1 + f) = 2 s + 2 s³ / 3 + 2 s⁵ / 5 + …`.  A product that is only a term of a sum is not
rounded before it is added, as on a processor that multiplies and adds in one step; the last digit
of the logarithm depends on which products these are.

How precise an inverse hyperbolic sine has to be is left open, and this is one admissible way to
compute it: another one may differ in the last digits.  No proof about tiles looks into it, so they
hold whichever is used.

Main definitions:

* `Geotile.Binary64.logOnePlus` — `log (1 + y)` for `y` not negative;
* `Geotile.Binary64.arsinh` — the inverse hyperbolic sine.
-/

import Geotile.Number.Binary64

set_option autoImplicit false

namespace Geotile.Binary64

/-! ### Logarithm near one -/

/-- The upper and the lower part of the logarithm of two. -/
def logTwo : Float × Float := (6.93147180369123816490e-01, 1.90821492927058770002e-10)

/-- What the polynomial adds to `2 s`, divided by `s`, where `z` is the square of `s`. -/
def logSeries (z : Float) : Float :=
  let z2 := z * z
  let z4 := z2 * z2
  let z6 := z4 * z2
  let r2 := mulAdd z 2.857142874366239149e-01 3.999999999940941908e-01
  let r3 := mulAdd z 1.818357216161805012e-01 2.222219843214978396e-01
  let r4 := mulAdd z 1.479819860511658591e-01 1.531383769920937332e-01
  mulAdd z6 r4 (mulAdd z4 r3 (mulAdd z 6.666666666666735130e-01 (z2 * r2)))

/-- The logarithm of `2 ^ k * (1 + f) + c`, where `c` is a correction in the last digits. -/
def logReduced (k : Int) (f c : Float) : Float :=
  let n := Float.ofInt k
  let half := 0.5 * f * f
  let s := f / (2.0 + f)
  let rest := s * (half + logSeries (s * s))
  if k = 0 then f - (half - rest)
  else n * logTwo.1 - ((half - (rest + mulAdd n logTwo.2 c)) - f)

/-- The logarithm of `2 ^ k * (1 + f) + c` where `f` is so small that its cube is the last power
that counts. -/
def logNearPower (k : Int) (f c : Float) : Float :=
  let n := Float.ofInt k
  if f == 0.0 then n * logTwo.1 + mulAdd n logTwo.2 c
  else
    let r := 0.5 * f * f * mulAdd (-0.66666666666666666) f 1.0
    n * logTwo.1 - ((r - mulAdd n logTwo.2 c) - f)

/-- `log (1 + y)` for a number that is not negative. -/
def logOnePlus (y : Float) : Float :=
  if !y.isFinite then y
  else if y < Float.ofBits 0x3C90000000000000 then y
  else if y < Float.ofBits 0x3E20000000000000 then y - y * y * 0.5
  else if y < Float.ofBits 0x3FDA827A00000000 then logReduced 0 y 0.0
  else
    let small := y < Float.ofBits 0x4340000000000000
    -- what is lost in rounding `1 + y` is kept, relative to it, as the correction `c`
    let u := if small then 1.0 + y else y
    let bits := u.toBits
    let exponent := ((bits >>> 52).toNat : Int) - 1023
    let c := if !small then 0.0 else if 0 < exponent then 1.0 - (u - y) else y - (u - 1.0)
    let c := c / u
    let fraction := bits &&& 0xFFFFFFFFFFFFF
    let leading := fraction >>> 32
    -- above the square root of two the next power of two is the nearer one
    let lower := leading < 0x6A09E
    let k := if lower then exponent else exponent + 1
    let scale : UInt64 := if lower then 0x3FF0000000000000 else 0x3FE0000000000000
    let f := Float.ofBits (fraction ||| scale) - 1.0
    if leading = 0 || 0xFFFFC < leading then logNearPower k f c else logReduced k f c

/-! ### Inverse hyperbolic sine -/

/-- The inverse hyperbolic sine of a number that is not negative. -/
def arsinhOfPositive (a : Float) : Float :=
  if a < Float.ofBits 0x3E30000000000000 then a
  else if a < Float.ofBits 0x4000000100000000 then
    let square := a * a
    logOnePlus (a + square / (1.0 + Float.sqrt (1.0 + square)))
  else if a < Float.ofBits 0x41B0000100000000 then
    Float.log (2.0 * a + 1.0 / (Float.sqrt (a * a + 1.0) + a))
  else Float.log a + 6.93147180559945286227e-01

/-- The inverse hyperbolic sine: an odd function. -/
def arsinh (x : Float) : Float :=
  let size := arsinhOfPositive x.abs
  if isNegative x then -size else size

end Geotile.Binary64
