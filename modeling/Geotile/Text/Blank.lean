/-
**Blank characters.**

The characters with the Unicode property of white space: the five controls from tab to carriage
return, the space, and the wider and narrower spaces and line ends of the later blocks.

Main definitions:

* `Geotile.Text.isBlank` — white space;
* `Geotile.Text.trimBlank` — a text without white space at its two ends.
-/

import Geotile.Text.Split

set_option autoImplicit false

namespace Geotile.Text

/-- Whether a character has the Unicode property of white space. -/
def isBlank (c : Char) : Bool :=
  let n := c.toNat
  (9 ≤ n && n ≤ 13) || n == 32 || n == 0x85 || n == 0xA0 || n == 0x1680
    || (0x2000 ≤ n && n ≤ 0x200A) || n == 0x2028 || n == 0x2029 || n == 0x202F || n == 0x205F
    || n == 0x3000

/-- The text without white space at its two ends. -/
def trimBlank (cs : List Char) : List Char := trim isBlank cs

end Geotile.Text
