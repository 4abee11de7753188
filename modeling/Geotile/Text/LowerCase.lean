/-
**Lower-casing text.**

Every character is replaced by its lower-case letter, if it has one.  Two characters depend on
more than themselves: the capital I with a dot becomes a small i with a dot above it, two
characters; and the capital sigma becomes the final small sigma at the end of a word, that is,
after a letter and not before one, marks being passed over on both sides.

Main definitions:

* `Geotile.Text.lowerChar` — the lower-case letter of a character;
* `Geotile.Text.endsWord` — whether a letter stands before a place and none after it;
* `Geotile.Text.lowerCase` — the text in lower case.

Main results:

* `Geotile.Text.lowerCase_ne_nil` — a text does not vanish in lower case.
-/

import Geotile.Text.CaseTable

set_option autoImplicit false

namespace Geotile.Text

/-- Whether a code point lies in one of the ranges. -/
def inRanges (ranges : List (Nat × Nat)) (c : Char) : Bool :=
  ranges.any fun (first, last) => first ≤ c.toNat && c.toNat ≤ last

/-- The lower-case letter of a character, which is the character itself where there is none. -/
def lowerChar (c : Char) : Char :=
  let n := c.toNat
  let range := lowerRanges.find? fun (first, last, step, _) =>
    first ≤ n && n ≤ last && (n - first) % step == 0
  match range with
  | some (_, _, _, distance) => Char.ofNat (n + distance).toNat
  | none => c

/-- Whether the first character that is not passed over is a letter with case. -/
def startsWithLetter (cs : List Char) : Bool :=
  match cs.dropWhile (inRanges passedRanges) with
  | c :: _ => inRanges casedRanges c
  | [] => false

/-- Whether a place lies at the end of a word, given the text before it, last character first,
and the text after it. -/
def endsWord (before rest : List Char) : Bool := startsWithLetter before && !startsWithLetter rest

/-- The lower-case form of a text, given the text before it, last character first. -/
def lowerCaseAfter (before : List Char) : List Char → List Char
  | [] => []
  | c :: cs =>
    let lowered :=
      if c = 'Σ' then [if endsWord before cs then 'ς' else 'σ']
      else if c = 'İ' then ['i', Char.ofNat 0x307]
      else [lowerChar c]
    lowered ++ lowerCaseAfter (c :: before) cs

/-- The text in lower case. -/
def lowerCase (cs : List Char) : List Char := lowerCaseAfter [] cs

/-- A text does not vanish in lower case. -/
theorem lowerCase_ne_nil {cs : List Char} (h : cs ≠ []) : lowerCase cs ≠ [] := by
  cases cs with
  | nil => exact absurd rfl h
  | cons c cs =>
      rw [lowerCase, lowerCaseAfter]
      split
      · simp
      · split <;> simp

end Geotile.Text
