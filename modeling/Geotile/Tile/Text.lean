/-
**Tiles as text.**

A tile is written as the digits of its quadrants, from the whole map down, and read from between
one and thirty-two of them.  Reading counts bytes before it looks at characters, so a text that is
too long is refused as too long whatever it holds.

Main definitions:

* `Geotile.PathError` — why a text, a list of numbers or a cell names no tile;
* `Geotile.Tile.digits`, `Geotile.Tile.text`, `Geotile.Tile.joined` — writing a tile, compact or
  with a separator between the digits;
* `Geotile.Tile.parse`, `Geotile.Tile.ofNumbers` — reading a tile from text and from numbers.

Main results:

* `Geotile.Tile.readEach_eq_ok_iff` — reading a list accepts exactly what writing produces.
-/

import Geotile.Text.Split
import Geotile.Tile.Basic

set_option autoImplicit false

namespace Geotile

/-- Why no tile could be named. -/
inductive PathError where
  /-- There are no digits. -/
  | empty
  /-- There are more digits than levels; the path is given as it is shown. -/
  | tooDeep (shown : String) (levels : Nat)
  /-- A character is no digit of a quadrant. -/
  | badDigit (text : String) (found : Char)
  /-- A number is not that of a quadrant. -/
  | badNumber (numbers : List Nat) (found : Nat)
  /-- A cell lies outside its grid. -/
  | outsideGrid (cell : Cell)
  deriving DecidableEq

namespace PathError

/-- A list of numbers between brackets. -/
def showNumbers (numbers : List Nat) : String :=
  "[" ++ String.intercalate ", " (numbers.map toString) ++ "]"

/-- The reason in words. -/
def reason : PathError → String
  | empty => "path is empty"
  | tooDeep shown levels => shown ++ " is " ++ toString levels ++ " levels deep (max 32)"
  | badDigit text found =>
    "'" ++ text ++ "' contains '" ++ String.singleton found ++ "' (digits must be 0-3)"
  | badNumber numbers found =>
    showNumbers numbers ++ " contains " ++ toString found ++ " (digits must be 0-3)"
  | outsideGrid cell => "tile " ++ cell.text ++ " is outside the grid"

/-- The message about a reason why no tile could be named. -/
def about (reason : String) : String := "Invalid quadkey path: " ++ reason

/-- The whole message. -/
def message (e : PathError) : String := about e.reason

end PathError

namespace Tile

/-! ### Writing -/

/-- The digits of a tile, from the whole map down. -/
def digits (t : Tile) : List Char := t.quadrants.map Quadrant.digit

/-- The digits of a tile as one text. -/
def text (t : Tile) : String := String.ofList t.digits

/-- The digits of a tile with a separator between two of them. -/
def joined (separator : String) (t : Tile) : String :=
  String.ofList (Text.join separator.toList (t.digits.map fun c => [c]))

instance : ToString Tile := ⟨text⟩

@[simp] theorem length_digits (t : Tile) : t.digits.length = t.depth := by simp [digits]

/-! ### Reading -/

/-- Reads each item of a list as a quadrant; the first that is none is the error. -/
def readEach {α : Type} (read : α → Option Quadrant) : List α → Except α (List Quadrant)
  | [] => .ok []
  | a :: as =>
    match read a with
    | none => .error a
    | some q =>
      match readEach read as with
      | .error e => .error e
      | .ok qs => .ok (q :: qs)

/-- Reading a list gives the quadrants exactly when the list is what they are written as. -/
theorem readEach_eq_ok_iff {α : Type} {read : α → Option Quadrant} {write : Quadrant → α}
    (inverse : ∀ {a q}, read a = some q ↔ a = write q) {as : List α} {qs : List Quadrant} :
    readEach read as = .ok qs ↔ as = qs.map write := by
  induction as generalizing qs with
  | nil => cases qs <;> simp [readEach]
  | cons a as ih =>
      cases hq : read a with
      | none =>
          cases qs with
          | nil => simp [readEach, hq]
          | cons q qs =>
              have : a ≠ write q := fun h => by simp [inverse.mpr h] at hq
              simp [readEach, hq, this]
      | some q' =>
          have ha : a = write q' := inverse.mp hq
          cases hr : readEach read as with
          | error e =>
              cases qs with
              | nil => simp [readEach, hq, hr]
              | cons q qs =>
                  have : as ≠ qs.map write := fun h => by simp [ih.mpr h] at hr
                  simp [readEach, hq, hr, this]
          | ok rs =>
              cases qs with
              | nil => simp [readEach, hq, hr]
              | cons q qs =>
                  have tail : rs = qs ↔ as = qs.map write := by rw [← ih, hr]; simp
                  have head : q' = q ↔ a = write q := by rw [← inverse, hq]; simp
                  simp [readEach, hq, hr, tail, head]

theorem length_of_readEach {α : Type} {read : α → Option Quadrant} {as : List α}
    {qs : List Quadrant} (h : readEach read as = .ok qs) : qs.length = as.length := by
  induction as generalizing qs with
  | nil =>
      simp only [readEach, Except.ok.injEq] at h
      simp [← h]
  | cons a as ih =>
      rw [readEach] at h
      split at h
      · cases h
      · split at h
        · cases h
        · next rs hr =>
            cases h
            simp [ih hr]

/-- Reads a tile from the text of its digits. -/
def parse (s : String) : Except PathError Tile :=
  let bytes := Text.byteLength s.toList
  if blank : bytes = 0 then .error .empty
  else if deep : maxDepth < bytes then .error (.tooDeep s bytes)
  else
    match h : readEach Quadrant.ofDigit? s.toList with
    | .error c => .error (.badDigit s c)
    | .ok qs =>
      .ok <| ofQuadrants qs
        (by
          rw [length_of_readEach h]
          exact List.length_pos_iff.mpr fun e => blank (Text.byteLength_eq_zero.mpr e))
        (by
          rw [length_of_readEach h]
          exact Nat.le_trans (Text.length_le_byteLength _) (Nat.le_of_not_lt deep))

/-- Reads a tile from the numbers of its quadrants. -/
def ofNumbers (numbers : List Nat) : Except PathError Tile :=
  if blank : numbers.length = 0 then .error .empty
  else if deep : maxDepth < numbers.length then
    .error (.tooDeep (PathError.showNumbers numbers) numbers.length)
  else
    match h : readEach Quadrant.ofNumber? numbers with
    | .error n => .error (.badNumber numbers n)
    | .ok qs =>
      .ok <| ofQuadrants qs
        (by rw [length_of_readEach h]; exact Nat.pos_of_ne_zero blank)
        (by rw [length_of_readEach h]; exact Nat.le_of_not_lt deep)

end Tile

end Geotile
