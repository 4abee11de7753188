/-
**Reports on tiles and areas.**

What the commands answer that look at tiles and areas: the tile of a position, the neighbours of a
tile, the parts of a tile, and the smallest form of an area with its ring.  Each report can be
written as plain text and as JSON.

Main definitions:

* `Geotile.Failure` — why a command has no answer;
* `Geotile.Encoding`, `Geotile.Surroundings`, `Geotile.Reduction` — the reports;
* `Geotile.Encoding.of`, `Geotile.Surroundings.of`, `Geotile.partsOf`, `Geotile.Reduction.of` —
  the reports on given inputs.
-/

import Geotile.Area.Optimise
import Geotile.Area.Ring
import Geotile.Area.Split
import Geotile.Position
import Geotile.Report.Json
import Geotile.Settings.Reader

set_option autoImplicit false

namespace Geotile

/-- Why a command has no answer. -/
inductive Failure where
  /-- No tile could be named. -/
  | path (cause : PathError)
  /-- A position falls into no tile. -/
  | position (cause : PositionError)
  /-- A split is refused. -/
  | split (cause : SplitError)
  /-- The settings are refused. -/
  | settings (cause : SettingsError)

/-- The message about a failure. -/
def Failure.message : Failure → String
  | path e => e.message
  | position e => e.message
  | split e => e.message
  | settings e => "Configuration error: " ++ e.reason

/-- Texts, one a line. -/
def asLines (texts : List String) : String := String.intercalate "\n" texts

/-! ### Areas -/

/-- The area whose members are given by their digits; the first text that is no tile is the
error. -/
def Area.parse (texts : List String) : Except PathError Area := (texts.mapM Tile.parse).map ofList

/-- The members, one a line. -/
def Area.lines (a : Area) : String := asLines a.texts

/-- The members as a list. -/
def Area.json (a : Area) : Json := .ofTexts a.texts

/-! ### The tile of a position -/

/-- A tile with its numbers. -/
structure Encoding where
  /-- The tile. -/
  tile : Tile
  /-- The cell that the tile fills. -/
  cell : Cell
  /-- The centre of the tile. -/
  center : Position

namespace Encoding

/-- The tile of a position at a depth. -/
def of (p : Position) (depth : Nat) : Except Failure Encoding :=
  match Tile.atPosition p depth with
  | .error e => .error (.position e)
  | .ok t => .ok ⟨t, t.cell, t.center⟩

/-- The report as plain text. -/
def text (e : Encoding) : String :=
  asLines
    [ e.tile.text,
      "  depth:  " ++ toString e.tile.depth,
      "  levels: " ++ e.tile.joined "/",
      "  tile:   row=" ++ toString e.cell.row ++ " col=" ++ toString e.cell.column,
      "  center: " ++ Decimal.fixed 7 e.center.lat ++ ", " ++ Decimal.fixed 7 e.center.lon ]

/-- The report as JSON. -/
def json (e : Encoding) : Json :=
  .record
    [ ("path", .text e.tile.text),
      ("depth", .ofNat e.tile.depth),
      ("topic_levels", .text (e.tile.joined "/")),
      ("row", .ofNat e.cell.row),
      ("col", .ofNat e.cell.column),
      ("center",
        .list
          [ .number (Decimal.scientific e.center.lat),
            .number (Decimal.scientific e.center.lon) ]) ]

end Encoding

/-! ### The neighbours of a tile -/

/-- The eight headings with the tiles they lead to. -/
structure Surroundings where
  /-- The headings with their tiles. -/
  neighbours : List (Heading × Option Tile)

namespace Surroundings

/-- The neighbours of the tile with given digits. -/
def of (digits : String) : Except Failure Surroundings :=
  match Tile.parse digits with
  | .error e => .error (.path e)
  | .ok t => .ok ⟨t.neighbours⟩

/-- A text filled up to two characters on the left. -/
def padToTwo (s : String) : String :=
  String.ofList (List.replicate (2 - s.length) ' ') ++ s

/-- The report as plain text, one heading a line. -/
def text (s : Surroundings) : String :=
  asLines <| s.neighbours.map fun (h, t) =>
    padToTwo h.label ++ "  " ++ (t.map Tile.text).getD "-"

/-- The report as JSON. -/
def json (s : Surroundings) : Json :=
  .list <| s.neighbours.map fun (h, t) =>
    .record [("direction", .text h.label), ("path", .ofText? (t.map Tile.text))]

end Surroundings

/-! ### The parts of a tile -/

/-- The parts of the tile with given digits, at a depth or a number of levels further down. -/
def partsOf (digits : String) (depth extra : Option Nat) : Except Failure Area :=
  match Tile.parse digits with
  | .error e => .error (.path e)
  | .ok t =>
    match t.split depth extra with
    | .error e => .error (.split e)
    | .ok a => .ok a

/-! ### The smallest form of an area -/

/-- An area in its smallest form, and the ring around it where one was asked for. -/
structure Reduction where
  /-- The number of tiles that were given. -/
  given : Nat
  /-- The area. -/
  area : Area
  /-- The ring around it, in its smallest form. -/
  ring : Option Area

namespace Reduction

/-- The smallest form of the area with given members, and its ring at a depth. -/
def of (texts : List String) (depth : Option Nat) : Except Failure Reduction :=
  match Area.parse texts with
  | .error e => .error (.path e)
  | .ok a =>
    let area := a.optimise
    .ok ⟨texts.length, area, depth.map fun d => (area.ring d).optimise⟩

/-- The report as plain text, the ring after a heading line. -/
def text (r : Reduction) : String :=
  match r.ring with
  | none => r.area.lines
  | some ring => r.area.lines ++ "\n# neighbours\n" ++ ring.lines

/-- The report as JSON, without the ring where there is none. -/
def json (r : Reduction) : Json :=
  .record <|
    [("input_paths", .ofNat r.given), ("region", r.area.json)]
      ++ (r.ring.map fun ring => ("ring", ring.json)).toList

end Reduction

end Geotile
