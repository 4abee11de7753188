/-
**Reports on a track.**

A track is a list of fixes, each a position and a speed.  Replaying it through a tracker gives one
report a fix: where the station is, where it publishes, and which filters it takes up and gives up.

Main definitions:

* `Geotile.Fix`, `Geotile.FixError`, `Geotile.Fix.parse` — a fix, and how it is read from text;
* `Geotile.FixReport`, `Geotile.FixReport.of` — what one fix changes;
* `Geotile.replay` — the reports on a track.
-/

import Geotile.Report.Lookup
import Geotile.Tracker

set_option autoImplicit false

namespace Geotile

/-! ### Fixes -/

/-- A position at a speed in metres per second. -/
structure Fix where
  /-- The position. -/
  position : Position
  /-- The speed. -/
  speed : Float

/-- Why a text is no fix. -/
inductive FixError where
  /-- A part is no number. -/
  | badNumber (text : String)
  /-- There are not two or three parts. -/
  | badShape (text : String)
  deriving DecidableEq

/-- The message about a text that is no fix. -/
def FixError.message : FixError → String
  | badNumber text => "'" ++ text ++ "' is not a number"
  | badShape text => "expected 'lat,lon[,speed]', got '" ++ text ++ "'"

namespace Fix

/-- A number of a fix. -/
def readNumber (cs : List Char) : Except FixError Float :=
  match Decimal.read? cs with
  | some x => .ok x
  | none => .error (.badNumber (String.ofList cs))

/-- A fix from a latitude, a longitude and, optionally, a speed, with commas between them. -/
def parse (s : String) : Except FixError Fix :=
  match (Text.split ',' s.toList).map Text.trimBlank with
  | [lat, lon] => do
    let lat ← readNumber lat
    let lon ← readNumber lon
    return ⟨⟨lat, lon⟩, 0.0⟩
  | [lat, lon, speed] => do
    let lat ← readNumber lat
    let lon ← readNumber lon
    let speed ← readNumber speed
    return ⟨⟨lat, lon⟩, speed⟩
  | _ => .error (.badShape s)

end Fix

/-! ### Reports -/

/-- What one fix changes. -/
structure FixReport where
  /-- The tile of the fix. -/
  tile : Option Tile
  /-- The topic of a message of the first type. -/
  topic : Option String
  /-- What changes. -/
  change : Change
  /-- The filters taken up. -/
  subscribe : List String
  /-- The filters given up. -/
  unsubscribe : List String

namespace FixReport

/-- The report on a change that left a tracker as it is. -/
def of (change : Change) (tr : Tracker) : FixReport where
  tile := tr.tile
  topic := tr.settings.messageTypes.head?.bind tr.topic?
  change := change
  subscribe := tr.filtersFor change.subscribe
  unsubscribe := tr.filtersFor change.unsubscribe

/-- The lines of the report on the fix of a number. -/
def lines (number : Nat) (r : FixReport) : List String :=
  let place := match r.tile with
    | some t => ": " ++ t.text ++ " (depth " ++ toString t.depth ++ ")"
    | none => ""
  ["fix " ++ toString number ++ place]
    ++ (r.topic.map fun topic => "  publish     " ++ topic).toList
    ++ r.subscribe.map (fun f => "  subscribe   " ++ f)
    ++ r.unsubscribe.map (fun f => "  unsubscribe " ++ f)
    ++ if r.change.isEmpty then ["  unchanged"] else []

/-- The report as JSON. -/
def json (r : FixReport) : Json :=
  .record
    [ ("tile", .ofText? (r.tile.map Tile.text)),
      ("publish_topic", .ofText? r.topic),
      ("delta",
        .record
          [ ("subscribe", r.change.subscribe.json),
            ("unsubscribe", r.change.unsubscribe.json),
            ("gained_area", r.change.gained.json),
            ("lost_area", r.change.lost.json) ]),
      ("subscribe_filters", .ofTexts r.subscribe),
      ("unsubscribe_filters", .ofTexts r.unsubscribe) ]

end FixReport

/-- The reports on fixes that a tracker is given one after the other. -/
def replayFrom (tr : Tracker) : List Fix → Except PositionError (List FixReport)
  | [] => .ok []
  | fix :: fixes =>
    (tr.update fix.position fix.speed).bind fun (change, next) =>
      (replayFrom next fixes).map fun reports => .of change next :: reports

/-- The reports on a track of a station with given settings. -/
def replay (settings : Settings) (fixes : List Fix) : Except PositionError (List FixReport) :=
  replayFrom (.start settings) fixes

/-- The reports on a track as plain text. -/
def trackText (reports : List FixReport) : String :=
  asLines (reports.zipIdx.flatMap fun (r, i) => r.lines (i + 1))

/-- The reports on a track as JSON. -/
def trackJson (reports : List FixReport) : Json := .list (reports.map FixReport.json)

end Geotile
