/-
**The commands of the program.**

Five commands answer questions about tiles: `encode` names the tile of a position, `neighbours`
lists the tiles around a tile, `split` its parts, `optimise` brings an area to its smallest form,
and `roi` replays a track.  Every command can answer in JSON.

Words that make no command end the program with code 2; a failure of the command ends it with
code 1 and a message.

Main definitions:

* `Geotile.Command`, `Geotile.Invocation` — a command, and how its answer is written;
* `Geotile.Invocation.read` — the words of a command line as a command;
* `Geotile.Invocation.settingsFile?` — which file of settings the command reads;
* `Geotile.Invocation.run` — the answer of a command;
* `Geotile.Outcome` — the code with which the program ends, and what it writes.
-/

import Geotile.CommandLine.Arguments
import Geotile.Report.Track

set_option autoImplicit false

namespace Geotile

/-- A question about tiles. -/
inductive Command where
  /-- The tile of a position at a depth. -/
  | encode (position : Position) (depth : Nat)
  /-- The tiles around a tile. -/
  | neighbours (tile : String)
  /-- The parts of a tile, at a depth or a number of levels further down. -/
  | split (tile : String) (depth extra : Option Nat)
  /-- The smallest form of an area, and its ring at a depth. -/
  | optimise (tiles : List String) (ring : Option Nat)
  /-- A track, and the file of settings where one is given. -/
  | roi (fixes : List Fix) (settings : Option String)

/-- A command and whether it answers in JSON. -/
structure Invocation where
  /-- Whether the answer is JSON. -/
  json : Bool
  /-- The command. -/
  command : Command

/-- How the program ends. -/
structure Outcome where
  /-- The code with which it ends. -/
  code : Nat
  /-- What it writes. -/
  output : String
  /-- What it writes about a failure. -/
  errors : String
  deriving DecidableEq

/-! ### From words to commands -/

namespace Command

/-- The options that every command has. -/
def sharedRules : List OptionRule := [⟨"json", .switch, false⟩, ⟨"log-level", .value, false⟩]

/-- The options of a command of a name. -/
def rulesOf? (name : String) : Option (List OptionRule) :=
  if name = "encode" then
    some [⟨"lat", .number, false⟩, ⟨"lon", .number, false⟩, ⟨"depth", .value, false⟩]
  else if name = "neighbours" then some []
  else if name = "split" then some [⟨"depth", .value, false⟩, ⟨"by", .value, false⟩]
  else if name = "optimise" then some [⟨"neighbours", .value, false⟩]
  else if name = "roi" then some [⟨"fix", .anything, true⟩, ⟨"config", .value, false⟩]
  else none

/-- A decimal from the value of an option. -/
def decimal (name value : String) : Except UsageError Float :=
  match Decimal.read? value.toList with
  | some x => .ok x
  | none => .error (.badValue name value)

/-- A whole number from 0 to 255 from the value of an option. -/
def small (name value : String) : Except UsageError Nat :=
  match Decimal.readInt? value.toList with
  | some n => if 0 ≤ n ∧ n ≤ 255 then .ok n.toNat else .error (.badValue name value)
  | none => .error (.badValue name value)

/-- The value of an option, where it is given. -/
def optional {α : Type} (a : Arguments) (name : String)
    (read : String → String → Except UsageError α) : Except UsageError (Option α) :=
  match a.value? name with
  | some value => (read name value).map some
  | none => .ok none

/-- The value of an option that has to be given. -/
def required {α : Type} (a : Arguments) (name : String)
    (read : String → String → Except UsageError α) : Except UsageError α :=
  match a.value? name with
  | some value => read name value
  | none => .error (.missing name)

/-- No words. -/
def noWords (a : Arguments) : Except UsageError Unit :=
  match a.words with
  | [] => .ok ()
  | word :: _ => .error (.needless word)

/-- The only word. -/
def oneWord (a : Arguments) : Except UsageError String :=
  match a.words with
  | [] => .error (.missing "path")
  | [word] => .ok word
  | _ :: word :: _ => .error (.needless word)

/-- A fix from the value of an option. -/
def fix (value : String) : Except UsageError Fix :=
  match Fix.parse value with
  | .ok f => .ok f
  | .error _ => .error (.badValue "fix" value)

/-- A file from the value of an option; it has a name. -/
def file (name value : String) : Except UsageError String :=
  if value = "" then .error (.badValue name value) else .ok value

/-- The command of a name with its arguments. -/
def ofArguments (name : String) (a : Arguments) : Except UsageError Command := do
  if name = "encode" then
    noWords a
    let lat ← required a "lat" decimal
    let lon ← required a "lon" decimal
    let depth ← optional a "depth" small
    return .encode ⟨lat, lon⟩ (depth.getD 18)
  else if name = "neighbours" then
    return .neighbours (← oneWord a)
  else if name = "split" then
    let tile ← oneWord a
    let depth ← optional a "depth" small
    let extra ← optional a "by" small
    -- of the two ways to say how deep, exactly one is taken
    if depth.isSome && extra.isSome then throw (.exclusive "depth" "by")
    if depth.isNone && extra.isNone then throw (.missing "depth")
    return .split tile depth extra
  else if name = "optimise" then
    if a.words.isEmpty then throw (.missing "paths")
    return .optimise a.words (← optional a "neighbours" small)
  else if name = "roi" then
    noWords a
    let fixes ← (a.values "fix").mapM fix
    if fixes.isEmpty then throw (.missing "fix")
    return .roi fixes (← optional a "config" file)
  else throw (.unknownCommand name)

end Command

namespace Invocation

/-- The words of a command line as a command. -/
def read (words : List String) : Except UsageError Invocation := do
  let (leading, name, rest) ← Arguments.readLeading Command.sharedRules words
  match Command.rulesOf? name with
  | none => throw (.unknownCommand name)
  | some rules =>
    let a ← Arguments.read (rules ++ Command.sharedRules) rest
    let command ← Command.ofArguments name a
    return ⟨leading.has "json" || a.has "json", command⟩

/-- The file of settings that the command reads: the one that is given, or else the usual one. -/
def settingsFile? (i : Invocation) (usual : String) : Option String :=
  match i.command with
  | .roi _ settings => some (settings.getD usual)
  | _ => none

/-! ### Answers -/

/-- The answer of a command, as JSON or as plain text, when a file of settings is what it is. -/
def answer (i : Invocation) (file : SettingsFile) : Except Failure String :=
  let write (json : Json) (text : String) : String := if i.json then json.pretty else text
  match i.command with
  | .encode position depth => (Encoding.of position depth).map fun r => write r.json r.text
  | .neighbours tile => (Surroundings.of tile).map fun r => write r.json r.text
  | .split tile depth extra => (partsOf tile depth extra).map fun r => write r.json r.lines
  | .optimise tiles ring => (Reduction.of tiles ring).map fun r => write r.json r.text
  | .roi fixes _ =>
    match Settings.ofFile file with
    | .error e => .error (.settings e)
    | .ok settings =>
      match replay settings fixes with
      | .error e => .error (.position e)
      | .ok reports => .ok (write (trackJson reports) (trackText reports))

/-- What is written about a failure; one of the settings comes with advice. -/
def failureText (e : Failure) : String :=
  let advice := match e with
    | .settings _ =>
      "\n\nCheck the [topics] and [roi] sections of the file, or pass another one with --config."
    | _ => ""
  "Error: " ++ e.message ++ advice

/-- How the command ends. -/
def run (i : Invocation) (file : SettingsFile) : Outcome :=
  match i.answer file with
  | .ok text => ⟨0, text ++ "\n", ""⟩
  | .error e => ⟨1, "", failureText e⟩

end Invocation

/-- How the program ends on words that make no command. -/
def Outcome.ofUsage (e : UsageError) : Outcome := ⟨2, "", "error: " ++ e.message⟩

end Geotile
