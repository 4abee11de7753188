/-
**Settings from text.**

Settings are read from the sections `topics` and `roi` of a text of sections and entries; what is
not given stays as it is in the standard settings.  Only values are accepted that keep topics
readable and depths inside the tree: leading levels without wildcards, a name that is one level, at
least one type of message, depths between one and thirty-two in order, and thresholds of such a
depth at a finite speed that is not negative.

Main definitions:

* `Geotile.SettingsFlaw`, `Geotile.SettingsError` — why settings are refused;
* `Geotile.Settings.readDepth`, `Geotile.Settings.readThresholds` — a depth and thresholds from
  text;
* `Geotile.Settings.ofIni`, `Geotile.Settings.ofText`, `Geotile.Settings.ofFile` — settings from
  sections, from text and from the content of a file.
-/

import Geotile.Ini
import Geotile.Number.Reader
import Geotile.Settings.Basic
import Geotile.Text.LowerCase

set_option autoImplicit false

namespace Geotile

/-- What is wrong with a value. -/
inductive SettingsFlaw where
  /-- The leading levels are empty or hold a wildcard. -/
  | badBase
  /-- The name of the station is not one level. -/
  | badSource
  /-- There is no type of message. -/
  | noMessageTypes
  /-- A depth is no level of the tree. -/
  | badDepth
  /-- The bounds of the depth are in the wrong order. -/
  | crossedDepths
  /-- A threshold is no speed and depth. -/
  | badThresholds
  deriving DecidableEq

/-- What is wrong, in words. -/
def SettingsFlaw.reason : SettingsFlaw → String
  | badBase => "must be non-empty and free of MQTT wildcards"
  | badSource => "must be a single non-empty topic level"
  | noMessageTypes => "at least one message type is required"
  | badDepth => "must be an integer between 1 and 32"
  | crossedDepths => "must not exceed max_depth"
  | badThresholds => "expected comma-separated 'speed:depth' pairs like '0:18, 14:16'"

/-- Why settings are refused. -/
inductive SettingsError where
  /-- The file cannot be read as text of sections and entries. -/
  | unreadable
  /-- The text is not one of sections and entries. -/
  | malformed (cause : IniError)
  /-- A value is wrong. -/
  | invalid (place key value : String) (flaw : SettingsFlaw)
  deriving DecidableEq

/-- The reason in words. -/
def SettingsError.reason : SettingsError → String
  | unreadable => "Failed to read config file"
  | malformed _ => "Failed to parse config"
  | invalid place key value flaw =>
    "Invalid configuration: " ++ place ++ "." ++ key ++ " = '" ++ value ++ "' - " ++ flaw.reason

namespace Settings

/-! ### Values -/

/-- The leading levels: a text without separators at its end, not empty and without wildcards. -/
def readBase (value : String) : Except SettingsError String :=
  let levels := Text.trimEnd (fun c => c == '/') (Text.trimBlank value.toList)
  if levels.isEmpty || levels.any (fun c => c == '+' || c == '#') then
    .error (.invalid "topics" "namespace" (String.ofList levels) .badBase)
  else .ok (String.ofList levels)

/-- The name of a station: one level, not empty and without wildcards. -/
def readSource (value : String) : Except SettingsError String :=
  let name := Text.trimBlank value.toList
  if name.isEmpty || name.any (fun c => c == '/' || c == '+' || c == '#') then
    .error (.invalid "topics" "source_id" (String.ofList name) .badSource)
  else .ok (String.ofList name)

/-- The pieces of a list with commas, without white space around them and without empty ones. -/
def pieces (value : String) : List (List Char) :=
  ((Text.split ',' value.toList).map Text.trimBlank).filter fun piece => !piece.isEmpty

/-- The types of messages, in lower case; at least one. -/
def readMessageTypes (value : String) : Except SettingsError (List String) :=
  let types := (pieces value).map fun piece => String.ofList (Text.lowerCase piece)
  if types.isEmpty then .error (.invalid "topics" "message_types" value .noMessageTypes)
  else .ok types

/-- A depth: a whole number between one and thirty-two. -/
def readDepth (key value : String) : Except SettingsError Nat :=
  match Decimal.readNat? (Text.trimBlank value.toList) with
  | some depth =>
    if 1 ≤ depth ∧ depth ≤ maxDepth then .ok depth
    else .error (.invalid "roi" key value .badDepth)
  | none => .error (.invalid "roi" key value .badDepth)

/-- A speed: a finite number that is not negative. -/
def readSpeed? (text : List Char) : Option Float :=
  (Decimal.read? (Text.trimBlank text)).filter fun x => x.isFinite && 0.0 ≤ x

/-- A threshold of the list that is given as a whole value. -/
def readThreshold (value : String) (piece : List Char) : Except SettingsError Threshold :=
  let parts := (Text.splitFirst? ':' piece).bind fun (speed, depth) =>
    (readSpeed? speed).map fun x => (x, depth)
  match parts with
  | none => .error (.invalid "roi" "thresholds" value .badThresholds)
  | some (speed, depth) =>
    (readDepth "thresholds" (String.ofList depth)).map fun d => ⟨speed, d⟩

/-- The thresholds of a list with commas. -/
def readThresholds (value : String) : Except SettingsError (List Threshold) :=
  (pieces value).mapM (readThreshold value)

/-! ### Sections -/

/-- What a value given for a key says, or what holds where the key is not given. -/
def given {α : Type} (entries : Ini.Section) (key : String) (otherwise : α)
    (read : String → Except SettingsError α) : Except SettingsError α :=
  match entries.get? key with
  | some value => read value
  | none => .ok otherwise

/-- The settings with what the section on topics says. -/
def readTopics (s : Settings) (entries : Ini.Section) : Except SettingsError Settings := do
  let base ← given entries "namespace" s.base readBase
  let source ← given entries "source_id" s.source readSource
  let messageTypes ← given entries "message_types" s.messageTypes readMessageTypes
  return { s with base, source, messageTypes }

/-- The settings with what the section on the area says. -/
def readArea (s : Settings) (entries : Ini.Section) : Except SettingsError Settings := do
  let shallowest ← given entries "min_depth" s.shallowest (readDepth "min_depth")
  let deepest ← given entries "max_depth" s.deepest (readDepth "max_depth")
  if deepest < shallowest then
    throw (.invalid "roi" "min_depth" (toString shallowest) .crossedDepths)
  let bounded := { s with shallowest, deepest }
  given entries "thresholds" bounded fun value =>
    (readThresholds value).map bounded.withThresholds

/-- The settings with what a section says, where there is one. -/
def readSection (entries : Option Ini.Section)
    (read : Settings → Ini.Section → Except SettingsError Settings) (s : Settings) :
    Except SettingsError Settings :=
  match entries with
  | some found => read s found
  | none => .ok s

/-- The settings that sections and entries give. -/
def ofIni (ini : Ini) : Except SettingsError Settings := do
  let topics ← readSection (ini.section? "topics") readTopics standard
  readSection (ini.section? "roi") readArea topics

/-- The settings that a text gives. -/
def ofText (text : String) : Except SettingsError Settings :=
  match Ini.parse text with
  | .ok ini => ofIni ini
  | .error cause => .error (.malformed cause)

end Settings

/-! ### Files -/

/-- What is found where a file of settings is looked for. -/
inductive SettingsFile where
  /-- There is no file. -/
  | missing
  /-- There is something that cannot be read. -/
  | unreadable
  /-- There is a file with this content. -/
  | content (bytes : ByteArray)

namespace Settings

/-- The mark that may stand at the beginning of a file and is no part of its text. -/
def byteOrderMark : Char := Char.ofNat 0xFEFF

/-- The text of a file after a byte order mark. -/
def afterMark (text : String) : String :=
  match text.toList with
  | [] => text
  | c :: cs => if c = byteOrderMark then String.ofList cs else text

/-- The settings that a file gives; without a file, the standard settings. -/
def ofFile : SettingsFile → Except SettingsError Settings
  | .missing => .ok standard
  | .unreadable => .error .unreadable
  | .content bytes =>
    match String.fromUTF8? bytes with
    | none => .error .unreadable
    | some text =>
      match Ini.parse (afterMark text) with
      | .ok ini => ofIni ini
      | .error _ => .error .unreadable

end Settings

end Geotile
