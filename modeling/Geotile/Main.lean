/-
**The program.**

Reads the words of the command line, looks up the file of settings where the command needs one,
and writes what the command answers.  The usual file of settings is `config.ini` in a hidden
folder of the home directory that has the name of the program.
-/

import Geotile.CommandLine.Command

set_option autoImplicit false

namespace Geotile

/-- What is found under the name of a file. -/
def lookUp (name : String) : IO SettingsFile :=
  try
    let bytes ← IO.FS.readBinFile name
    return .content bytes
  catch e =>
    match e with
    | .noFileOrDirectory .. => return .missing
    | _ => return .unreadable

/-- The usual file of settings. -/
def usualFile : IO String := do
  let home ← IO.getEnv "HOME"
  let program := (← IO.appPath).fileStem.getD "geotile"
  return home.getD "." ++ "/." ++ program ++ "/config.ini"

/-- Writes how the program ends. -/
def finish (o : Outcome) : IO UInt32 := do
  IO.print o.output
  unless o.errors = "" do IO.eprintln o.errors
  return o.code.toUInt32

end Geotile

open Geotile in
/-- The program. -/
def main (words : List String) : IO UInt32 := do
  match Invocation.read words with
  | .error e => finish (.ofUsage e)
  | .ok invocation =>
    let file ←
      match invocation.settingsFile? (← usualFile) with
      | some name => lookUp name
      | none => pure .missing
    finish (invocation.run file)
