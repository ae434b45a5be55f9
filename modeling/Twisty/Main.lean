import Twisty.CommandLine.Run

/-! The program: reads the settings file that the command line names, or the usual one,
and does what is asked for. -/

open Twisty.CommandLine

namespace Twisty

def isThere (path : String) : IO Bool := do
  try
    discard (IO.FS.realPath path)
    return true
  catch _ => return false

/-- What is at a path. A directory is no file, and neither is what cannot be looked at. -/
def readFile (path : String) : IO Settings.File := do
  if ! (← isThere path) then return .missing
  try
    return .text (← IO.FS.readFile path)
  catch
    | .inappropriateType .. => return .missing
    | _ => return .unreadable

/-- The user's settings are kept below the configuration directory. -/
def usualPath? : IO (Option String) := do
  match ← IO.getEnv "XDG_CONFIG_HOME" with
  | some dir =>
    if dir.startsWith "/" then return some (dir ++ "/cubing/config.toml")
  | none => pure ()
  match ← IO.getEnv "HOME" with
  | some home => return some (home ++ "/.config/cubing/config.toml")
  | none => return none

def surroundings (command : Command) : IO Surroundings := do
  let named := match command with
    | .perform request => request.overrides.settingsFile
    | _ => none
  let content ← match named with
    | some path => readFile path
    | none => pure .missing
  let usual ← match ← usualPath? with
    | some path => readFile path
    | none => pure .missing
  let seed ← IO.rand 0 Text.Count.limit
  return ⟨fun path => if named = some path then content else .missing, usual, seed⟩

end Twisty

def main (args : List String) : IO UInt32 := do
  let command := Tools.usual.command args
  let outcome := command.run Tools.usual (← Twisty.surroundings command)
  IO.print outcome.output
  IO.eprint outcome.complaint
  return UInt32.ofNat outcome.status
