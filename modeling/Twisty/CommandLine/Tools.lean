import Twisty.CommandLine.Request
import Twisty.Facelets.Net
import Twisty.Layout.Scheme
import Twisty.Scramble
import Twisty.Settings.Basic

/-! Doing what a command line asks for. What is said on it goes before the settings, and
these go before the usual values. The cube is made before the task begins, so a size or
colors that no cube has are a fault of every task. All output is written at the end: a
run that fails writes none. -/

namespace Twisty.CommandLine

/-- What the program is made with: how arguments and settings files are read, and where
random numbers come from. -/
structure Tools where
  command : List String → Command
  format : Settings.Format
  Random : Type
  source : Source Random

attribute [instance] Tools.source

/-- Random numbers from a seed of 64 bits. -/
def Tools.generator (tools : Tools) (seed : Nat) : tools.Random :=
  Source.seeded (UInt64.ofNat seed)

/-- What a run finds: files by their paths, the usual settings file, and a seed to use
where none is given. -/
structure Surroundings where
  file : String → Settings.File
  usualSettings : Settings.File
  freshSeed : Nat

inductive Failure
  | settings
  | cube (error : CubeError)
  | parse (error : ParseError)
  | endlessScramble
deriving DecidableEq

def Failure.message : Failure → String
  | settings => "The settings file cannot be read"
  | cube error => error.message
  | parse error => error.message
  | endlessScramble => "There is no scramble that long"

def green (text : String) : String := "\x1b[32m" ++ text ++ "\x1b[39m"

def red (text : String) : String := "\x1b[31m" ++ text ++ "\x1b[39m"

variable [∀ n, Hashable (Facelets n)]

namespace Task

variable {n : Nat}

/-- The text of one or more lines, each of them ended. -/
def printed (lines : List String) : String := String.join (lines.map (· ++ "\n"))

def verdict (c : Cube n) : String := if c.isSolved then green "SOLVED" else red "NOT SOLVED"

/-- The colors of a scheme with blanks between them. -/
def schemeText (scheme : Scheme) : String := " ".intercalate (scheme.toList.map String.singleton)

def validity (c : Cube n) : String :=
  match c.state.toLayout.validate n with
  | .ok scheme => green "VALID" ++ " " ++ schemeText scheme
  | .error fault => red "INVALID" ++ " " ++ fault.message

/-- What a task prints, starting from a solved cube. -/
def perform (task : Task) (tools : Tools) (c : Cube n) (usualLength : Option Nat)
    (freshSeed : Nat) : Except Failure String :=
  match task with
  | .apply text =>
    match c.applyText text with
    | .error error => .error (.cube error)
    | .ok c => .ok (printed [c.state.net, verdict c])
  | .invert text =>
    match Algorithm.parse text with
    | .error error => .error (.parse error)
    | .ok a => .ok (printed [a.inverse.text])
  | .scramble length seed =>
    match c.scramble (tools.generator (seed.getD freshSeed)) (length.or usualLength) with
    | none => .error .endlessScramble
    | some (moves, c, _) => .ok (printed [moves.text, c.state.net])
  | .validate text =>
    match c.applyText text with
    | .error error => .error (.cube error)
    | .ok c => .ok (printed [validity c])

end Task

namespace Request

def settings? (r : Request) (tools : Tools) (s : Surroundings) : Option Settings :=
  tools.format.load? (r.overrides.settingsFile.map s.file) s.usualSettings

def perform (r : Request) (tools : Tools) (s : Surroundings) : Except Failure String :=
  match r.settings? tools s with
  | none => .error .settings
  | some settings =>
    match Cube.new (r.overrides.size.getD settings.size)
        (r.overrides.colors.getD settings.colors) with
    | .error error => .error (.cube error)
    | .ok c => r.task.perform tools c settings.scrambleLength s.freshSeed

end Request

/-- How a run ends: its status, what it prints, and what it complains of. -/
structure Outcome where
  status : Nat
  output : String
  complaint : String
deriving DecidableEq

def Command.run (command : Command) (tools : Tools) (s : Surroundings) : Outcome :=
  match command with
  | .answer text => ⟨0, text, ""⟩
  | .misuse complaint => ⟨2, "", complaint⟩
  | .perform request =>
    match request.perform tools s with
    | .ok output => ⟨0, output, ""⟩
    | .error failure => ⟨1, "", failure.message ++ "\n"⟩

def Tools.run (tools : Tools) (args : List String) (s : Surroundings) : Outcome :=
  (tools.command args).run tools s

end Twisty.CommandLine
