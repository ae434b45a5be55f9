/-! What a command line asks for: a task with its operand and options, preceded by
options that hold for every task. -/

namespace Twisty.CommandLine

inductive Task
  | apply (text : String)
  | invert (text : String)
  | scramble (length seed : Option Nat)
  | validate (text : String)
deriving DecidableEq

/-- What is said before the task. -/
structure Overrides where
  settingsFile : Option String
  size : Option Nat
  colors : Option String
deriving DecidableEq

structure Request where
  overrides : Overrides
  task : Task
deriving DecidableEq

/-- What the arguments come to: something to do, a text to print in answer to them, or a
complaint about them. -/
inductive Command
  | perform (request : Request)
  | answer (text : String)
  | misuse (complaint : String)
deriving DecidableEq

end Twisty.CommandLine
