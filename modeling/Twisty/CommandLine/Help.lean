import Twisty.CommandLine.Event

/-! Help pages: what something is for, how it is called, and under a heading each its
commands, arguments and options in two columns. -/

namespace Twisty.CommandLine

/-- An option as it is called. The value has the name of the option in capitals. -/
def Flag.usage {α : Type} (flag : Flag α) : String :=
  let short := match flag.short with
    | some c => "-" ++ c.toString ++ ", "
    | none => "    "
  let value := if flag.takesValue then " <" ++ flag.long.toUpper ++ ">" else ""
  short ++ "--" ++ flag.long ++ value ++ if flag.counted then "..." else ""

structure Help where
  about : String
  usage : String
  sections : List (String × List (String × String))

namespace Help

def columns (rows : List (String × String)) : String :=
  let width := (rows.map fun row => row.1.length).max?.getD 0
  String.join (rows.map fun row =>
    "  " ++ String.ofList (row.1.toList.rightpad width ' ') ++ "  " ++ row.2 ++ "\n")

def text (help : Help) : String :=
  help.about ++ "\n\nUsage: " ++ help.usage ++ "\n" ++
    String.join (help.sections.map fun part => "\n" ++ part.1 ++ ":\n" ++ columns part.2)

def options {α : Type} (flags : List (Flag α)) : String × List (String × String) :=
  ("Options", flags.map fun flag => (flag.usage, flag.about))

end Help

end Twisty.CommandLine
