import Twisty.Cube.Basic
import Twisty.Text.Count

/-! Settings: the size and colors of the cube, and how long scrambles are. Each may be
left out of a settings file and then keeps its usual value; a file that says anything
else, or says something twice, is not accepted. How the entries of a file are written is
left to a format. -/

namespace Twisty

open Text

namespace Settings

/-- What a file may say of a key. Values of other kinds are only known to be there. -/
inductive Value
  | number (n : Nat)
  | text (content : String)
  | other
deriving DecidableEq

structure Entry where
  key : String
  value : Value
deriving DecidableEq

/-- Tells the entries of a text, unless it is not well written. -/
abbrev Format := String → Option (List Entry)

end Settings

structure Settings where
  size : Nat
  colors : String
  scrambleLength : Option Nat
deriving DecidableEq

namespace Settings

def usual : Settings := ⟨Cube.defaultSize, Cube.defaultColors, none⟩

/-- Numbers are counts of 64 bits. -/
def set? (s : Settings) (entry : Entry) : Option Settings :=
  match entry.key, entry.value with
  | "size", .number n => if n ≤ Count.limit then some { s with size := n } else none
  | "colors", .text content => some { s with colors := content }
  | "scramble_length", .number n =>
    if n ≤ Count.limit then some { s with scrambleLength := some n } else none
  | _, _ => none

def setAll? (s : Settings) : List Entry → Option Settings
  | [] => some s
  | entry :: rest =>
    match s.set? entry with
    | none => none
    | some s => s.setAll? rest

def ofEntries? (entries : List Entry) : Option Settings :=
  if (entries.map Entry.key).Nodup then usual.setAll? entries else none

/-- What is found where a file should be. -/
inductive File
  | missing
  | unreadable
  | text (content : String)
deriving DecidableEq

namespace Format

def parse? (format : Format) (text : String) : Option Settings := (format text).bind ofEntries?

/-- The settings in a file that was named, or in the usual file, which need not be
there. -/
def load? (format : Format) (named : Option File) (usualFile : File) : Option Settings :=
  match named, usualFile with
  | some (.text content), _ => format.parse? content
  | some _, _ => none
  | none, .text content => format.parse? content
  | none, .unreadable => none
  | none, .missing => some usual

end Format

end Settings

end Twisty
