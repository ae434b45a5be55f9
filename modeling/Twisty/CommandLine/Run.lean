import Twisty.CommandLine.Command
import Twisty.CommandLine.Tools
import Twisty.Facelets.Fingerprint
import Twisty.Generator
import Twisty.Settings.Entry

/-! The program with the tools that it is usually made with. -/

namespace Twisty.CommandLine

def Tools.usual : Tools where
  command := Command.ofArguments
  format := Settings.Entry.read?
  Random := Generator
  source := inferInstance

def run (args : List String) (s : Surroundings) : Outcome := Tools.usual.run args s

end Twisty.CommandLine
