import Twisty.CommandLine.Help
import Twisty.CommandLine.Request
import Twisty.Text.Count

/-! The usual way to read a command line. Arguments are read from left to right, and the
first that is a mistake, or asks for help or the version, decides. -/

namespace Twisty.CommandLine.Command

/-- A count as an argument; a plus sign may stand before it. -/
def number? (text : String) : Option Nat :=
  match text.toList with
  | '+' :: digits => Text.Count.ofDigits? digits
  | digits => Text.Count.ofDigits? digits

def refused : Command :=
  .misuse ("error: the arguments are not as they should be\n\n" ++
    "Usage: cubing [OPTIONS] <COMMAND>\n\nFor more information, try '--help'.\n")

def versionText : String := "cubing 0.1.0\n"

/-! ## Options and help -/

inductive TaskFlag
  | help
deriving DecidableEq

def taskFlags : List (Flag TaskFlag) := [⟨.help, some 'h', "help", false, "Print help", false⟩]

inductive ScrambleFlag
  | length
  | seed
  | help
deriving DecidableEq

def scrambleFlags : List (Flag ScrambleFlag) :=
  [⟨.length, some 'l', "length", true, "Number of moves, `8 × size` by default", false⟩,
   ⟨.seed, none, "seed", true, "Seed for a reproducible scramble", false⟩,
   ⟨.help, some 'h', "help", false, "Print help", false⟩]

inductive GlobalFlag
  | settingsFile
  | size
  | colors
  | verbose
  | version
  | help
deriving DecidableEq

def settingsFileFlag : Flag GlobalFlag :=
  ⟨.settingsFile, some 'c', "config", true, "The configuration file to use, in TOML format. " ++
    "Defaults to `cubing/config.toml` in the user configuration directory", false⟩

def sizeFlag : Flag GlobalFlag :=
  ⟨.size, some 's', "size", true, "Cube size, overriding the configuration file", false⟩

def colorsFlag : Flag GlobalFlag :=
  ⟨.colors, none, "colors", true,
    "Face colors in U F R B L D order, overriding the configuration file", false⟩

def globalFlags : List (Flag GlobalFlag) :=
  [settingsFileFlag, sizeFlag, colorsFlag,
   ⟨.verbose, some 'v', "verbose", false, "Increase logging verbosity (can be repeated)", true⟩,
   ⟨.help, some 'h', "help", false, "Print help", false⟩,
   ⟨.version, some 'V', "version", false, "Print version", false⟩]

/-- The commands and what they are for. Help can be asked for like a task. -/
def commands : List (String × String) :=
  [("apply", "Apply an algorithm to a solved cube and print the result"),
   ("invert", "Print the inverse of an algorithm"),
   ("scramble", "Scramble a cube and print the scramble"),
   ("validate", "Apply an algorithm and check that the result is a reachable cube"),
   ("help", "Print this message or the help of the given subcommand(s)")]

def overview : Help where
  about := "Apply, invert, scramble and validate algorithms on NxNxN cubes"
  usage := "cubing [OPTIONS] <COMMAND>"
  sections := [("Commands", commands), Help.options globalFlags]

/-- How a command is called, and what stands below. -/
def details (name : String) : String × List (String × List (String × String)) :=
  let operand (about : String) := (" <ALGORITHM>",
    [("Arguments", [("<ALGORITHM>", about)]), Help.options taskFlags])
  match name with
  | "apply" => operand "The algorithm to apply, e.g. \"R U R' U'\""
  | "invert" => operand "The algorithm to invert"
  | "scramble" => (" [OPTIONS]", [Help.options scrambleFlags])
  | "validate" => operand "The algorithm to apply before validating"
  | _ => (" [COMMAND]...",
      [("Arguments", [("[COMMAND]...", "Print help for the subcommand(s)")])])

/-- The help on a command, or nothing but a complaint if there is none of this name. -/
def helpOn (name : String) : Command :=
  match commands.find? fun command => command.1 == name with
  | some (name, about) =>
    let (operands, sections) := details name
    .answer (Help.text ⟨about, "cubing " ++ name ++ operands, sections⟩)
  | none => refused

def helpOf : List String → Command
  | [] => .answer overview.text
  | [name] => helpOn name
  | _ => refused

/-! ## Tasks -/

/-- The one operand of a task, or what is asked for instead. -/
def operandOf (name : String) (found : Option String) :
    List (Event TaskFlag) → Except Command String
  | [] => match found with
    | some text => .ok text
    | none => .error refused
  | .misuse :: _ => .error refused
  | .option .help _ :: _ => .error (helpOn name)
  | .operand text _ :: rest => match found with
    | none => operandOf name (some text) rest
    | some _ => .error refused
  | .remainder operands :: _ => match found, operands with
    | some text, [] => .ok text
    | none, [text] => .ok text
    | _, _ => .error refused

/-- The options of a scramble. None may be given twice. -/
def scrambleOf (length seed : Option Nat) : List (Event ScrambleFlag) → Except Command Task
  | [] => .ok (.scramble length seed)
  | .option .length value :: rest => match length, number? value with
    | none, some n => scrambleOf (some n) seed rest
    | _, _ => .error refused
  | .option .seed value :: rest => match seed, number? value with
    | none, some n => scrambleOf length (some n) rest
    | _, _ => .error refused
  | .option .help _ :: _ => .error (helpOn "scramble")
  | .remainder [] :: rest => scrambleOf length seed rest
  | _ :: _ => .error refused

def taskOf (name : String) (args : List String) : Except Command Task :=
  let operand := operandOf name none (Event.ofArguments taskFlags args)
  match name with
  | "apply" => operand.map .apply
  | "invert" => operand.map .invert
  | "scramble" => scrambleOf none none (Event.ofArguments scrambleFlags args)
  | "validate" => operand.map .validate
  | "help" => .error (helpOf args)
  | _ => .error refused

/-! ## Options for every task -/

/-- None of the options may be given twice but the one for more messages. -/
def ofEvents (o : Overrides) : List (Event GlobalFlag) → Command
  | [] => refused
  | .misuse :: _ => refused
  | .remainder _ :: _ => refused
  | .operand name args :: _ =>
    match taskOf name args with
    | .ok task => .perform ⟨o, task⟩
    | .error command => command
  | .option .settingsFile path :: rest =>
    if o.settingsFile = none ∧ path ≠ "" then ofEvents { o with settingsFile := some path } rest
    else refused
  | .option .size value :: rest => match o.size, number? value with
    | none, some n => ofEvents { o with size := some n } rest
    | _, _ => refused
  | .option .colors value :: rest => match o.colors with
    | none => ofEvents { o with colors := some value } rest
    | some _ => refused
  | .option .verbose _ :: rest => ofEvents o rest
  | .option .version _ :: _ => .answer versionText
  | .option .help _ :: _ => .answer overview.text

def ofArguments (args : List String) : Command :=
  ofEvents ⟨none, none, none⟩ (Event.ofArguments globalFlags args)

end Twisty.CommandLine.Command
