/-! The arguments of a command line one by one, as options, operands and mistakes.
Options have a long name, and some a letter; letters can be written together. The
value of an option is the rest of its argument or the next argument, which must not
look like an option itself. Behind `--` all arguments are operands. -/

namespace Twisty.CommandLine

/-- One that is counted may be given more than once. -/
structure Flag (α : Type) where
  tag : α
  short : Option Char
  long : String
  takesValue : Bool
  about : String
  counted : Bool

/-- An operand comes with the arguments that follow it. An option without a value has
the empty text. -/
inductive Event (α : Type)
  | option (tag : α) (value : String)
  | operand (text : String) (rest : List String)
  | remainder (operands : List String)
  | misuse
deriving DecidableEq

/-- What one argument says, and the option that still waits for its value. -/
structure Scanned (α : Type) where
  events : List (Event α)
  waiting : Option α

namespace Event

variable {α : Type}

/-- Whether an argument is an option. A hyphen alone is an operand. -/
def looksLikeOption (arg : String) : Bool :=
  match arg.toList with
  | '-' :: _ :: _ => true
  | _ => false

/-- An option by its long name, perhaps with an equals sign and a value. -/
def scanLong (flags : List (Flag α)) (cs : List Char) : Scanned α :=
  let name := String.ofList (cs.takeWhile (· != '='))
  match flags.find? fun flag => flag.long == name with
  | none => ⟨[misuse], none⟩
  | some flag =>
    match cs.dropWhile (· != '='), flag.takesValue with
    | [], true => ⟨[], some flag.tag⟩
    | [], false => ⟨[option flag.tag ""], none⟩
    | _ :: value, true => ⟨[option flag.tag (String.ofList value)], none⟩
    | _ :: _, false => ⟨[misuse], none⟩

/-- Options by their letters. One that takes a value takes all that follows. -/
def scanLetters (flags : List (Flag α)) : List Char → Scanned α
  | [] => ⟨[], none⟩
  | c :: rest =>
    match flags.find? fun flag => flag.short == some c with
    | none => ⟨[misuse], none⟩
    | some flag =>
      if flag.takesValue then
        match rest with
        | [] => ⟨[], some flag.tag⟩
        | '=' :: value => ⟨[option flag.tag (String.ofList value)], none⟩
        | value => ⟨[option flag.tag (String.ofList value)], none⟩
      else
        let later := scanLetters flags rest
        ⟨option flag.tag "" :: later.events, later.waiting⟩

def scanOption (flags : List (Flag α)) (arg : String) : Scanned α :=
  match arg.toList with
  | '-' :: '-' :: name => scanLong flags name
  | _ :: letters => scanLetters flags letters
  | [] => ⟨[misuse], none⟩

def ofArguments (flags : List (Flag α)) : List String → List (Event α)
  | [] => []
  | arg :: rest =>
    if arg = "--" then [remainder rest]
    else if looksLikeOption arg then
      let scanned := scanOption flags arg
      match scanned.waiting, rest with
      | none, rest => scanned.events ++ ofArguments flags rest
      | some _, [] => scanned.events ++ [misuse]
      | some tag, value :: rest =>
        if looksLikeOption value then scanned.events ++ [misuse]
        else scanned.events ++ option tag value :: ofArguments flags rest
    else operand arg rest :: ofArguments flags rest

end Event

end Twisty.CommandLine
