import Twisty.CommandLine.Run

/-! Options before a task. What is relied on of any way to read arguments is that options
stand for overrides, whatever task is behind them. In the usual way they are read one by one
and only fill the places they are for, so what they leave behind is all that the task and its
own arguments need to know of them. Every settings file, every size that is a count and all
colors can be asked for. -/

namespace Twisty.CommandLine

open Text

variable {o : Overrides} {options : List String} {text : String}

/-- An operand that does not begin with a hyphen is what a task is about, and the options in
front of the task ask for the overrides. -/
structure Overrides.ReadBy (o : Overrides) (options : List String)
    (command : List String → Command) : Prop where
  apply {text : String} : text.toList.head? ≠ some '-' →
    command (options ++ ["apply", text]) = .perform ⟨o, .apply text⟩
  invert {text : String} : text.toList.head? ≠ some '-' →
    command (options ++ ["invert", text]) = .perform ⟨o, .invert text⟩

/-! ## One argument -/

namespace Event

variable {α : Type} {flags : List (Flag α)}

theorem not_looksLikeOption {arg : String} (plain : arg.toList.head? ≠ some '-') :
    looksLikeOption arg = false := by
  unfold looksLikeOption
  split
  · rename_i spelled
    rw [spelled] at plain
    exact absurd rfl plain
  · rfl

/-- Two hyphens alone look like an option too. -/
theorem ofArguments_operand {arg : String} (plain : looksLikeOption arg = false)
    (rest : List String) :
    ofArguments flags (arg :: rest) = operand arg rest :: ofArguments flags rest := by
  have notHyphens : arg ≠ "--" := by
    rintro rfl
    exact absurd plain (by decide +kernel)
  rw [ofArguments, if_neg notHyphens, plain]
  rfl

/-- An option with its value behind an equals sign. The value may hold more of them. -/
def assigned (flag : Flag α) (value : String) : String := "--" ++ flag.long ++ "=" ++ value

theorem ofArguments_assigned {flag : Flag α}
    (found : flags.find? (fun other => other.long == flag.long) = some flag)
    (takesValue : flag.takesValue = true) (noEquals : '=' ∉ flag.long.toList)
    (value : String) (rest : List String) :
    ofArguments flags (assigned flag value :: rest) =
      option flag.tag value :: ofArguments flags rest := by
  have spelled : (assigned flag value).toList =
      '-' :: '-' :: (flag.long.toList ++ '=' :: value.toList) := by simp [assigned]
  have long : ∀ c ∈ flag.long.toList, (c != '=') = true :=
    fun c hc => bne_iff_ne.2 (ne_of_mem_of_not_mem hc noEquals)
  have notHyphens : assigned flag value ≠ "--" := by
    intro h
    rw [h] at spelled
    have length := congrArg List.length spelled
    simp at length
  have name : (flag.long.toList ++ '=' :: value.toList).takeWhile (· != '=') =
      flag.long.toList := by
    simp [List.takeWhile_append_of_pos long]
  have behind : (flag.long.toList ++ '=' :: value.toList).dropWhile (· != '=') =
      '=' :: value.toList := by
    simp [List.dropWhile_append_of_pos long]
  have scanned : scanOption flags (assigned flag value) = ⟨[option flag.tag value], none⟩ := by
    simp only [scanOption, spelled, scanLong, name, behind, String.ofList_toList, found,
      takesValue]
  have hyphen : looksLikeOption (assigned flag value) = true := by
    simp only [looksLikeOption, spelled]
  rw [ofArguments, if_neg notHyphens, if_pos hyphen, scanned]
  rfl

end Event

namespace Overrides

/-! ## Options one by one -/

/-- What follows these options is read as if it stood alone, but with the overrides. -/
def SetBy (o : Overrides) (options : List String) : Prop :=
  ∀ rest, Command.ofArguments (options ++ rest) =
    Command.ofEvents o (Event.ofArguments Command.globalFlags rest)

theorem setBy_nil : SetBy ⟨none, none, none⟩ [] := fun _ => rfl

theorem SetBy.concat {next : Overrides} {option : String} (set : o.SetBy options)
    (adds : ∀ rest, Command.ofEvents o (Event.ofArguments Command.globalFlags (option :: rest)) =
      Command.ofEvents next (Event.ofArguments Command.globalFlags rest)) :
    next.SetBy (options ++ [option]) := by
  intro rest
  rw [List.append_assoc, List.singleton_append, set, adds]

/-! ## Writing them -/

open Command (settingsFileFlag sizeFlag colorsFlag)

theorem SetBy.settingsFile (set : o.SetBy options) (free : o.settingsFile = none) {path : String}
    (named : path ≠ "") : SetBy { o with settingsFile := some path }
      (options ++ [Event.assigned settingsFileFlag path]) := by
  refine set.concat fun rest => ?_
  rw [Event.ofArguments_assigned (by rfl) rfl (by decide +kernel)]
  simp only [Command.ofEvents, settingsFileFlag, free, named, ne_eq, not_false_eq_true, and_self,
    if_true]

theorem SetBy.size (set : o.SetBy options) (free : o.size = none) {size : Nat}
    (le : size ≤ Count.limit) : SetBy { o with size := some size }
      (options ++ [Event.assigned sizeFlag (String.ofList (Count.digits size))]) := by
  have read : Command.number? (String.ofList (Count.digits size)) = some size := by
    have noSign : ∀ rest, Count.digits size ≠ '+' :: rest := by
      intro rest h
      have digit := Count.isDigit_of_mem_digits (h.symm ▸ List.mem_cons_self)
      exact absurd digit (by decide)
    unfold Command.number?
    rw [String.toList_ofList]
    split
    · exact absurd ‹_› (noSign _)
    · exact Count.ofDigits?_digits le
  refine set.concat fun rest => ?_
  rw [Event.ofArguments_assigned (by rfl) rfl (by decide +kernel)]
  simp only [Command.ofEvents, sizeFlag, free, read]

theorem SetBy.colors (set : o.SetBy options) (free : o.colors = none) (colors : String) :
    SetBy { o with colors := some colors } (options ++ [Event.assigned colorsFlag colors]) := by
  refine set.concat fun rest => ?_
  rw [Event.ofArguments_assigned (by rfl) rfl (by decide +kernel)]
  simp only [Command.ofEvents, colorsFlag, free]

/-- The options that ask for some overrides. -/
def arguments (o : Overrides) : List String :=
  (o.settingsFile.map (Event.assigned settingsFileFlag)).toList ++
    (o.size.map fun size =>
      Event.assigned sizeFlag (String.ofList (Count.digits size))).toList ++
    (o.colors.map (Event.assigned colorsFlag)).toList

theorem setBy_arguments (o : Overrides) (named : ∀ path ∈ o.settingsFile, path ≠ "")
    (le : ∀ size ∈ o.size, size ≤ Count.limit) : o.SetBy o.arguments := by
  obtain ⟨file, size, colors⟩ := o
  have fileSet : SetBy ⟨file, none, none⟩ (arguments ⟨file, none, none⟩) := by
    cases file with
    | none => exact setBy_nil
    | some path => exact setBy_nil.settingsFile rfl (named path rfl)
  have sizeSet : SetBy ⟨file, size, none⟩ (arguments ⟨file, size, none⟩) := by
    cases size with
    | none => exact fileSet
    | some size => simpa [arguments] using fileSet.size rfl (le size rfl)
  cases colors with
  | none => exact sizeSet
  | some colors => simpa [arguments] using sizeSet.colors rfl colors

end Overrides

/-! ## A task behind them -/

theorem Command.operandOf_singleton {name : String} (plain : Event.looksLikeOption text = false) :
    operandOf name none (Event.ofArguments taskFlags [text]) = .ok text := by
  rw [Event.ofArguments_operand plain]
  rfl

theorem Overrides.SetBy.perform {name : String} {task : Task} (set : o.SetBy options)
    (plain : Event.looksLikeOption name = false) (asked : Command.taskOf name [text] = .ok task) :
    Command.ofArguments (options ++ [name, text]) = .perform ⟨o, task⟩ := by
  rw [set, Event.ofArguments_operand plain, Command.ofEvents, asked]

theorem Overrides.SetBy.readBy (set : o.SetBy options) :
    o.ReadBy options Command.ofArguments where
  apply plain := by
    refine set.perform (by decide +kernel) ?_
    simp only [Command.taskOf, Command.operandOf_singleton (Event.not_looksLikeOption plain)]
    rfl
  invert plain := by
    refine set.perform (by decide +kernel) ?_
    simp only [Command.taskOf, Command.operandOf_singleton (Event.not_looksLikeOption plain)]
    rfl

/-- The settings and the cube come first, whatever the task. -/
theorem Request.perform_of_new [∀ k, Hashable (Facelets k)] {r : Request} {tools : Tools}
    {s : Surroundings} {settings : Settings} {c : Cube (r.overrides.size.getD settings.size)}
    (load : r.settings? tools s = some settings)
    (made : Cube.new (r.overrides.size.getD settings.size)
      (r.overrides.colors.getD settings.colors) = .ok c) :
    r.perform tools s = r.task.perform tools c settings.scrambleLength s.freshSeed := by
  simp only [Request.perform, load, made]

end Twisty.CommandLine
