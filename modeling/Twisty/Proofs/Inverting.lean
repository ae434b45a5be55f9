import Twisty.Proofs.Canonical
import Twisty.Proofs.Options
import Twisty.Proofs.Reachable
import Twisty.Proofs.Undoing

/-! Inverting on the command line. What is printed of an inverse can be given back to the
program as it is: it is one line, no option, read alone or behind the text it came from,
and behind that text it leaves the cube solved. -/

namespace Twisty

open CommandLine Text

/-! ## What is read and what is printed -/

namespace Algorithm

variable {a : Algorithm} {text : String}

/-- No algorithm begins with a hyphen. -/
theorem head?_ne_hyphen_of_parse (reads : parse text = .ok a) :
    text.toList.head? ≠ some '-' := by
  intro hyphen
  obtain ⟨rest, spelled⟩ := List.head?_eq_some_iff.1 hyphen
  have stuck : Token.next '-' rest = .error (.move ['-']) := rfl
  rw [parse_eq_ok_iff, spelled, ofChars, Token.scan] at reads
  split at reads
  · cases reads
  · rename_i scanned
    split at scanned
    · cases scanned
    · rename_i found
      rw [stuck] at found
      cases found

/-- By induction on the moves. Only blanks stand between two of them. -/
theorem isAlphanum_of_mem_chars {c : Char} (h : c ∈ a.chars) :
    c = ' ' ∨ c.isAlphanum = true ∨ c = '\'' := by
  induction a with
  | nil => exact absurd h List.not_mem_nil
  | cons m rest ih =>
    cases rest with
    | nil =>
      rw [chars_singleton] at h
      exact Or.inr (Move.isAlphanum_of_mem_chars h)
    | cons k rest =>
      rw [chars_cons_cons, List.mem_append, List.mem_cons] at h
      rcases h with first | blank | later
      · exact Or.inr (Move.isAlphanum_of_mem_chars first)
      · exact Or.inl blank
      · exact ih later

/-- An algorithm is printed on one line. -/
theorem not_newline_mem_text (a : Algorithm) : '\n' ∉ a.text.toList := by
  rw [text, String.toList_ofList]
  intro h
  rcases isAlphanum_of_mem_chars h with blank | other | apostrophe
  · exact absurd blank (by decide)
  · exact absurd other (by decide)
  · exact absurd apostrophe (by decide)

end Algorithm

/-! ## There and back -/

namespace Cube

variable {n : Nat} {c : Cube n} {a : Algorithm}

theorem apply_append_inverse (fits : ∀ m ∈ a, m.width < n) : c.apply (a ++ a.inverse) = .ok c := by
  have all : ∀ m ∈ a ++ a.inverse, m.width < n :=
    List.forall_mem_append.2 ⟨fits, Algorithm.fits_inverse_iff.2 fits⟩
  rw [apply_eq_of_fits all, Facelets.makeAll_append, Facelets.makeAll_inverse_makeAll fits]

theorem IsNew.isSolved (fresh : c.IsNew) : c.isSolved = true :=
  (Facelets.isSolved_iff (Nat.zero_lt_of_lt c.two_le) c.state).2 ⟨c.colors, fresh.state⟩

end Cube

namespace CommandLine

variable {o : Overrides} {options : List String} {tools : Tools} {s : Surroundings}
  {settings : Settings} {text : String}

/-- A run that ends well and prints some lines. -/
def Outcome.Prints (outcome : Outcome) (lines : List String) : Prop :=
  outcome.status = 0 ∧ outcome.output = Task.printed lines

section Tools

variable [∀ k, Hashable (Facelets k)]

theorem prints_of_perform {args : List String} {task : Task} {lines : List String}
    {c : Cube (o.size.getD settings.size)} (asked : tools.command args = .perform ⟨o, task⟩)
    (load : tools.format.load? (o.settingsFile.map s.file) s.usualSettings = some settings)
    (made : Cube.new (o.size.getD settings.size) (o.colors.getD settings.colors) = .ok c)
    (done : task.perform tools c settings.scrambleLength s.freshSeed =
      .ok (Task.printed lines)) : (tools.run args s).Prints lines := by
  have performed : Request.perform ⟨o, task⟩ tools s = .ok (Task.printed lines) :=
    (Request.perform_of_new (r := ⟨o, task⟩) load made).trans done
  rw [Tools.run, asked]
  simp only [Command.run, performed]
  exact ⟨rfl, rfl⟩

/-- Wherever size and colors come from, as long as there is such a cube, an inverse is
printed on one line. The inverse of this line is the canonical text, and put behind the
text itself, however that was written, the line leaves the cube solved. -/
theorem run_invert_undoes (read : o.ReadBy options tools.command)
    (load : tools.format.load? (o.settingsFile.map s.file) s.usualSettings = some settings)
    {c : Cube (o.size.getD settings.size)}
    (made : Cube.new (o.size.getD settings.size) (o.colors.getD settings.colors) = .ok c)
    {a : Algorithm} (reads : Algorithm.parse text = .ok a) :
    ∃ line : String, '\n' ∉ line.toList ∧
      (tools.run (options ++ ["invert", text]) s).Prints [line] ∧
      (tools.run (options ++ ["invert", line]) s).Prints [a.text] ∧
      ((∀ m ∈ a, m.width < o.size.getD settings.size) →
        (tools.run (options ++ ["apply", text ++ " " ++ line]) s).Prints
          [c.state.net, green "SOLVED"]) := by
  have inverted : Algorithm.parse a.inverse.text = .ok a.inverse := a.inverse.parse_text
  have both : Algorithm.parse (text ++ " " ++ a.inverse.text) = .ok (a ++ a.inverse) :=
    Algorithm.parse_append reads a.inverse
  refine ⟨a.inverse.text, a.inverse.not_newline_mem_text, ?_, ?_, fun fits => ?_⟩
  · have asked := read.invert (Algorithm.head?_ne_hyphen_of_parse reads)
    exact prints_of_perform asked load made (by simp only [Task.perform, reads])
  · have asked := read.invert (Algorithm.head?_ne_hyphen_of_parse inverted)
    refine prints_of_perform asked load made ?_
    simp only [Task.perform, inverted, Algorithm.inverse_inverse]
  · have asked := read.apply (Algorithm.head?_ne_hyphen_of_parse both)
    have back : c.applyText (text ++ " " ++ a.inverse.text) = .ok c := by
      simp only [Cube.applyText, both, Cube.apply_append_inverse fits]
    refine prints_of_perform asked load made ?_
    simp only [Task.perform, back, Task.verdict, (Cube.new_eq_ok_iff.1 made).2.isSolved, if_true]

end Tools

def wideTwoTimes : Algorithm :=
  Algorithm.copies 2 [.single (.outer .r) .clockwise,
    ⟨3, .outer .f, .counterclockwise, by decide, by decide, by decide⟩]

def askedFour : Overrides := ⟨none, some 4, none⟩

def usualThree : Surroundings := ⟨fun _ => .missing, .text "size = 3 # layers", 0⟩

def fourLayers : Cube 4 :=
  ⟨Cube.standard.colors, .solved 4 Cube.standard.colors, .solved 4 Cube.standard.colors,
    by decide, by decide⟩

/-- The settings ask for a cube on which three layers cannot be turned, the options for a
larger one. -/
theorem run_invert_undoes_four :
    askedFour.ReadBy ["--size=4"] Tools.usual.command ∧
    Tools.usual.format.load? (askedFour.settingsFile.map usualThree.file)
      usualThree.usualSettings = some Settings.usual ∧
    Cube.new (askedFour.size.getD Settings.usual.size)
      (askedFour.colors.getD Settings.usual.colors) = .ok fourLayers ∧
    Algorithm.parse "(R 3Fw')2" = .ok wideTwoTimes ∧
    ∃ line : String, '\n' ∉ line.toList ∧
      (run ["--size=4", "invert", "(R 3Fw')2"] usualThree).Prints [line] ∧
      (run ["--size=4", "invert", line] usualThree).Prints [wideTwoTimes.text] ∧
      (run ["--size=4", "apply", "(R 3Fw')2" ++ " " ++ line] usualThree).Prints
        [fourLayers.state.net, green "SOLVED"] := by
  have written : askedFour.arguments = ["--size=4"] := by decide +kernel
  have read : askedFour.ReadBy ["--size=4"] Tools.usual.command := by
    rw [← written]
    exact (askedFour.setBy_arguments (fun _ h => absurd h (Option.not_mem_none _))
      (by decide)).readBy
  have load : Tools.usual.format.load? (askedFour.settingsFile.map usualThree.file)
      usualThree.usualSettings = some Settings.usual := by decide +kernel
  have made : Cube.new (askedFour.size.getD Settings.usual.size)
      (askedFour.colors.getD Settings.usual.colors) = .ok fourLayers :=
    Cube.new_eq_ok_iff.2 ⟨by decide +kernel, rfl, rfl⟩
  have reads : Algorithm.parse "(R 3Fw')2" = .ok wideTwoTimes := by decide +kernel
  obtain ⟨line, one, inverted, again, solved⟩ := run_invert_undoes read load made reads
  exact ⟨read, load, made, reads, line, one, inverted, again, solved (by decide)⟩

end CommandLine

end Twisty
