import Twisty.Proofs.Atomicity
import Twisty.Proofs.Loading
import Twisty.Proofs.Options
import Twisty.Proofs.Reachable
import Twisty.Proofs.Scrambling

/-! What is printed of a run. A run that prints its lines as it goes would leave those behind
that come before a fault. Every fault comes before the first line, though, so such a run
prints what the whole run has for output at its end, or nothing. There is a fault just when
the settings, the cube or the text of the task have one. -/

namespace Twisty.CommandLine

variable {n : Nat}

/-- A run that prints as it goes. After a failure, what it has printed stays printed. -/
abbrev Session := EStateM Failure String

namespace Session

def printLine (line : String) : Session Unit := modify fun printed => printed ++ (line ++ "\n")

def require {α : Type} : Except Failure α → Session α
  | .ok x => pure x
  | .error failure => throw failure

/-! ## Where the lines come -/

theorem printed_pair (first second : String) :
    Task.printed [first, second] = Task.printed [first] ++ Task.printed [second] := by
  simp [Task.printed, String.join_cons]

theorem run_printLine (line printed : String) :
    (printLine line).run printed = .ok () (printed ++ Task.printed [line]) := by
  simp [printLine, Task.printed, String.join_cons, EStateM.run_modify]

theorem run_printTwo (first second printed : String) :
    (do printLine first; printLine second : Session Unit).run printed =
      .ok () (printed ++ Task.printed [first, second]) := by
  rw [EStateM.run_bind, run_printLine]
  dsimp only
  rw [run_printLine, printed_pair, String.append_assoc]

theorem run_require_bind {α : Type} (result : Except Failure α) (next : α → Session Unit)
    (printed : String) :
    (require result >>= next).run printed =
      match result with
      | .ok x => (next x).run printed
      | .error failure => .error failure printed := by
  cases result <;> rfl

/-! ## Whole runs -/

variable [∀ k, Hashable (Facelets k)]

/-- A task, starting from a solved cube. -/
def task (tools : Tools) (c : Cube n) (usualLength : Option Nat) (freshSeed : Nat) :
    Task → Session Unit
  | .apply text => do
    let d ← require ((c.applyText text).mapError .cube)
    printLine d.state.net
    printLine (Task.verdict d)
  | .invert text => do
    let a ← require ((Algorithm.parse text).mapError .parse)
    printLine a.inverse.text
  | .scramble length seed =>
    match c.scramble (tools.generator (seed.getD freshSeed)) (length.or usualLength) with
    | none => throw .endlessScramble
    | some (moves, d, _) => do
      printLine moves.text
      printLine d.state.net
  | .validate text => do
    let d ← require ((c.applyText text).mapError .cube)
    printLine (Task.validity d)

/-- Settings, cube and task, one after another. -/
def perform (r : Request) (tools : Tools) (s : Surroundings) : Session Unit :=
  match r.settings? tools s with
  | none => throw .settings
  | some settings => do
    let c ← require ((Cube.new (r.overrides.size.getD settings.size)
      (r.overrides.colors.getD settings.colors)).mapError .cube)
    task tools c settings.scrambleLength s.freshSeed r.task

/-- How a run ends that prints everything at its end, or nothing. -/
def settled (printed : String) : Except Failure String → EStateM.Result Failure String Unit
  | .ok output => .ok () (printed ++ output)
  | .error failure => .error failure printed

/-- A task prints when nothing can fail any more. -/
theorem run_task (tools : Tools) (c : Cube n) (usualLength : Option Nat) (freshSeed : Nat)
    (t : Task) (printed : String) :
    (task tools c usualLength freshSeed t).run printed =
      settled printed (t.perform tools c usualLength freshSeed) := by
  cases t with
  | apply text =>
    rw [task, Task.perform, run_require_bind]
    cases c.applyText text with
    | error error => rfl
    | ok d => exact run_printTwo _ _ printed
  | invert text =>
    rw [task, Task.perform, run_require_bind]
    cases Algorithm.parse text with
    | error error => rfl
    | ok a => exact run_printLine _ printed
  | scramble length seed =>
    rw [task, Task.perform]
    cases c.scramble (tools.generator (seed.getD freshSeed)) (length.or usualLength) with
    | none => rfl
    | some done => exact run_printTwo _ _ printed
  | validate text =>
    rw [task, Task.perform, run_require_bind]
    cases c.applyText text with
    | error error => rfl
    | ok d => exact run_printLine _ printed

theorem run_perform (r : Request) (tools : Tools) (s : Surroundings) (printed : String) :
    (perform r tools s).run printed = settled printed (r.perform tools s) := by
  rw [perform, Request.perform]
  cases r.settings? tools s with
  | none => rfl
  | some settings =>
    dsimp only
    rw [run_require_bind]
    cases Cube.new (r.overrides.size.getD settings.size)
        (r.overrides.colors.getD settings.colors) with
    | error error => rfl
    | ok c => exact run_task tools c settings.scrambleLength s.freshSeed r.task printed

end Session

/-! ## When there is no fault -/

theorem exists_applyText_eq_ok_iff {c : Cube n} {text : String} :
    (∃ d, c.applyText text = .ok d) ↔
      ∃ a, Algorithm.parse text = .ok a ∧ ∀ m ∈ a, m.width < n := by
  simp only [Cube.applyText_eq_ok_iff]
  rw [exists_comm]
  simp only [exists_and_left, Cube.exists_apply_eq_ok_iff]

section Tools

variable [∀ k, Hashable (Facelets k)]

/-- What a task needs of its text, and a scramble of its draws: that its loop comes to an
end. The cube that it starts from shows `start`. -/
def Task.Feasible (tools : Tools) (start : Facelets n) (usualLength : Option Nat)
    (freshSeed : Nat) : Task → Prop
  | .apply text | .validate text => ∃ a, Algorithm.parse text = .ok a ∧ ∀ m ∈ a, m.width < n
  | .invert text => ∃ a, Algorithm.parse text = .ok a
  | .scramble length seed =>
    ∃ k, (length.or usualLength).getD (8 * n) ≤
      (Scramble.step^[k] (.start start (tools.generator (seed.getD freshSeed)))).moves.length

theorem Task.exists_perform_eq_ok_iff {tools : Tools} {c : Cube n} {usualLength : Option Nat}
    {freshSeed : Nat} {t : Task} :
    (∃ output, t.perform tools c usualLength freshSeed = .ok output) ↔
      t.Feasible tools c.state usualLength freshSeed := by
  cases t with
  | apply text =>
    rw [Feasible, ← exists_applyText_eq_ok_iff (c := c), perform]
    cases c.applyText text <;> simp
  | invert text =>
    rw [Feasible, perform]
    cases Algorithm.parse text <;> simp
  | scramble length seed =>
    rw [Feasible, ← Cube.isSome_scramble_iff, perform]
    cases c.scramble (tools.generator (seed.getD freshSeed)) (length.or usualLength) <;> simp
  | validate text =>
    rw [Feasible, ← exists_applyText_eq_ok_iff (c := c), perform]
    cases c.applyText text <;> simp

namespace Request

open Settings

variable {r : Request} {tools : Tools} {s : Surroundings} {entries : List Entry}

/-- The size is what the command line says, else the settings file, else three. -/
def size (r : Request) (entries : List Entry) : Nat :=
  r.overrides.size.getD ((sizeIn? entries).getD 3)

/-- So it is with the colors. -/
def colors (r : Request) (entries : List Entry) : String :=
  r.overrides.colors.getD ((colorsIn? entries).getD "wgrboy")

/-- All that a run needs: settings, and what remains of them where the command line says
nothing else must be a cube's size and colors. -/
structure Sound (r : Request) (tools : Tools) (s : Surroundings) (entries : List Entry)
    (six : PerFace Char) : Prop where
  loaded : LoadedFrom tools.format (r.overrides.settingsFile.map s.file) s.usualSettings entries
  two_le : 2 ≤ r.size entries
  colors : six.toList = (r.colors entries).toList
  distinct : six.toList.Nodup
  feasible : r.task.Feasible tools (.solved (r.size entries) six) (lengthIn? entries)
    s.freshSeed

theorem exists_perform_eq_ok_iff :
    (∃ output, r.perform tools s = .ok output) ↔
      ∃ entries six, r.Sound tools s entries six := by
  -- There is no usual length: without an entry it depends on the size.
  have length : ∀ entries, (usual.updated entries).scrambleLength = lengthIn? entries :=
    fun _ => Option.or_none
  constructor
  · rintro ⟨output, h⟩
    cases load : r.settings? tools s with
    | none => rw [perform, load] at h; cases h
    | some settings =>
      obtain ⟨entries, loaded, rfl⟩ := load?_eq_some_iff.1 load
      rw [perform, load] at h
      dsimp only at h
      split at h
      · cases h
      · rename_i c made
        obtain ⟨spelled, fresh⟩ := Cube.new_eq_ok_iff.1 made
        have feasible := Task.exists_perform_eq_ok_iff.1 ⟨output, h⟩
        rw [fresh.state, length] at feasible
        exact ⟨entries, c.colors, loaded, c.two_le, spelled, c.distinct, feasible⟩
  · rintro ⟨entries, six, sound⟩
    have load : r.settings? tools s = some (usual.updated entries) :=
      load?_eq_some_iff.2 ⟨entries, sound.loaded, rfl⟩
    have made : Cube.new (r.overrides.size.getD (usual.updated entries).size)
        (r.overrides.colors.getD (usual.updated entries).colors) =
        .ok ⟨six, .solved _ six, .solved _ six, sound.two_le, sound.distinct⟩ :=
      Cube.new_eq_ok_iff.2 ⟨sound.colors, rfl, rfl⟩
    rw [perform_of_new load made, length]
    exact Task.exists_perform_eq_ok_iff.2 sound.feasible

end Request

/-- A run ends well just if there are settings, a cube that fits what is said of it on the
command line, in the settings or nowhere, and no fault in what the task is about. Printing
line by line, it leaves the same output behind; and if it ends any other way, nothing. -/
theorem run_all_or_nothing {tools : Tools} {args : List String} {r : Request}
    (asked : tools.command args = .perform r) (s : Surroundings) :
    ((tools.run args s).status = 0 ↔ ∃ entries six, r.Sound tools s entries six) ∧
    ((tools.run args s).status = 0 →
      (Session.perform r tools s).run "" = .ok () (tools.run args s).output) ∧
    ((tools.run args s).status ≠ 0 → (tools.run args s).output = "" ∧
      ∃ failure, (Session.perform r tools s).run "" = .error failure "") := by
  rw [← Request.exists_perform_eq_ok_iff, Session.run_perform, Tools.run, asked, Command.run]
  cases r.perform tools s with
  | ok output => simp [Session.settled]
  | error failure => simp [Session.settled]

end Tools

/-- The settings ask for a size that no cube has. -/
def tooSmall : Surroundings := ⟨fun _ => .missing, .text "size = 1", 0⟩

def askedDeep : Request := ⟨⟨none, some 4, none⟩, .apply "3Fw R"⟩

def askedNothing : Request := ⟨⟨none, none, none⟩, .apply "R"⟩

theorem sound_askedDeep :
    askedDeep.Sound Tools.usual tooSmall [⟨"size", .number 1⟩] Cube.standard.colors where
  loaded := ⟨by decide +kernel, by decide, List.forall_mem_singleton.2 (.size (by decide))⟩
  two_le := by decide
  colors := by decide +kernel
  distinct := by decide
  feasible :=
    ⟨[⟨3, .outer .f, .clockwise, by decide, by decide, by decide⟩, .single (.outer .r) .clockwise],
      by decide +kernel, by decide⟩

/-- A size on the command line stands in for the one in the settings, and without it the
cube is at fault. -/
theorem run_all_or_nothing_tooSmall :
    Tools.usual.command ["--size=4", "apply", "3Fw R"] = .perform askedDeep ∧
    (run ["--size=4", "apply", "3Fw R"] tooSmall).status = 0 ∧
    (Session.perform askedDeep Tools.usual tooSmall).run "" =
      .ok () (run ["--size=4", "apply", "3Fw R"] tooSmall).output ∧
    Tools.usual.command ["apply", "R"] = .perform askedNothing ∧
    (run ["apply", "R"] tooSmall).status ≠ 0 ∧
    (run ["apply", "R"] tooSmall).output = "" ∧
    ∃ failure, (Session.perform askedNothing Tools.usual tooSmall).run "" =
      .error failure "" := by
  have deep : Tools.usual.command ["--size=4", "apply", "3Fw R"] = .perform askedDeep := by
    decide +kernel
  have nothing : Tools.usual.command ["apply", "R"] = .perform askedNothing := by decide +kernel
  have fails : (run ["apply", "R"] tooSmall).status ≠ 0 := by decide +kernel
  obtain ⟨ends, prints, -⟩ := run_all_or_nothing deep tooSmall
  obtain ⟨-, -, silent⟩ := run_all_or_nothing nothing tooSmall
  have done := ends.2 ⟨_, _, sound_askedDeep⟩
  exact ⟨deep, done, prints done, nothing, fails, silent fails⟩

end Twisty.CommandLine
