import Twisty.Facelets.Fingerprint
import Twisty.Proofs.Undoing
import Mathlib.Data.List.Basic

/-! All or nothing. A cube that is changed in place would keep what was done to it before a
fault, so an algorithm is gone through twice: all its moves are checked, and only then are
they made, with no check any more. If every move fits, the cube is as if they had been
turned one by one, and otherwise it is as it was. -/

namespace Twisty

open Facelets

/-- What is done to a cube in place. After a fault the cube stays as the fault found it. -/
abbrev Procedure (n : Nat) := EStateM CubeError (Cube n) Unit

namespace Procedure

variable {n : Nat}

def check (layers : Nat) : Procedure n := fun c =>
  match Cube.checkLayers n layers with
  | .ok () => .ok () c
  | .error error => .error error c

/-- Makes a move without asking whether it fits. -/
def execute (m : Move) : Procedure n := modify fun c => { c with state := c.state.make m }

/-- Moves that are checked one by one, each when it is to be made. -/
def turnAll (a : Algorithm) : Procedure n :=
  forM a fun m => do
    check m.width
    execute m

/-- Moves that are all checked before the first of them is made. -/
def apply (a : Algorithm) : Procedure n := do
  forM a fun m => check m.width
  forM a execute

def applyText (text : String) : Procedure n :=
  match Algorithm.parse text with
  | .error fault => throw (.parse fault)
  | .ok a => apply a

/-- How an attempt ends of which nothing is kept if it fails. -/
def settled (c : Cube n) : Except CubeError (Cube n) → EStateM.Result CubeError (Cube n) Unit
  | .ok d => .ok () d
  | .error error => .error error c

/-! ## The two passes -/

theorem run_check_of_lt {m : Move} (fits : m.width < n) (c : Cube n) :
    (check m.width).run c = .ok () c := by
  have legal := Cube.checkLayers_eq_ok_iff.2 ⟨m.width_pos, fits⟩
  simp only [EStateM.run, check, legal]

theorem run_check_of_le {m : Move} (wide : n ≤ m.width) (c : Cube n) :
    (check m.width).run c = .error (.layers m.width n) c := by
  have illegal : Cube.checkLayers n m.width = .error (.layers m.width n) :=
    if_neg fun legal => Nat.not_lt_of_le wide legal.2
  simp only [EStateM.run, check, illegal]

/-- Checking changes nothing, and ends at the first move that is too wide. -/
theorem run_checkAll (a : Algorithm) (c : Cube n) :
    (forM a fun m => check m.width : Procedure n).run c =
      match a.find? fun m => n ≤ m.width with
      | some m => .error (.layers m.width n) c
      | none => .ok () c := by
  induction a with
  | nil => rfl
  | cons m rest ih =>
    rw [List.forM_cons, EStateM.run_bind]
    by_cases fits : m.width < n
    · have passed : decide (n ≤ m.width) = false := by simpa using fits
      rw [run_check_of_lt fits, List.find?_cons, passed]
      exact ih
    · have stopped : decide (n ≤ m.width) = true := by simpa using fits
      rw [run_check_of_le (Nat.le_of_not_lt fits), List.find?_cons, stopped]

theorem run_executeAll (a : Algorithm) (c : Cube n) :
    (forM a execute : Procedure n).run c = .ok () { c with state := makeAll a c.state } := by
  induction a generalizing c with
  | nil => rfl
  | cons m rest ih =>
    rw [List.forM_cons, EStateM.run_bind, execute, EStateM.run_modify]
    exact ih _

/-- What is checked in the first pass is all that the second needs. -/
theorem run_apply (a : Algorithm) (c : Cube n) :
    (apply a).run c = settled c (c.apply a) := by
  rw [apply, EStateM.run_bind, run_checkAll, Cube.apply]
  cases a.find? fun m => n ≤ m.width with
  | some m => rfl
  | none => exact run_executeAll a c

theorem run_applyText (text : String) (c : Cube n) :
    (applyText text).run c = settled c (c.applyText text) := by
  rw [applyText, Cube.applyText]
  cases Algorithm.parse text with
  | error fault => rfl
  | ok a => exact run_apply a c

/-! ## One by one -/

/-- A move that is too wide is met when those before it have been made. -/
theorem run_turnAll_of_le {before after : Algorithm} {m : Move}
    (fits : ∀ k ∈ before, k.width < n) (wide : n ≤ m.width) (c : Cube n) :
    (turnAll (before ++ m :: after)).run c =
      .error (.layers m.width n) { c with state := makeAll before c.state } := by
  induction before generalizing c with
  | nil =>
    rw [turnAll, List.nil_append, List.forM_cons, EStateM.run_bind, EStateM.run_bind,
      run_check_of_le wide]
    rfl
  | cons k before ih =>
    obtain ⟨hk, hbefore⟩ := List.forall_mem_cons.1 fits
    rw [turnAll, List.cons_append, List.forM_cons, EStateM.run_bind, EStateM.run_bind,
      run_check_of_lt hk]
    exact ih hbefore _

end Procedure

/-- The moves of an algorithm that fit, up to the first one that is too wide. -/
structure Algorithm.StopsAt (n : Nat) (a before : Algorithm) (m : Move) : Prop where
  split : ∃ after, a = before ++ m :: after
  fits : ∀ k ∈ before, k.width < n
  wide : n ≤ m.width

theorem Algorithm.find?_eq_some_iff {n : Nat} {a : Algorithm} {m : Move} :
    (a.find? fun m => n ≤ m.width) = some m ↔ ∃ before, a.StopsAt n before m := by
  rw [List.find?_eq_some_iff_append]
  refine ⟨?_, ?_⟩
  · rintro ⟨wide, before, after, whole, fits⟩
    exact ⟨before, ⟨after, whole⟩, fun k hk => by simpa using fits k hk, by simpa using wide⟩
  · rintro ⟨before, ⟨after, whole⟩, fits, wide⟩
    exact ⟨by simpa using wide, before, after, whole, fun k hk => by simpa using fits k hk⟩

namespace Cube

variable {n : Nat} {c d : Cube n} {a b : Algorithm} {text : String} {error : CubeError}

/-! ## When an algorithm fails -/

theorem apply_eq_error_iff : c.apply a = .error error ↔
    ∃ before m, a.StopsAt n before m ∧ error = .layers m.width n := by
  rw [apply]
  cases found : a.find? fun m => n ≤ m.width with
  | some m =>
    refine ⟨?_, ?_⟩
    · intro h
      cases h
      obtain ⟨before, stops⟩ := Algorithm.find?_eq_some_iff.1 found
      exact ⟨before, m, stops, rfl⟩
    · rintro ⟨before, k, stops, rfl⟩
      cases found.symm.trans (Algorithm.find?_eq_some_iff.2 ⟨before, stops⟩)
      rfl
  | none =>
    refine ⟨?_, ?_⟩
    · intro h
      cases h
    · rintro ⟨before, k, stops, -⟩
      cases found.symm.trans (Algorithm.find?_eq_some_iff.2 ⟨before, stops⟩)

theorem applyText_eq_error_iff : c.applyText text = .error error ↔
    (∃ fault, Algorithm.parse text = .error fault ∧ error = .parse fault) ∨
    ∃ a before m, Algorithm.parse text = .ok a ∧ a.StopsAt n before m ∧
      error = .layers m.width n := by
  rw [applyText]
  cases Algorithm.parse text with
  | error fault => simp [eq_comm]
  | ok a => simp [apply_eq_error_iff]

theorem applyText_eq_ok_iff : c.applyText text = .ok d ↔
    ∃ a, Algorithm.parse text = .ok a ∧ c.apply a = .ok d := by
  rw [applyText]
  cases Algorithm.parse text with
  | error fault => simp
  | ok a => simp

/-! ## What an algorithm does -/

theorem foldlM_turn (fits : ∀ m ∈ a, m.width < n) (c : Cube n) :
    a.foldlM (fun e m => e.turn m) c = .ok { c with state := c.state.makeAll a } := by
  induction a generalizing c with
  | nil => rfl
  | cons m rest ih =>
    obtain ⟨hm, hrest⟩ := List.forall_mem_cons.1 fits
    rw [List.foldlM_cons, turn_eq_of_fits hm]
    exact ih hrest _

theorem apply_append (a b : Algorithm) (c : Cube n) :
    c.apply (a ++ b) = c.apply a >>= fun e => e.apply b := by
  simp only [apply, List.find?_append]
  cases a.find? fun m => n ≤ m.width with
  | some m => rfl
  | none =>
    show _ = apply b { c with state := c.state.makeAll a }
    rw [apply]
    cases b.find? fun m => n ≤ m.width with
    | some m => rfl
    | none => simp [makeAll_append]

/-- An algorithm that is written down fails if it cannot be read or has a move that is too
wide, the first of which is reported, and then nothing at all has changed; the moves before
it would have been made one by one. Otherwise it does what turning the moves does, and all
that moves are composed of fits as well. Two algorithms in a row are one after the
other. -/
theorem applyText_atomic {G : Type} [Source G] [Hashable (Facelets n)] (c : Cube n)
    (text : String) :
    (∀ error, c.applyText text = .error error ↔
      (∃ fault, Algorithm.parse text = .error fault ∧ error = .parse fault) ∨
      ∃ a before m, Algorithm.parse text = .ok a ∧ a.StopsAt n before m ∧
        error = .layers m.width n) ∧
    (∀ error, c.applyText text = .error error →
      (Procedure.applyText text).run c = .error error c ∧
      c.perform (.applyText text : Operation G) = (c, some error) ∧
      ∀ a before m, Algorithm.parse text = .ok a → a.StopsAt n before m →
        (Procedure.turnAll a).run c = .error error { c with state := makeAll before c.state }) ∧
    (∀ d, c.applyText text = .ok d →
      (Procedure.applyText text).run c = .ok () d ∧
      ∃ a, Algorithm.parse text = .ok a ∧ a.foldlM (fun e m => e.turn m) c = .ok d ∧
        ∀ m ∈ a, Composed (n := n) (make m)) ∧
    ∀ a b : Algorithm, c.apply (a ++ b) = (c.apply a >>= fun e => e.apply b) ∧
      ((∃ d, c.apply (a ++ b) = .ok d) ↔ (∃ d, c.apply a = .ok d) ∧ ∃ d, c.apply b = .ok d) := by
  have inPlace := Procedure.run_applyText text c
  refine ⟨fun _ => applyText_eq_error_iff, fun error h => ⟨?_, perform_of_error h, ?_⟩,
    fun d h => ⟨?_, ?_⟩, fun a b => ⟨apply_append a b c, ?_⟩⟩
  · rw [inPlace, h, Procedure.settled]
  · intro a before m parsed stops
    have first : c.applyText text = .error (.layers m.width n) :=
      applyText_eq_error_iff.2 (Or.inr ⟨a, before, m, parsed, stops, rfl⟩)
    cases h.symm.trans first
    obtain ⟨⟨after, rfl⟩, fits, wide⟩ := stops
    exact Procedure.run_turnAll_of_le fits wide c
  · rw [inPlace, h, Procedure.settled]
  · obtain ⟨a, parsed, applied⟩ := applyText_eq_ok_iff.1 h
    obtain ⟨fits, rfl⟩ := apply_eq_ok applied
    exact ⟨a, parsed, foldlM_turn fits c, fun m hm => .make (fits m hm)⟩
  · simp only [exists_apply_eq_ok_iff, List.forall_mem_append]

theorem applyText_third_too_wide :
    standard.applyText "R U 3Rw F" = .error (.layers 3 3) ∧
    (Procedure.applyText "R U 3Rw F").run standard = .error (.layers 3 3) standard ∧
    standard.perform (.applyText "R U 3Rw F" : Operation) = (standard, some (.layers 3 3)) := by
  obtain ⟨-, failed, -⟩ := applyText_atomic (G := Generator) standard "R U 3Rw F"
  have fails : standard.applyText "R U 3Rw F" = .error (.layers 3 3) := by decide +kernel
  obtain ⟨kept, done, -⟩ := failed _ fails
  exact ⟨fails, kept, done⟩

end Cube

end Twisty
