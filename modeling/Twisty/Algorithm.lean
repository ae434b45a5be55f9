import Twisty.Move.Basic

/-! Algorithms: moves in the order in which they are made. -/

namespace Twisty

abbrev Algorithm := List Move

namespace Algorithm

/-- The moves undone one by one, the last one first. -/
def inverse (a : Algorithm) : Algorithm := a.reverse.map Move.inverse

@[simp] theorem inverse_nil : inverse [] = [] := rfl

theorem inverse_cons (m : Move) (a : Algorithm) : inverse (m :: a) = inverse a ++ [m.inverse] := by
  simp [inverse]

theorem inverse_append (a b : Algorithm) : inverse (a ++ b) = inverse b ++ inverse a := by
  simp [inverse]

@[simp] theorem inverse_inverse (a : Algorithm) : inverse (inverse a) = a := by
  simp [inverse, Function.comp_def]

@[simp] theorem length_inverse (a : Algorithm) : (inverse a).length = a.length := by
  simp [inverse]

theorem mem_inverse_iff {m : Move} {a : Algorithm} : m ∈ inverse a ↔ m.inverse ∈ a := by
  simp only [inverse, List.mem_map, List.mem_reverse]
  refine ⟨?_, fun h => ⟨m.inverse, h, m.inverse_inverse⟩⟩
  rintro ⟨k, hk, rfl⟩
  rwa [Move.inverse_inverse]

/-- The moves a number of times over. However large the number, no moves stay no
moves. -/
def copies (count : Nat) (a : Algorithm) : Algorithm :=
  if a = [] then [] else (List.replicate count a).flatten

theorem copies_eq (count : Nat) (a : Algorithm) :
    copies count a = (List.replicate count a).flatten := by
  simp only [copies]
  split
  · rename_i h; subst h; simp
  · rfl

@[simp] theorem length_copies (count : Nat) (a : Algorithm) :
    (copies count a).length = count * a.length := by
  simp [copies_eq]

@[simp] theorem copies_zero (a : Algorithm) : copies 0 a = [] := by
  rw [copies_eq, List.replicate_zero, List.flatten_nil]

theorem copies_succ (count : Nat) (a : Algorithm) :
    copies (count + 1) a = a ++ copies count a := by
  rw [copies_eq, copies_eq, List.replicate_succ, List.flatten_cons]

theorem copies_concat (count : Nat) (a : Algorithm) :
    copies (count + 1) a = copies count a ++ a := by
  rw [copies_eq, copies_eq, List.replicate_succ', List.flatten_concat]

/-- By induction on the number. What was made the first time is undone the last time. -/
theorem inverse_copies (count : Nat) (a : Algorithm) :
    inverse (copies count a) = copies count (inverse a) := by
  induction count with
  | zero => rw [copies_zero, copies_zero, inverse_nil]
  | succ count ih =>
    calc inverse (copies (count + 1) a)
        = inverse (copies count a) ++ inverse a := by rw [copies_succ, inverse_append]
      _ = copies count (inverse a) ++ inverse a := by rw [ih]
      _ = copies (count + 1) (inverse a) := (copies_concat count (inverse a)).symm

/-! ## Text -/

def chars (a : Algorithm) : List Char := [' '].intercalate (a.map Move.chars)

theorem chars_singleton (m : Move) : chars [m] = m.chars := by
  simp [chars]

theorem chars_cons_cons (m k : Move) (rest : Algorithm) :
    chars (m :: k :: rest) = m.chars ++ ' ' :: chars (k :: rest) := by
  simp [chars, List.intercalate]

def text (a : Algorithm) : String := String.ofList a.chars

/-- The moves a number of times over, which must be at least once. -/
def repeated (a : Algorithm) (count : Nat) : Except ParseError Algorithm :=
  if count = 0 then .error (.grouping a.text (.badCount "0")) else .ok (copies count a)

theorem repeated_of_one_le {count : Nat} (one_le : 1 ≤ count) (a : Algorithm) :
    a.repeated count = .ok (copies count a) := by
  rw [repeated, if_neg (Nat.ne_of_gt one_le)]

end Algorithm

end Twisty
