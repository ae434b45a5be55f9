import Twisty.Proofs.Canonical
import Mathlib.Order.Basic

/-! Repeating. To undo what is made a number of times is to make its inverse as often. An
algorithm is repeated in two places, on its own and where a group closes in a text, and both
come to the same: the same moves for every count for which there is room, and the same fault
for a count of zero. -/

namespace Twisty

open Text

namespace RepeatCount

/-- The digits that are printed of a count. -/
def ofNat (k : Nat) (one_le : 1 ≤ k) (le_limit : k ≤ Count.limit) : RepeatCount where
  digits := Count.digits k
  nonempty := Count.digits_ne_nil k
  isDigit _ := Count.isDigit_of_mem_digits
  one_le := by rwa [Count.value_digits]
  le_limit := by rwa [Count.value_digits]

theorem expand_ofNat {k : Nat} (one_le : 1 ≤ k) (le_limit : k ≤ Count.limit) (a : Algorithm) :
    expand (some (ofNat k one_le le_limit)) a = Algorithm.copies k a := by
  have times_eq : times (some (ofNat k one_le le_limit)) = k := Count.value_digits k
  rw [expand, times_eq, Algorithm.copies_eq]

end RepeatCount

/-- Whatever is held before a group of printed moves, only its end is left to be taken. -/
theorem Pending.takeAll_group (a : Algorithm) (current : List Move) (outer : List (List Move))
    (more : List Token) :
    takeAll ⟨current, outer⟩ (.opening :: (a.words ++ more)) =
      takeAll ⟨a.reverse, current :: outer⟩ more := by
  have opened : take ⟨current, outer⟩ .opening = .ok ⟨[], current :: outer⟩ := rfl
  have inside : takeAll ⟨[], current :: outer⟩ a.words = .ok ⟨a.reverse ++ [], current :: outer⟩ :=
    takeAll_words a [] (current :: outer)
  rw [takeAll_of_take opened, takeAll_append inside, List.append_nil]

namespace Algorithm

/-- The printed moves as a group with a count, such as `(R U')3`. -/
def groupText (a : Algorithm) (k : Nat) : String := "(" ++ a.text ++ ")" ++ toString k

theorem toList_groupText (a : Algorithm) (k : Nat) :
    (a.groupText k).toList = '(' :: (a.chars ++ ')' :: Count.digits k) := by
  simp [groupText, text, Count.digits]

theorem scan_groupText (a : Algorithm) (k : Nat) :
    Token.scan (a.groupText k).toList =
      .ok (.opening :: (a.words ++ [.closing (Count.digits k)])) := by
  have closed : Token.scan (')' :: (Count.digits k ++ [])) = .ok [.closing (Count.digits k)] := by
    rw [Token.scan_closing (fun _ => Count.isDigit_of_mem_digits) ends_nil, Token.scan_nil]
    rfl
  rw [List.append_nil] at closed
  rw [toList_groupText, Token.scan_opening, Token.scan_append a.scan_chars (ends_cons rfl _),
    closed]
  rfl

theorem ofChars_groupText (a : Algorithm) (k : Nat) :
    ofChars (a.groupText k).toList =
      (Pending.take ⟨a.reverse, [[]]⟩ (.closing (Count.digits k))).bind Pending.finish := by
  rw [ofChars_of_scan (scan_groupText a k), Pending.empty, Pending.takeAll_group,
    Pending.takeAll]
  cases Pending.take ⟨a.reverse, [[]]⟩ (.closing (Count.digits k)) <;> rfl

theorem parse_groupText {k : Nat} (one_le : 1 ≤ k) (le_limit : k ≤ Count.limit) {a : Algorithm}
    (room : a.length * k ≤ Pending.capacity) : parse (a.groupText k) = .ok (copies k a) := by
  have closes : Pending.take ⟨a.reverse, [[]]⟩ (.closing (Count.digits k)) =
      .ok ⟨(copies k a).reverse ++ [], []⟩ := by
    have fits : Pending.held [] [] +
        (RepeatCount.expand (some (.ofNat k one_le le_limit)) a).length ≤ Pending.capacity := by
      rw [RepeatCount.expand_ofNat, length_copies, Nat.mul_comm]
      exact (Nat.zero_add _).trans_le room
    rw [← RepeatCount.expand_ofNat one_le le_limit]
    exact Pending.take_closing (some (.ofNat k one_le le_limit)) fits
  rw [parse_eq_ok_iff, ofChars_groupText, closes, List.append_nil]
  show Except.ok (copies k a).reverse.reverse = _
  rw [List.reverse_reverse]

theorem parse_groupText_zero (a : Algorithm) :
    parse (a.groupText 0) = .error (.grouping (a.groupText 0) (.badCount "0")) := by
  have refused : Pending.take ⟨a.reverse, [[]]⟩ (.closing (Count.digits 0)) =
      .error (.grouping (.badCount "0")) := by
    have counted : Pending.readCount (Count.digits 0) = .error (.badCount "0") := by
      decide +kernel
    rw [Pending.take, Pending.closeGroup, counted]
    rfl
  rw [parse, ofChars_groupText, refused]
  rfl

/-- To invert twice changes nothing. Of one algorithm after another the later one is
inverted first, so what is repeated is inverted each time. A group that is written with a
count says what the count makes of its moves, as long as they can be held at sixteen bytes
each, and a count of zero is as wrong in a text as anywhere else. -/
theorem inverse_repeated (a b : Algorithm) :
    a.inverse.inverse = a ∧
    (a ++ b).inverse = b.inverse ++ a.inverse ∧
    (∀ k, 1 ≤ k → k < 2 ^ 64 → a.length * k * 16 ≤ 2 ^ 63 - 1 →
      ∃ r : Algorithm, r = (List.replicate k a).flatten ∧ a.repeated k = .ok r ∧
        a.inverse.repeated k = .ok r.inverse ∧ parse (a.groupText k) = .ok r) ∧
    a.repeated 0 = .error (.grouping a.text (.badCount "0")) ∧
    parse (a.groupText 0) = .error (.grouping (a.groupText 0) (.badCount "0")) := by
  refine ⟨inverse_inverse a, inverse_append a b, ?_, rfl, parse_groupText_zero a⟩
  intro k one_le lt bytes
  have le_limit : k ≤ Count.limit := Nat.le_of_lt_succ lt
  have room : a.length * k ≤ Pending.capacity := by
    unfold Pending.capacity
    omega
  refine ⟨copies k a, copies_eq k a, repeated_of_one_le one_le a, ?_,
    parse_groupText one_le le_limit room⟩
  rw [inverse_copies]
  exact repeated_of_one_le one_le a.inverse

/-- A layer turn thirteen layers deep and a turn of the whole cube. -/
def deepAndWhole : Algorithm :=
  [⟨13, .outer .f, .half, by decide, by decide, by decide⟩,
    .single (.rotation .x) .counterclockwise]

theorem inverse_repeated_thrice :
    1 ≤ 3 ∧ 3 < 2 ^ 64 ∧ deepAndWhole.length * 3 * 16 ≤ 2 ^ 63 - 1 ∧
    deepAndWhole.groupText 3 = "(13Fw2 x')3" ∧
    ∃ r : Algorithm, r = (List.replicate 3 deepAndWhole).flatten ∧
      deepAndWhole.repeated 3 = .ok r ∧ deepAndWhole.inverse.repeated 3 = .ok r.inverse ∧
      parse (deepAndWhole.groupText 3) = .ok r ∧
      r.inverse.text = "x 13Fw2 x 13Fw2 x 13Fw2" := by
  obtain ⟨-, -, times, -⟩ := inverse_repeated deepAndWhole []
  have bytes : deepAndWhole.length * 3 * 16 ≤ 2 ^ 63 - 1 := by decide
  obtain ⟨r, rfl, repeats, inverts, reads⟩ := times 3 (by decide) (by decide) bytes
  exact ⟨by decide, by decide, bytes, by decide +kernel, _, rfl, repeats, inverts, reads,
    by decide +kernel⟩

end Algorithm

end Twisty
