/-! Lists of colors: which color is the first to come again, and the colors that
occur, each once and in ascending order of their code points. -/

namespace Twisty.Palette

/-! ## Repeats -/

/-- The first color that was met before, or is met a second time. -/
def firstRepeatAfter? (met : List Char) : List Char → Option Char
  | [] => none
  | c :: rest => if c ∈ met then some c else firstRepeatAfter? (c :: met) rest

def firstRepeat? (colors : List Char) : Option Char := firstRepeatAfter? [] colors

theorem firstRepeatAfter?_eq_none_iff (colors met : List Char) :
    firstRepeatAfter? met colors = none ↔ colors.Nodup ∧ ∀ c ∈ colors, c ∉ met := by
  induction colors generalizing met with
  | nil => simp [firstRepeatAfter?]
  | cons c rest ih =>
    by_cases h : c ∈ met
    · simp [firstRepeatAfter?, h]
    · rw [firstRepeatAfter?, if_neg h, ih, List.nodup_cons]
      constructor
      · intro hr
        obtain ⟨hn, hm⟩ := hr
        refine ⟨⟨fun hc => hm c hc List.mem_cons_self, hn⟩, fun x hx => ?_⟩
        rcases List.mem_cons.1 hx with e | hx
        · exact e ▸ h
        · exact fun hmet => hm x hx (List.mem_cons_of_mem _ hmet)
      · intro hr
        obtain ⟨⟨hc, hn⟩, hm⟩ := hr
        refine ⟨hn, fun x hx hmet => ?_⟩
        rcases List.mem_cons.1 hmet with e | hmet
        · exact hc (e ▸ hx)
        · exact hm x (List.mem_cons_of_mem _ hx) hmet

theorem firstRepeat?_eq_none_iff (colors : List Char) :
    firstRepeat? colors = none ↔ colors.Nodup := by
  simp [firstRepeat?, firstRepeatAfter?_eq_none_iff]

/-- The first color that comes again is behind different ones, and is one of them. -/
theorem firstRepeatAfter?_eq_some_iff {colors met : List Char} (distinct : met.Nodup)
    {c : Char} : firstRepeatAfter? met colors = some c ↔ ∃ before after,
      colors = before ++ c :: after ∧ (before.reverse ++ met).Nodup ∧ c ∈ before.reverse ++ met := by
  induction colors generalizing met with
  | nil => simp [firstRepeatAfter?]
  | cons x rest ih =>
    have joined : ∀ before : List Char,
        (x :: before).reverse ++ met = before.reverse ++ x :: met := by simp
    rw [firstRepeatAfter?]
    by_cases h : x ∈ met
    · rw [if_pos h]
      constructor
      · rintro ⟨⟩
        exact ⟨[], rest, rfl, distinct, h⟩
      · rintro ⟨before, after, split, nodup, -⟩
        cases before with
        | nil =>
          cases split
          rfl
        | cons y before =>
          cases split
          rw [joined] at nodup
          exact absurd h (List.nodup_cons.1 (List.nodup_append.1 nodup).2.1).1
    · rw [if_neg h, ih (List.nodup_cons.2 ⟨h, distinct⟩)]
      constructor
      · rintro ⟨before, after, rfl, nodup, again⟩
        rw [← joined] at nodup again
        exact ⟨x :: before, after, rfl, nodup, again⟩
      · rintro ⟨before, after, split, nodup, again⟩
        cases before with
        | nil =>
          cases split
          exact absurd again h
        | cons y before =>
          cases split
          rw [joined] at nodup again
          exact ⟨before, after, rfl, nodup, again⟩

theorem firstRepeat?_eq_some_iff {colors : List Char} {c : Char} :
    firstRepeat? colors = some c ↔
      ∃ before after, colors = before ++ c :: after ∧ before.Nodup ∧ c ∈ before := by
  rw [firstRepeat?, firstRepeatAfter?_eq_some_iff List.nodup_nil]
  simp [(List.reverse_perm _).nodup_iff]

/-! ## The colors that occur -/

/-- Puts a color into an ascending list unless it is there. -/
def insert (c : Char) : List Char → List Char
  | [] => [c]
  | x :: rest =>
    if c < x then c :: x :: rest
    else if c = x then x :: rest
    else x :: insert c rest

theorem mem_insert {x c : Char} {colors : List Char} :
    x ∈ insert c colors ↔ x = c ∨ x ∈ colors := by
  induction colors with
  | nil => simp [insert]
  | cons y rest ih =>
    rw [insert]
    split
    · simp
    split
    · rename_i h; subst h; simp
    · simp only [List.mem_cons, ih]
      constructor
      · intro h; rcases h with h | h | h <;> simp [h]
      · intro h; rcases h with h | h | h <;> simp [h]

theorem pairwise_insert {c : Char} {colors : List Char} (h : colors.Pairwise (· < ·)) :
    (insert c colors).Pairwise (· < ·) := by
  induction colors with
  | nil => simp [insert]
  | cons y rest ih =>
    obtain ⟨hy, hr⟩ := List.pairwise_cons.1 h
    rw [insert]
    split
    · rename_i hc
      refine List.pairwise_cons.2 ⟨fun x hx => ?_, h⟩
      rcases List.mem_cons.1 hx with e | hx
      · exact e ▸ hc
      · exact Char.lt_trans hc (hy x hx)
    split
    · exact h
    · rename_i hc hne
      refine List.pairwise_cons.2 ⟨fun x hx => ?_, ih hr⟩
      rcases mem_insert.1 hx with e | hx
      · rw [e]
        exact Decidable.byContradiction fun hyc =>
          hne (Char.le_antisymm (Char.not_lt.1 hyc) (Char.not_lt.1 hc))
      · exact hy x hx

def insertAll (colors : List Char) : List Char → List Char
  | [] => colors
  | c :: rest => insertAll (insert c colors) rest

theorem mem_insertAll {x : Char} (stickers colors : List Char) :
    x ∈ insertAll colors stickers ↔ x ∈ stickers ∨ x ∈ colors := by
  induction stickers generalizing colors with
  | nil => simp [insertAll]
  | cons c rest ih =>
    simp only [insertAll, ih, mem_insert, List.mem_cons]
    constructor
    · intro h; rcases h with h | h | h <;> simp [h]
    · intro h; rcases h with (h | h) | h <;> simp [h]

theorem pairwise_insertAll {stickers colors : List Char} (h : colors.Pairwise (· < ·)) :
    (insertAll colors stickers).Pairwise (· < ·) := by
  induction stickers generalizing colors with
  | nil => exact h
  | cons c rest ih => exact ih (pairwise_insert h)

/-- The colors that occur among stickers. -/
def ofStickers (stickers : List Char) : List Char := insertAll [] stickers

theorem mem_ofStickers {x : Char} {stickers : List Char} :
    x ∈ ofStickers stickers ↔ x ∈ stickers := by
  simp [ofStickers, mem_insertAll]

theorem pairwise_ofStickers (stickers : List Char) :
    (ofStickers stickers).Pairwise (· < ·) := pairwise_insertAll List.Pairwise.nil

end Twisty.Palette
