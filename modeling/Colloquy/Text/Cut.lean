import Colloquy.Text.Blank

/-!
# Cutting text

Searching and splitting on lists of characters.  Each search returns the text around what it found,
so that a caller never deals in offsets: `cut?` gives the two sides of the first occurrence of a
pattern and `pieces` the stretches between separators.  The lemmas say that no character is lost.
-/

namespace Colloquy.Text

/-- What follows the pattern at the start of the text, if the text starts with it. -/
def leading? : List Char → List Char → Option (List Char)
  | [], s => some s
  | _ :: _, [] => none
  | p :: ps, c :: s => if p = c then leading? ps s else none

theorem leading?_eq_some_iff {pat s rest : List Char} :
    leading? pat s = some rest ↔ s = pat ++ rest := by
  induction pat generalizing s with
  | nil => simp [leading?, eq_comm]
  | cons p ps ih =>
    cases s with
    | nil => simp [leading?]
    | cons c s =>
      by_cases h : p = c
      · simp [leading?, h, ih]
      · simp [leading?, h, Ne.symm h]

/-- The text before and after the first occurrence of a pattern. -/
def cut? (pat : List Char) : List Char → Option (List Char × List Char)
  | [] => (leading? pat []).map fun rest => ([], rest)
  | c :: s =>
    match leading? pat (c :: s) with
    | some rest => some ([], rest)
    | none => (cut? pat s).map fun (before, after) => (c :: before, after)

/-- Cutting loses nothing: the two sides and the pattern between them are the text. -/
theorem eq_append_of_cut? {pat s before after : List Char}
    (h : cut? pat s = some (before, after)) : s = before ++ pat ++ after := by
  induction s generalizing before with
  | nil =>
    simp only [cut?, Option.map_eq_some_iff, Prod.mk.injEq] at h
    obtain ⟨rest, hl, rfl, rfl⟩ := h
    simpa using leading?_eq_some_iff.mp hl
  | cons c s ih =>
    unfold cut? at h
    split at h
    · rename_i rest hl
      simp only [Option.some.injEq, Prod.mk.injEq] at h
      obtain ⟨rfl, rfl⟩ := h
      simpa using leading?_eq_some_iff.mp hl
    · simp only [Option.map_eq_some_iff, Prod.mk.injEq, Prod.exists] at h
      obtain ⟨b, a, hc, rfl, rfl⟩ := h
      simp [ih hc]

/-- What follows a cut is shorter than the text by at least the pattern. -/
theorem length_of_cut? {pat s before after : List Char} (h : cut? pat s = some (before, after)) :
    after.length + pat.length ≤ s.length := by
  have := congrArg List.length (eq_append_of_cut? h)
  simp only [List.length_append] at this
  omega

/-- The text before and after the first character that passes a test; the character itself goes. -/
def cutAt? (p : Char → Bool) : List Char → Option (List Char × List Char)
  | [] => none
  | c :: s =>
    if p c then some ([], s) else (cutAt? p s).map fun (before, after) => (c :: before, after)

/-- Cutting at a character loses only that character, and it passes the test. -/
theorem eq_append_of_cutAt? {p : Char → Bool} {s before after : List Char}
    (h : cutAt? p s = some (before, after)) : ∃ c, p c = true ∧ s = before ++ c :: after := by
  induction s generalizing before with
  | nil => simp [cutAt?] at h
  | cons c s ih =>
    unfold cutAt? at h
    split at h
    · rename_i hc
      simp only [Option.some.injEq, Prod.mk.injEq] at h
      exact ⟨c, hc, by simp [← h.1, h.2]⟩
    · simp only [Option.map_eq_some_iff, Prod.mk.injEq, Prod.exists] at h
      obtain ⟨b, a, hc, rfl, rfl⟩ := h
      obtain ⟨d, hd, rfl⟩ := ih hc
      exact ⟨d, hd, rfl⟩

theorem length_of_cutAt? {p : Char → Bool} {s before after : List Char}
    (h : cutAt? p s = some (before, after)) : after.length < s.length := by
  obtain ⟨c, _, rfl⟩ := eq_append_of_cutAt? h
  simp
  omega

/-- The stretches of text between the characters that pass a test; there is always at least one. -/
def pieces (sep : Char → Bool) : List Char → List (List Char)
  | [] => [[]]
  | c :: s =>
    if sep c then [] :: pieces sep s
    else match pieces sep s with
      | [] => [[c]]
      | p :: ps => (c :: p) :: ps

/-- The text up to and without the last character that passes a test, if one does. -/
def cutAtLast? (p : Char → Bool) : List Char → Option (List Char × List Char)
  | [] => none
  | c :: s =>
    match cutAtLast? p s with
    | some (before, after) => some (c :: before, after)
    | none => if p c then some ([], s) else none

/-- The lines of a text, each with its line end; the last may have none. -/
def lines : List Char → List (List Char)
  | [] => []
  | c :: s =>
    if c = '\n' then [c] :: lines s
    else match lines s with
      | [] => [[c]]
      | l :: ls => (c :: l) :: ls

/-- The lines make up the text. -/
@[simp] theorem flatten_lines (s : List Char) : (lines s).flatten = s := by
  induction s with
  | nil => rfl
  | cons c s ih =>
    unfold lines
    split
    · simp [ih]
    · split
      · rename_i h
        simp [h] at ih
        simp [← ih]
      · rename_i h
        simp [h] at ih
        simp [← ih]

/-- The first line of a text, without its line end. -/
def firstLine (s : List Char) : List Char := s.takeWhile (· ≠ '\n')

end Colloquy.Text
