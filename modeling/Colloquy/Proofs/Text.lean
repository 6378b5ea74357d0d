import Colloquy.Text.Cut
import Mathlib.Tactic.Common

/-!
# Cutting at a character

A text is cut at the first occurrence of a character, so the text before the cut does not have it,
and this determines the cut.
-/

namespace Colloquy.Text

/-- A text without the character is not cut at it. -/
lemma cutAt?_eq_none {c : Char} {s : List Char} (h : c ∉ s) : cutAt? (· == c) s = none := by
  induction s with
  | nil => rfl
  | cons d s ih =>
    obtain ⟨hd, hs⟩ := List.ne_and_not_mem_of_not_mem_cons h
    rw [cutAt?, if_neg (by simpa using hd.symm), ih hs]
    rfl

/-- A text is cut at the first occurrence of the character. -/
lemma cutAt?_append_cons {c : Char} {before : List Char} (h : c ∉ before) (after : List Char) :
    cutAt? (· == c) (before ++ c :: after) = some (before, after) := by
  induction before with
  | nil => rw [List.nil_append, cutAt?, if_pos (beq_self_eq_true c)]
  | cons d before ih =>
    obtain ⟨hd, hb⟩ := List.ne_and_not_mem_of_not_mem_cons h
    rw [List.cons_append, cutAt?, if_neg (by simpa using hd.symm), ih hb]
    rfl

/-- There is one way to cut a text at a character that leaves it out of the text before. -/
lemma cutAt?_eq_some_iff {c : Char} {s before after : List Char} :
    cutAt? (· == c) s = some (before, after) ↔ s = before ++ c :: after ∧ c ∉ before := by
  constructor
  · intro h
    by_cases hm : c ∈ s
    · obtain ⟨b, a, rfl, hb⟩ := List.eq_append_cons_of_mem hm
      rw [cutAt?_append_cons hb] at h
      obtain ⟨rfl, rfl⟩ := Prod.mk.inj (Option.some.inj h)
      exact ⟨rfl, hb⟩
    · cases (cutAt?_eq_none hm).symm.trans h
  · rintro ⟨rfl, h⟩
    exact cutAt?_append_cons h after

lemma cutAt?_eq_none_iff {c : Char} {s : List Char} : cutAt? (· == c) s = none ↔ c ∉ s := by
  refine ⟨fun h hm => ?_, cutAt?_eq_none⟩
  obtain ⟨before, after, rfl, hb⟩ := List.eq_append_cons_of_mem hm
  cases (cutAt?_append_cons hb after).symm.trans h

/-! ## The last occurrence -/

lemma cutAtLast?_eq_none {c : Char} {s : List Char} (h : cutAtLast? (· == c) s = none) : c ∉ s := by
  induction s with
  | nil => exact List.not_mem_nil
  | cons d s ih =>
    rw [cutAtLast?] at h
    split at h
    · cases h
    · rename_i hn
      split at h
      · cases h
      · rename_i hd
        rw [List.mem_cons, not_or]
        exact ⟨fun he => hd (by simp [he]), ih hn⟩

/-- A text is cut at the last occurrence of the character. -/
lemma eq_append_of_cutAtLast? {c : Char} {s before after : List Char}
    (h : cutAtLast? (· == c) s = some (before, after)) : s = before ++ c :: after ∧ c ∉ after := by
  induction s generalizing before with
  | nil => cases h
  | cons d s ih =>
    rw [cutAtLast?] at h
    split at h
    · rename_i before' after' hc
      obtain ⟨rfl, rfl⟩ := Prod.mk.inj (Option.some.inj h)
      obtain ⟨rfl, ha⟩ := ih hc
      exact ⟨rfl, ha⟩
    · rename_i hn
      split at h
      · rename_i hd
        obtain ⟨rfl, rfl⟩ := Prod.mk.inj (Option.some.inj h)
        obtain rfl : d = c := by simpa using hd
        exact ⟨rfl, cutAtLast?_eq_none hn⟩
      · cases h

lemma cutAtLast?_of_notMem {c : Char} {s : List Char} (h : c ∉ s) :
    cutAtLast? (· == c) s = none := by
  induction s with
  | nil => rfl
  | cons d s ih =>
    obtain ⟨hd, hs⟩ := List.ne_and_not_mem_of_not_mem_cons h
    simp [cutAtLast?, ih hs, hd.symm]

lemma cutAtLast?_append_cons {c : Char} {after : List Char} (h : c ∉ after) (before : List Char) :
    cutAtLast? (· == c) (before ++ c :: after) = some (before, after) := by
  induction before with
  | nil => simp [cutAtLast?, cutAtLast?_of_notMem h]
  | cons d before ih => simp [cutAtLast?, ih]

/-! ## Joining and splitting -/

/-- What stands in a joined text is the separator or stands in one of the texts that were joined. -/
lemma mem_intercalate {sep c : Char} {ls : List (List Char)} (h : c ∈ [sep].intercalate ls) :
    c = sep ∨ ∃ l ∈ ls, c ∈ l := by
  induction ls with
  | nil => exact absurd h List.not_mem_nil
  | cons l ls ih =>
    by_cases hls : ls = []
    · rw [hls, List.intercalate_singleton] at h
      exact .inr ⟨l, List.mem_cons_self, h⟩
    · rw [List.intercalate_cons_of_ne_nil hls, List.mem_append, List.mem_append,
        List.mem_singleton] at h
      rcases h with (hl | hs) | hr
      · exact .inr ⟨l, List.mem_cons_self, hl⟩
      · exact .inl hs
      · rcases ih hr with hs | ⟨l', hm, hc⟩
        · exact .inl hs
        · exact .inr ⟨l', List.mem_cons_of_mem l hm, hc⟩

/-- The stretches between separators are what the library calls a split. -/
lemma pieces_eq_splitOnP (p : Char → Bool) (s : List Char) : pieces p s = s.splitOnP p := by
  induction s with
  | nil => rfl
  | cons c s ih =>
    rw [pieces, List.splitOnP_cons_eq_if_modifyHead, ih]
    split
    · rfl
    · obtain ⟨head, tail, h⟩ := List.exists_cons_of_ne_nil (List.splitOnP_ne_nil p s)
      rw [h]
      rfl

end Colloquy.Text
