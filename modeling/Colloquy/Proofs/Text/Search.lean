import Colloquy.Text.Cut
import Mathlib.Data.List.DropRight
import Mathlib.Data.List.Infix
import Mathlib.Tactic.Common

/-!
# Searching and trimming

A text is cut at the first occurrence of a pattern.  That is a condition on the text before the cut,
which `Lacks` states: the pattern occurs in it nowhere, not even with its end in the pattern that
follows.  It determines the cut.

Trimming takes away what is blank at an end, so blanks that are put there make no difference.
-/

namespace Colloquy.Text

/-! ## The first occurrence of a pattern -/

/-- No occurrence of the pattern starts in the text when the pattern follows it.  Such an occurrence
would end before the last character of the pattern that follows. -/
def Lacks (pat s : List Char) : Prop := ¬ pat <:+: s ++ pat.dropLast

instance (pat s : List Char) : Decidable (Lacks pat s) := inferInstanceAs (Decidable (¬ _))

variable {pat s before after : List Char}

lemma leading?_eq_none_iff : leading? pat s = none ↔ ¬ pat <+: s := by
  rw [Option.eq_none_iff_forall_ne_some]
  constructor
  · rintro h ⟨rest, rfl⟩
    exact h rest (leading?_eq_some_iff.mpr rfl)
  · intro h rest hr
    exact h ⟨rest, (leading?_eq_some_iff.mp hr).symm⟩

lemma cut?_eq_none_iff : cut? pat s = none ↔ ¬ pat <:+: s := by
  induction s with
  | nil => simp [cut?, leading?_eq_none_iff]
  | cons c s ih =>
    rw [cut?, List.infix_cons_iff, not_or, ← leading?_eq_none_iff, ← ih]
    cases leading? pat (c :: s) with
    | none => simp
    | some rest => simp

lemma Lacks.of_cons {c : Char} (h : Lacks pat (c :: s)) : Lacks pat s :=
  fun hi => h (List.infix_cons hi)

/-- A text that lacks a pattern is what stands before its first occurrence. -/
lemma Lacks.cut? (h : Lacks pat before) (hp : pat ≠ []) (after : List Char) :
    cut? pat (before ++ pat ++ after) = some (before, after) := by
  induction before with
  | nil =>
    obtain ⟨p, ps, rfl⟩ := List.exists_cons_of_ne_nil hp
    have found : leading? (p :: ps) (p :: ps ++ after) = some after :=
      leading?_eq_some_iff.mpr rfl
    rw [List.nil_append, List.cons_append, Text.cut?, ← List.cons_append, found]
  | cons c before ih =>
    have none_here : leading? pat (c :: (before ++ pat ++ after)) = none := by
      refine leading?_eq_none_iff.mpr fun hpre => h ?_
      -- An occurrence here is no longer than the text and the pattern without its last character.
      have whole : c :: (before ++ pat ++ after) =
          (c :: before ++ pat.dropLast) ++ (pat.getLast hp :: after) := by
        conv_lhs => rw [← List.dropLast_append_getLast hp]
        simp
      rw [whole] at hpre
      have length_le : pat.length ≤ (c :: before ++ pat.dropLast).length := by
        have := List.length_pos_of_ne_nil hp
        simp
        omega
      exact (List.prefix_of_prefix_length_le hpre (List.prefix_append _ _) length_le).isInfix
    rw [List.cons_append, List.cons_append, Text.cut?, none_here, ih h.of_cons]
    rfl

/-- What stands before the first occurrence of a pattern lacks it. -/
lemma lacks_of_cut? (hp : pat ≠ []) (h : cut? pat s = some (before, after)) :
    Lacks pat before := by
  induction s generalizing before with
  | nil =>
    obtain ⟨p, ps, rfl⟩ := List.exists_cons_of_ne_nil hp
    cases h
  | cons c s ih =>
    rw [cut?] at h
    split at h
    · obtain ⟨rfl, -⟩ := Prod.mk.inj (Option.some.inj h)
      intro hi
      have length_le := hi.length_le
      have := List.length_pos_of_ne_nil hp
      simp at length_le
      omega
    · rename_i none_here
      obtain ⟨⟨b, a⟩, hc, he⟩ := Option.map_eq_some_iff.mp h
      obtain ⟨rfl, rfl⟩ := Prod.mk.inj he
      obtain rfl := eq_append_of_cut? hc
      intro hi
      rcases List.infix_cons_iff.mp hi with hpre | hi
      · have shorter : pat.dropLast <+: pat ++ a :=
          (List.dropLast_prefix pat).trans (List.prefix_append _ _)
        have longer := (List.prefix_append_right_inj (c :: b)).mpr shorter
        rw [← List.append_assoc] at longer
        exact leading?_eq_none_iff.mp none_here (hpre.trans longer)
      · exact ih hc hi

/-- No occurrence of the pattern ends before the end of the first one. -/
lemma Lacks.not_infix (h : Lacks pat before) {t : List Char} (ht : t <+: before ++ pat ++ after)
    (hl : t.length < before.length + pat.length) : ¬ pat <:+: t := by
  have first : before ++ pat.dropLast <+: before ++ pat ++ after :=
    ((List.prefix_append_right_inj before).mpr (List.dropLast_prefix pat)).trans
      (List.prefix_append _ _)
  have length_le : t.length ≤ (before ++ pat.dropLast).length := by
    simp
    omega
  exact fun hi => h (hi.trans (List.prefix_of_prefix_length_le ht first length_le).isInfix)

/-- There is one way to cut a text at a pattern that the text before the cut lacks. -/
lemma cut?_eq_some_iff (hp : pat ≠ []) :
    cut? pat s = some (before, after) ↔ s = before ++ pat ++ after ∧ Lacks pat before := by
  constructor
  · intro h
    exact ⟨eq_append_of_cut? h, lacks_of_cut? hp h⟩
  · rintro ⟨rfl, h⟩
    exact h.cut? hp after

/-! ### Characters that the pattern does not have -/

/-- An occurrence does not reach over a character that the pattern does not have. -/
lemma infix_of_append_cons {c : Char} (hc : c ∉ pat) (h : pat <:+: before ++ c :: after) :
    pat <:+: before ∨ pat <:+: after := by
  induction before with
  | nil =>
    rcases List.infix_cons_iff.mp h with hpre | hi
    · cases pat with
      | nil => exact .inl (List.infix_refl [])
      | cons p ps =>
        exact absurd (List.cons_prefix_cons.mp hpre).1 (List.ne_of_not_mem_cons hc).symm
    · exact .inr hi
  | cons d before ih =>
    rw [List.cons_append] at h
    rcases List.infix_cons_iff.mp h with hpre | hi
    · rw [← List.cons_append] at hpre
      rcases Nat.lt_or_ge (d :: before).length pat.length with hl | hl
      · have reaches : d :: before ++ [c] <+: pat := by
          have here : d :: before ++ [c] <+: d :: before ++ c :: after := ⟨after, by simp⟩
          refine List.prefix_of_prefix_length_le here hpre ?_
          simpa using Nat.succ_le_of_lt hl
        exact absurd (reaches.subset (by simp)) hc
      · exact .inl (List.prefix_of_prefix_length_le hpre (List.prefix_append _ _) hl).isInfix
    · exact (ih hi).imp_left List.infix_cons

/-- Characters that the pattern does not have make no occurrence in front of a text. -/
lemma infix_of_append {blanks : List Char} (hb : ∀ c ∈ blanks, c ∉ pat) (h : pat <:+: blanks ++ s) :
    pat <:+: s := by
  induction blanks with
  | nil => exact h
  | cons c blanks ih =>
    rcases @infix_of_append_cons pat [] _ c (hb c List.mem_cons_self) h with hi | hi
    · exact hi.trans List.nil_infix
    · exact ih (fun d hd => hb d (List.mem_cons_of_mem c hd)) hi

/-! ## Trimming -/

lemma trimStart_append {blanks : List Char} (h : allBlank blanks = true) (s : List Char) :
    trimStart (blanks ++ s) = trimStart s :=
  List.dropWhile_append_of_pos (List.all_eq_true.mp h)

lemma trimEnd_append {blanks : List Char} (h : allBlank blanks = true) (s : List Char) :
    trimEnd (s ++ blanks) = trimEnd s := by
  have back : allBlank blanks.reverse = true := by rwa [allBlank, List.all_reverse]
  rw [trimEnd, List.reverse_append]
  exact congrArg List.reverse (trimStart_append back s.reverse)

lemma trimEnd_eq_nil_iff : trimEnd s = [] ↔ allBlank s = true := by
  simp [trimEnd, allBlank]

lemma trimEnd_cons {c : Char} (h : allBlank (c :: s) = false) :
    trimEnd (c :: s) = c :: trimEnd s := by
  rw [trimEnd, List.reverse_cons, List.dropWhile_append]
  split
  · rename_i hs
    have blank : trimEnd s = [] := by simpa [trimEnd] using hs
    have visible : isBlank c = false := by
      rw [allBlank, List.all_cons, ← allBlank, trimEnd_eq_nil_iff.mp blank, Bool.and_true] at h
      exact h
    simp [blank, visible]
  · simp [trimEnd]

/-- It makes no difference which end is trimmed first. -/
lemma trimStart_trimEnd (s : List Char) : trimStart (trimEnd s) = trim s := by
  unfold trim
  induction s with
  | nil => rfl
  | cons c s ih =>
    by_cases hs : allBlank (c :: s) = true
    · have none_left : trimStart (c :: s) = [] := by
        simpa [trimStart] using trimStart_append hs []
      rw [trimEnd_eq_nil_iff.mpr hs, none_left]
      rfl
    · rw [trimEnd_cons (by simpa using hs)]
      by_cases hc : isBlank c = true
      · rw [trimStart, trimStart, List.dropWhile_cons_of_pos hc, List.dropWhile_cons_of_pos hc]
        exact ih
      · rw [trimStart, trimStart, List.dropWhile_cons_of_neg hc, List.dropWhile_cons_of_neg hc,
          trimEnd_cons (by simpa using hs)]

/-- A text is what is left of it with some blanks behind. -/
lemma exists_trimEnd_append (s : List Char) :
    ∃ blanks, allBlank blanks = true ∧ s = trimEnd s ++ blanks := by
  refine ⟨(s.reverse.takeWhile isBlank).reverse, ?_, ?_⟩
  · rw [allBlank, List.all_reverse]
    exact List.all_eq_true.mpr fun c hc => List.mem_takeWhile_imp hc
  · rw [trimEnd, ← List.reverse_append, List.takeWhile_append_dropWhile, List.reverse_reverse]

lemma trim_cons {c : Char} (h : isBlank c = false) (s : List Char) :
    trim (c :: s) = c :: trimEnd s := by
  have visible : allBlank (c :: s) = false := by simp [allBlank, h]
  rw [trim, trimStart, List.dropWhile_cons_of_neg (by simp [h]), trimEnd_cons visible]

lemma trimEnd_concat {c : Char} (h : isBlank c = false) (s : List Char) :
    trimEnd (s ++ [c]) = s ++ [c] := by
  simp [trimEnd, h]

/-- A text is what is left of it between some blanks. -/
lemma exists_trim_append (s : List Char) : ∃ front back, allBlank front = true ∧
    allBlank back = true ∧ s = front ++ (trim s ++ back) := by
  obtain ⟨back, hb, he⟩ := exists_trimEnd_append (trimStart s)
  refine ⟨s.takeWhile isBlank, back, ?_, hb, ?_⟩
  · exact List.all_eq_true.mpr fun c hc => List.mem_takeWhile_imp hc
  · rw [trim, ← he]
    exact List.takeWhile_append_dropWhile.symm

lemma isBlank_head?_trim (s : List Char) : ∀ c ∈ (trim s).head?, isBlank c = false := by
  intro c hc
  have first := List.head?_dropWhile_not isBlank (trimEnd s)
  rw [← trimStart, trimStart_trimEnd, Option.mem_def.mp hc] at first
  exact first

lemma isBlank_getLast?_trim (s : List Char) : ∀ c ∈ (trim s).getLast?, isBlank c = false := by
  intro c hc
  have last := List.head?_dropWhile_not isBlank (trimStart s).reverse
  rw [← List.reverse_reverse (List.dropWhile _ _), ← trimEnd, ← trim, List.head?_reverse,
    Option.mem_def.mp hc] at last
  exact last

/-- A text between two that do not show at its ends keeps its own ends. -/
lemma trim_append_append {front s back : List Char} (h : s.head?.any (!isBlank ·) = true)
    (h' : s.getLast?.any (!isBlank ·) = true) :
    trim (front ++ s ++ back) = trimStart front ++ s ++ trimEnd back := by
  have start {c : Char} (hc : isBlank c = false) (s t : List Char) :
      (s ++ c :: t).dropWhile isBlank = s.dropWhile isBlank ++ c :: t := by
    rw [List.dropWhile_append]
    split
    · rename_i hs
      rw [List.dropWhile_cons_of_neg (by simp [hc]), List.isEmpty_iff.mp hs, List.nil_append]
    · rfl
  cases s with
  | nil => cases h
  | cons c s =>
    have first : isBlank c = false := by simpa using h
    obtain ⟨d, hd, last⟩ : ∃ d, (c :: s).getLast? = some d ∧ isBlank d = false := by
      cases hl : (c :: s).getLast? with
      | none => rw [hl] at h'; cases h'
      | some d => exact ⟨d, rfl, by simpa [hl] using h'⟩
    obtain ⟨init, hi⟩ := List.getLast?_eq_some_iff.mp hd
    rw [trim, trimStart, List.append_assoc, List.cons_append, start first, ← trimStart,
      ← List.cons_append, hi, trimEnd]
    have mirrored : (trimStart front ++ (init ++ [d] ++ back)).reverse =
        back.reverse ++ d :: (trimStart front ++ init).reverse := by simp
    rw [mirrored, start last]
    simp [trimEnd]

end Colloquy.Text
