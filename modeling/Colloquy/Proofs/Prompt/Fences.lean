import Colloquy.Prompt.Source
import Colloquy.Proofs.Text.Search

/-!
# Frontmatter between fences

A text has frontmatter if it begins with three dashes and a line end, and a later line is a fence:
three dashes with nothing but blanks behind them.  What stands before the first such line is the
frontmatter, and what stands behind it is the template (`Fenced`).  A text is put together from these
parts in one way only, and splitting it gives them back; a text that is not put together so is all
template.
-/

namespace Colloquy

/-! ## Lines -/

namespace Text

/-- A line with its line end. -/
def WholeLine (line : List Char) : Prop := ∃ s, '\n' ∉ s ∧ line = s ++ ['\n']

lemma lines_of_notMem {s : List Char} (h : '\n' ∉ s) (hs : s ≠ []) : lines s = [s] := by
  induction s with
  | nil => exact absurd rfl hs
  | cons c s ih =>
    obtain ⟨hc, hr⟩ := List.ne_and_not_mem_of_not_mem_cons h
    rw [lines, if_neg hc.symm]
    by_cases hs : s = []
    · simp [hs, lines]
    · simp [ih hr hs]

/-- A whole line is the first line of what it begins. -/
lemma WholeLine.lines_append {line : List Char} (h : WholeLine line) (s : List Char) :
    lines (line ++ s) = line :: lines s := by
  obtain ⟨front, hf, rfl⟩ := h
  induction front with
  | nil => simp [lines]
  | cons c front ih =>
    obtain ⟨hc, hr⟩ := List.ne_and_not_mem_of_not_mem_cons hf
    rw [List.cons_append, List.cons_append, lines, if_neg hc.symm, ih hr]

lemma lines_flatten_append {whole : List (List Char)} (h : ∀ line ∈ whole, WholeLine line)
    (s : List Char) : lines (whole.flatten ++ s) = whole ++ lines s := by
  induction whole with
  | nil => rfl
  | cons line whole ih =>
    rw [List.flatten_cons, List.append_assoc, (h line List.mem_cons_self).lines_append,
      ih fun l hl => h l (List.mem_cons_of_mem _ hl)]
    rfl

/-- A text is empty, or one line without an end, or a whole line with a text behind it. -/
lemma lines_cases (s : List Char) : (s = [] ∧ lines s = []) ∨
    (s ≠ [] ∧ '\n' ∉ s ∧ lines s = [s]) ∨
    ∃ line rest, WholeLine line ∧ s = line ++ rest ∧ lines s = line :: lines rest := by
  by_cases hm : '\n' ∈ s
  · obtain ⟨front, rest, rfl, hf⟩ := List.eq_append_cons_of_mem hm
    have whole : WholeLine (front ++ ['\n']) := ⟨front, hf, rfl⟩
    have split : front ++ '\n' :: rest = (front ++ ['\n']) ++ rest := by simp
    exact .inr (.inr ⟨_, rest, whole, split, split ▸ whole.lines_append rest⟩)
  · by_cases hs : s = []
    · exact .inl ⟨hs, by simp [hs, lines]⟩
    · exact .inr (.inl ⟨hs, hm, lines_of_notMem hm hs⟩)

/-- Only the last line of a text may lack its end. -/
lemma of_lines_eq_append {s line : List Char} {before after : List (List Char)}
    (h : lines s = before ++ line :: after) :
    (∀ l ∈ before, WholeLine l) ∧ (WholeLine line ∨ '\n' ∉ line ∧ after = []) := by
  induction before generalizing s with
  | nil =>
    refine ⟨by simp, ?_⟩
    rcases lines_cases s with ⟨-, hl⟩ | ⟨-, hm, hl⟩ | ⟨first, rest, whole, -, hl⟩
    · simp [hl] at h
    · obtain ⟨rfl, rfl⟩ := List.cons.inj (hl.symm.trans h)
      exact .inr ⟨hm, rfl⟩
    · obtain ⟨rfl, -⟩ := List.cons.inj (hl.symm.trans h)
      exact .inl whole
  | cons l before ih =>
    rcases lines_cases s with ⟨-, hl⟩ | ⟨-, -, hl⟩ | ⟨first, rest, whole, -, hl⟩
    · simp [hl] at h
    · simp [hl] at h
    · obtain ⟨rfl, hr⟩ := List.cons.inj (hl.symm.trans h)
      obtain ⟨others, last⟩ := ih hr
      exact ⟨List.forall_mem_cons.mpr ⟨whole, others⟩, last⟩

end Text

namespace PromptSource

open Text

/-! ## Texts with frontmatter -/

/-- Whole lines, none of which is a fence when the blanks behind it are taken away. -/
def IsFront (front : List Char) : Prop :=
  ∃ whole : List (List Char), front = whole.flatten ∧
    ∀ line ∈ whole, WholeLine line ∧ trimEnd line ≠ fence

/-- A fence with blanks behind it ends frontmatter in front of a body: with a line end, or at the end
of the text. -/
inductive Closes : (closing body : List Char) → Prop
  | line {blanks body : List Char} (blank : allBlank blanks = true) (inside : '\n' ∉ blanks) :
    Closes (fence ++ blanks ++ ['\n']) body
  | last {blanks : List Char} (blank : allBlank blanks = true) (inside : '\n' ∉ blanks) :
    Closes (fence ++ blanks) []

/-- A text is put together from a fence, a line end, frontmatter, a line that is a fence, and a
body. -/
structure Fenced (text lineEnd front closing body : List Char) : Prop where
  text_eq : text = fence ++ lineEnd ++ front ++ closing ++ body
  lineEnd : lineEnd = ['\n'] ∨ lineEnd = ['\r', '\n']
  front : IsFront front
  closing : Closes closing body

lemma afterOpening?_eq_some_iff {text rest : List Char} :
    afterOpening? text = some rest ↔
      ∃ lineEnd, (lineEnd = ['\n'] ∨ lineEnd = ['\r', '\n']) ∧ text = fence ++ lineEnd ++ rest := by
  constructor
  · intro h
    unfold afterOpening? at h
    split at h
    · rename_i hl
      obtain rfl := Option.some.inj h
      exact ⟨['\n'], .inl rfl, by simp [leading?_eq_some_iff.mp hl]⟩
    · rename_i hl
      obtain rfl := Option.some.inj h
      exact ⟨['\r', '\n'], .inr rfl, by simp [leading?_eq_some_iff.mp hl]⟩
    · cases h
  · rintro ⟨lineEnd, rfl | rfl, rfl⟩
    · have found : leading? fence (fence ++ ['\n'] ++ rest) = some ('\n' :: rest) :=
        leading?_eq_some_iff.mpr (by simp)
      simp only [afterOpening?, found]
    · have found : leading? fence (fence ++ ['\r', '\n'] ++ rest) = some ('\r' :: '\n' :: rest) :=
        leading?_eq_some_iff.mpr (by simp)
      simp only [afterOpening?, found]

/-! ## The first fence -/

lemma isFence_append {blanks : List Char} (h : allBlank blanks = true) :
    isFence (fence ++ blanks) = true := by
  have bare : trimEnd fence = fence := by decide
  rw [isFence, trimEnd_append h, bare]
  exact beq_self_eq_true fence

/-- A line that closes frontmatter is the first line in front of the body, and it is a fence. -/
lemma Closes.lines_append {closing body : List Char} (h : Closes closing body) :
    isFence closing = true ∧ lines (closing ++ body) = closing :: lines body := by
  have plain : '\n' ∉ fence := by decide
  cases h with
  | @line blanks body blank inside =>
    have whole : WholeLine (fence ++ blanks ++ ['\n']) := ⟨_, List.not_mem_append plain inside, rfl⟩
    refine ⟨?_, whole.lines_append body⟩
    rw [List.append_assoc]
    exact isFence_append (by simpa [allBlank] using ⟨List.all_eq_true.mp blank, by decide⟩)
  | @last blanks blank inside =>
    refine ⟨isFence_append blank, ?_⟩
    rw [List.append_nil, lines_of_notMem (List.not_mem_append plain inside) (by simp [fence])]
    rfl

/-- A fence closes frontmatter if it has its end, or if nothing follows it. -/
lemma closes_of_isFence {closing body : List Char} (h : isFence closing = true)
    (whole : WholeLine closing ∨ '\n' ∉ closing ∧ body = []) : Closes closing body := by
  obtain ⟨blanks, blank, he⟩ := exists_trimEnd_append closing
  rw [show trimEnd closing = fence from beq_iff_eq.mp h] at he
  rcases whole with ⟨s, hs, hw⟩ | ⟨hm, rfl⟩
  · -- The line end is among the blanks, because a fence has none.
    rcases List.eq_nil_or_concat blanks with rfl | ⟨inner, c, rfl⟩
    · have last := congrArg List.getLast? (he.symm.trans hw)
      simp [fence] at last
    · have parts : fence ++ inner ++ [c] = s ++ ['\n'] := by
        rw [← hw, he]
        simp
      obtain ⟨hi, hc⟩ := List.append_inj' parts rfl
      obtain rfl := (List.cons.inj hc).1
      have inside : '\n' ∉ inner := fun hn => hs (hi ▸ List.mem_append_right _ hn)
      rw [hw, ← hi]
      exact .line (by simp_all [allBlank]) inside
  · subst he
    exact .last blank fun hn => hm (List.mem_append_right _ hn)

/-- Lines that are no fences are passed over, and the frontmatter ends at the fence behind them. -/
lemma split_of_lines {text rest : List Char} {whole after : List (List Char)} {closing : List Char}
    (opened : afterOpening? text = some rest) (hl : lines rest = whole ++ closing :: after)
    (front : ∀ line ∈ whole, isFence line = false) (fenced : isFence closing = true) :
    split text = (some whole.flatten, after.flatten) := by
  have passed : ∀ line ∈ whole, (!isFence line) = true := fun line h => by simp [front line h]
  have stops : (!isFence closing) = false := by simp [fenced]
  simp only [split, opened, hl]
  rw [List.takeWhile_append_of_pos passed, List.dropWhile_append_of_pos passed]
  simp [stops]

/-- What was split off is frontmatter up to the first fence. -/
lemma exists_lines_of_split {text front body : List Char} (h : split text = (some front, body)) :
    ∃ rest whole closing after, afterOpening? text = some rest ∧
      lines rest = whole ++ closing :: after ∧ (∀ line ∈ whole, isFence line = false) ∧
      isFence closing = true ∧ front = whole.flatten ∧ body = after.flatten := by
  unfold split at h
  cases ho : afterOpening? text with
  | none =>
    rw [ho] at h
    cases h
  | some rest =>
    rw [ho] at h
    dsimp only at h
    cases hd : (lines rest).dropWhile fun line => !isFence line with
    | nil =>
      rw [hd] at h
      cases h
    | cons closing after =>
      rw [hd] at h
      obtain ⟨hf, rfl⟩ := Prod.mk.inj h
      refine ⟨rest, (lines rest).takeWhile fun line => !isFence line, closing, after, rfl, ?_, ?_,
        ?_, (Option.some.inj hf).symm, rfl⟩
      · rw [← hd, List.takeWhile_append_dropWhile]
      · intro line hline
        simpa using List.mem_takeWhile_imp hline
      · have stops := List.head?_dropWhile_not (fun line => !isFence line) (lines rest)
        rw [hd] at stops
        simpa using stops

lemma Fenced.split {text lineEnd front closing body : List Char}
    (h : Fenced text lineEnd front closing body) : split text = (some front, body) := by
  obtain ⟨rfl, he, ⟨whole, rfl, own⟩, closes⟩ := h
  obtain ⟨fenced, last⟩ := closes.lines_append
  have opened : afterOpening? (fence ++ lineEnd ++ whole.flatten ++ closing ++ body) =
      some (whole.flatten ++ (closing ++ body)) :=
    afterOpening?_eq_some_iff.mpr ⟨lineEnd, he, by simp⟩
  have read : lines (whole.flatten ++ (closing ++ body)) = whole ++ closing :: lines body := by
    rw [lines_flatten_append (fun line hl => (own line hl).1), last]
  have front : ∀ line ∈ whole, isFence line = false := fun line hl => by
    simpa [isFence] using (own line hl).2
  have parts := split_of_lines opened read front fenced
  rwa [flatten_lines] at parts

lemma exists_fenced {text front body : List Char} (h : split text = (some front, body)) :
    ∃ lineEnd closing, Fenced text lineEnd front closing body := by
  obtain ⟨rest, whole, closing, after, opened, hl, unfenced, fenced, rfl, rfl⟩ :=
    exists_lines_of_split h
  obtain ⟨lineEnd, he, rfl⟩ := afterOpening?_eq_some_iff.mp opened
  obtain ⟨lines, last⟩ := of_lines_eq_append hl
  refine ⟨lineEnd, closing, ?_, he, ⟨whole, rfl, fun line h => ⟨lines line h, ?_⟩⟩, ?_⟩
  · have all := flatten_lines rest
    rw [hl] at all
    simp [← all]
  · simpa [isFence] using unfenced line h
  · exact closes_of_isFence fenced (last.imp_right fun ⟨hm, ha⟩ => ⟨hm, by simp [ha]⟩)

/-- A text without frontmatter is left as it is. -/
lemma split_eq_of_none {text : List Char} (h : (split text).1 = none) :
    split text = (none, text) := by
  unfold split at h ⊢
  split
  · rfl
  · rename_i ho
    rw [ho] at h
    dsimp only at h ⊢
    split
    · rfl
    · rename_i hd
      rw [hd] at h
      cases h

/-- There is one way to put a text together. -/
lemma Fenced.unique {text lineEnd front closing body lineEnd' front' closing' body' : List Char}
    (h : Fenced text lineEnd front closing body) (h' : Fenced text lineEnd' front' closing' body') :
    lineEnd' = lineEnd ∧ front' = front ∧ closing' = closing ∧ body' = body := by
  obtain ⟨hf, rfl⟩ := Prod.mk.inj (h'.split.symm.trans h.split)
  obtain rfl := Option.some.inj hf
  have same := h.text_eq.symm.trans h'.text_eq
  have sameEnd : lineEnd' = lineEnd := by
    rcases h.lineEnd with rfl | rfl <;> rcases h'.lineEnd with rfl | rfl
    · rfl
    · simp [fence] at same
    · simp [fence] at same
    · rfl
  subst sameEnd
  refine ⟨rfl, rfl, ?_, rfl⟩
  simpa using same.symm

/-- **Splitting frontmatter off is exact.**  A text has frontmatter and a body exactly if it is put
together from them, in one way, and is all body otherwise; whatever lines without a fence and whatever
body are put together, they are given back. -/
theorem split_exact (text : List Char) :
    (∀ front body, split text = (some front, body) ↔
      ∃ lineEnd closing, Fenced text lineEnd front closing body) ∧
    (∀ lineEnd front closing body lineEnd' front' closing' body',
      Fenced text lineEnd front closing body → Fenced text lineEnd' front' closing' body' →
        lineEnd' = lineEnd ∧ front' = front ∧ closing' = closing ∧ body' = body) ∧
    ((∀ lineEnd front closing body, ¬Fenced text lineEnd front closing body) →
      split text = (none, text)) ∧
    ∀ lineEnd front closing body, lineEnd = ['\n'] ∨ lineEnd = ['\r', '\n'] → IsFront front →
      Closes closing body →
        split (fence ++ lineEnd ++ front ++ closing ++ body) = (some front, body) := by
  refine ⟨fun front body => ⟨exists_fenced, ?_⟩, ?_, ?_, ?_⟩
  · rintro ⟨lineEnd, closing, h⟩
    exact h.split
  · intro lineEnd front closing body lineEnd' front' closing' body' h h'
    exact h.unique h'
  · intro none
    refine split_eq_of_none (Option.eq_none_iff_forall_ne_some.mpr fun front hf => ?_)
    obtain ⟨lineEnd, closing, h⟩ := exists_fenced (Prod.ext hf rfl : split text = (some front, _))
    exact none _ _ _ _ h
  · intro lineEnd front closing body he hf hc
    exact Fenced.split ⟨rfl, he, hf, hc⟩

/-- A note with a line that begins like a fence in its frontmatter, and a fence in its body. -/
def note : List Char := "---\r\nname = \"note\"\n--- # \n---\t\n\r\n---\nHello".toList

/-- The frontmatter of the note goes up to the first fence. -/
theorem split_exact_note :
    Fenced note ['\r', '\n'] "name = \"note\"\n--- # \n".toList "---\t\n".toList
        "\r\n---\nHello".toList ∧
      split note = (some "name = \"note\"\n--- # \n".toList, "\r\n---\nHello".toList) := by
  have fenced : Fenced note ['\r', '\n'] "name = \"note\"\n--- # \n".toList "---\t\n".toList
      "\r\n---\nHello".toList := by
    refine ⟨rfl, .inr rfl, ⟨["name = \"note\"\n".toList, "--- # \n".toList], rfl, ?_⟩, ?_⟩
    · refine List.forall_mem_cons.mpr ⟨⟨⟨"name = \"note\"".toList, ?_, rfl⟩, ?_⟩,
        List.forall_mem_singleton.mpr ⟨⟨"--- # ".toList, ?_, rfl⟩, ?_⟩⟩
      all_goals decide
    · have tab : Text.allBlank ['\t'] = true ∧ '\n' ∉ ['\t'] := by decide
      exact .line tab.1 tab.2
  exact ⟨fenced, ((split_exact note).1 _ _).mpr ⟨_, _, fenced⟩⟩

end PromptSource

end Colloquy
