import Colloquy.Proofs.Failure
import Colloquy.Proofs.Text.Search
import Colloquy.Template.Lexeme

/-!
# The shapes of tags and comments

What a tag or a comment looks like in a source.  It begins with two opening braces and ends with the
first of its closers, and a tilde inside of either trims the text beside it.  `Markup` lists the
four shapes: a tag between two braces or three, and a comment that ends at the next two braces or,
when two dashes follow its sign, at the next two dashes with braces behind them.

The shapes exclude each other, and `readMarkup_eq_ok_iff` says that a source is read as the one that
it begins with.
-/

namespace Colloquy.Template

/-- A tilde, if there is one. -/
def tilde (present : Bool) : List Char := if present then ['~'] else []

/-- The end of a comment between dashes. -/
def dashedEnd (after : Bool) : List Char := "--".toList ++ tilde after ++ "\x7d\x7d".toList

/-- No closer of either kind begins inside before this one does. -/
def EndsFirst (inside : List Char) (after : Bool) : Prop :=
  ∀ other, ¬ dashedEnd other <:+: inside ++ (dashedEnd after).dropLast

/-- The stretch of source is a tag or comment, with its content.  Its inside ends where the first
closer begins, and a tilde at either end of the inside belongs to the braces. -/
inductive Markup : List Char → Content → Prop
  | tag {inside : List Char} {before after : Bool}
      (starts : ∀ c ∈ (inside ++ tilde after).head?, c ≠ '!' ∧ c ≠ '{' ∧ (c = '~' → before = true))
      (trims : inside.getLast? = some '~' → after = true)
      (first : Text.Lacks "\x7d\x7d".toList (inside ++ tilde after)) :
      Markup ("\x7b\x7b".toList ++ (tilde before ++ (inside ++ tilde after) ++ "\x7d\x7d".toList))
        (.tag (Text.trim inside) before after)
  /-- Between three braces. -/
  | braced {inside : List Char} {before after : Bool}
      (trims : inside.getLast? = some '~' → after = true)
      (first : Text.Lacks "\x7d\x7d\x7d".toList (inside ++ tilde after)) :
      Markup ("\x7b\x7b".toList ++
          (tilde before ++ '{' :: (inside ++ tilde after) ++ "\x7d\x7d\x7d".toList))
        (.tag (Text.trim inside) before after)
  | comment {inside : List Char} {before after : Bool}
      (starts : ¬ "--".toList <+: inside ++ tilde after)
      (trims : inside.getLast? = some '~' → after = true)
      (first : Text.Lacks "\x7d\x7d".toList (inside ++ tilde after)) :
      Markup ("\x7b\x7b".toList ++
          (tilde before ++ '!' :: (inside ++ tilde after) ++ "\x7d\x7d".toList))
        (.comment before after)
  /-- Between dashes.  The closer is the first of either kind. -/
  | dashed {inside : List Char} {before after : Bool}
      (first : EndsFirst inside after) :
      Markup ("\x7b\x7b".toList ++
          (tilde before ++ "!--".toList ++ inside ++ dashedEnd after))
        (.comment before after)

/-! ## Tildes -/

variable {s inside inner rest span body closer : List Char} {before after : Bool}
  {content : Content}

lemma closingTilde_eq_iff : closingTilde s = (inside, after) ↔
    s = inside ++ tilde after ∧ (inside.getLast? = some '~' → after = true) := by
  unfold closingTilde tilde
  constructor
  · split
    · rename_i ht
      rintro ⟨⟩
      obtain ⟨front, rfl⟩ := List.getLast?_eq_some_iff.mp (by simpa using ht)
      simp
    · rename_i ht
      rintro ⟨⟩
      simpa using ht
  · rintro ⟨rfl, ht⟩
    cases after with
    | true => simp
    | false =>
      have : inside.getLast? ≠ some '~' := fun h => by simpa using ht h
      simp [this]

lemma openingTilde_tilde (h : inner.head? = some '~' → before = true) :
    openingTilde (tilde before ++ inner) = (tilde before, inner) := by
  cases before with
  | true => rfl
  | false =>
    unfold openingTilde
    split
    · rename_i rest he
      exact absurd (h (congrArg List.head? he)) Bool.false_ne_true
    · rfl

lemma exists_openingTilde (s : List Char) : ∃ before inner,
    openingTilde s = (tilde before, inner) ∧ s = tilde before ++ inner ∧
      (inner.head? = some '~' → before = true) := by
  by_cases h : s.head? = some '~'
  · obtain ⟨rest, rfl⟩ := List.head?_eq_some_iff.mp h
    exact ⟨true, rest, rfl, rfl, fun _ => rfl⟩
  · have absent : s.head? = some '~' → false = true := fun hs => absurd hs h
    exact ⟨false, s, openingTilde_tilde absent, rfl, absent⟩

@[simp] lemma isEmpty_tilde : (tilde before).isEmpty = !before := by cases before <;> rfl

/-! ## The end of a comment between dashes -/

@[simp] lemma dashedEnd_beq : (dashedEnd after == "--~\x7d\x7d".toList) = after := by
  cases after <;> rfl

lemma length_dashedEnd : (dashedEnd after).length = if after then 5 else 4 := by
  cases after <;> rfl

lemma dashedEnd_ne_nil : dashedEnd after ≠ [] := by cases after <;> exact List.cons_ne_nil _ _

/-- A closer ends the comment first if the other one is not there or not before it. -/
lemma endsFirst_of_cut (h : Text.cut? (dashedEnd after) s = some (body, rest))
    (hn : ∀ body' rest', Text.cut? (dashedEnd !after) s = some (body', rest') →
      (body ++ (dashedEnd after).dropLast).length < body'.length + (dashedEnd !after).length) :
    EndsFirst body after := by
  intro other
  by_cases ho : other = after
  · subst ho
    exact Text.lacks_of_cut? dashedEnd_ne_nil h
  · obtain rfl : other = !after := by cases other <;> cases after <;> simp_all
    have front : body ++ (dashedEnd after).dropLast <+: s := by
      rw [Text.eq_append_of_cut? h]
      exact ((List.prefix_append_right_inj body).mpr (List.dropLast_prefix _)).trans
        (List.prefix_append _ _)
    cases hc : Text.cut? (dashedEnd !after) s with
    | none => exact fun hi => Text.cut?_eq_none_iff.mp hc (hi.trans front.isInfix)
    | some cut =>
      obtain ⟨body', rest'⟩ := cut
      have first := Text.lacks_of_cut? dashedEnd_ne_nil hc
      exact first.not_infix (Text.eq_append_of_cut? hc ▸ front) (hn body' rest' hc)

/-- Of the two closers of a comment between dashes the first one ends it. -/
lemma exists_of_longCommentEnd? (h : longCommentEnd? s = some (body, closer, rest)) :
    ∃ after, closer = dashedEnd after ∧ EndsFirst body after := by
  have plain : "--\x7d\x7d".toList = dashedEnd false := rfl
  have trimming : "--~\x7d\x7d".toList = dashedEnd true := rfl
  simp only [longCommentEnd?, plain, trimming] at h
  split at h
  · rename_i b r b' r' hp ht
    split at h
    · rename_i hl
      cases h
      refine ⟨true, rfl, endsFirst_of_cut ht fun _ _ hp' => ?_⟩
      cases hp.symm.trans hp'
      simp [length_dashedEnd]
      omega
    · rename_i hl
      cases h
      refine ⟨false, rfl, endsFirst_of_cut hp fun _ _ ht' => ?_⟩
      cases ht.symm.trans ht'
      simp [length_dashedEnd]
      omega
  · rename_i hp ht
    cases h
    exact ⟨false, rfl, endsFirst_of_cut hp fun _ _ ht' => by cases ht.symm.trans ht'⟩
  · rename_i hp ht
    cases h
    exact ⟨true, rfl, endsFirst_of_cut ht fun _ _ hp' => by cases hp.symm.trans hp'⟩
  · cases h

/-- The other closer does not end before the first one does. -/
lemma EndsFirst.length_lt {other : Bool} {body' rest' : List Char} (first : EndsFirst body after)
    (ho : Text.cut? (dashedEnd other) (body ++ dashedEnd after ++ rest) = some (body', rest')) :
    body.length + (dashedEnd after).length ≤ body'.length + (dashedEnd other).length := by
  have front : body ++ (dashedEnd after).dropLast <+: body ++ dashedEnd after ++ rest :=
    ((List.prefix_append_right_inj body).mpr (List.dropLast_prefix _)).trans
      (List.prefix_append _ _)
  have early : body' ++ dashedEnd other <+: body ++ dashedEnd after ++ rest := by
    rw [Text.eq_append_of_cut? ho]
    exact List.prefix_append _ _
  by_contra hl
  refine first other ((List.suffix_append _ _).isInfix.trans
    (List.prefix_of_prefix_length_le early front ?_).isInfix)
  simp
  omega

lemma EndsFirst.longCommentEnd? (first : EndsFirst body after) (rest : List Char) :
    longCommentEnd? (body ++ dashedEnd after ++ rest) = some (body, dashedEnd after, rest) := by
  have plain : "--\x7d\x7d".toList = dashedEnd false := rfl
  have trimming : "--~\x7d\x7d".toList = dashedEnd true := rfl
  have own := Text.Lacks.cut? (first after) dashedEnd_ne_nil rest
  simp only [Template.longCommentEnd?, plain, trimming]
  cases after with
  | true =>
    rw [own]
    cases hc : Text.cut? (dashedEnd false) (body ++ dashedEnd true ++ rest) with
    | none => rfl
    | some cut =>
      have hl := first.length_lt hc
      simp only [length_dashedEnd, Bool.false_eq_true, if_true, if_false] at hl
      exact if_pos (by omega)
  | false =>
    rw [own]
    cases hc : Text.cut? (dashedEnd true) (body ++ dashedEnd false ++ rest) with
    | none => rfl
    | some cut =>
      obtain ⟨body', rest'⟩ := cut
      have hl := first.length_lt hc
      simp only [length_dashedEnd, Bool.false_eq_true, if_true, if_false] at hl
      refine if_neg fun hlt => ?_
      -- What is left is a closer with a tilde that begins one character earlier: `--~` on `?--`.
      have overlap := Text.eq_append_of_cut? hc
      obtain ⟨t, rfl⟩ : body' <+: body := by
        have cut : body' <+: body ++ dashedEnd false ++ rest := by
          rw [overlap, List.append_assoc]
          exact List.prefix_append _ _
        have whole : body <+: body ++ dashedEnd false ++ rest := by
          rw [List.append_assoc]
          exact List.prefix_append _ _
        exact List.prefix_of_prefix_length_le cut whole hlt.le
      have one : t.length = 1 := by
        simp only [List.length_append] at hl hlt
        omega
      obtain ⟨c, rfl⟩ := List.length_eq_one_iff.mp one
      simp [dashedEnd, tilde] at overlap

/-! ## Reading -/

/-- What is read off the front of a source is one of the shapes. -/
lemma markup_of_readMarkup (h : readMarkup s = .ok (content, span, rest)) :
    Markup ("\x7b\x7b".toList ++ span) content := by
  obtain ⟨before, inner, ho, rfl, hi⟩ := exists_openingTilde s
  simp only [readMarkup, ho, isEmpty_tilde, Bool.not_not] at h
  split at h
  · rename_i comment hc
    split at h
    · cases h
    · rename_i body closer left he
      obtain ⟨after, rfl, first⟩ := exists_of_longCommentEnd? he
      rw [dashedEnd_beq] at h
      cases h
      exact .dashed first
  · rename_i hn
    split at h
    · rename_i comment
      split at h
      · cases h
      · rename_i body left hc
        rcases hb : closingTilde body with ⟨inside, after⟩
        obtain ⟨rfl, trims⟩ := closingTilde_eq_iff.mp hb
        rw [hb] at h
        cases h
        refine .comment (fun hd => Text.leading?_eq_none_iff.mp hn ?_) trims
          (Text.lacks_of_cut? (by decide) hc)
        rw [Text.eq_append_of_cut? hc, List.append_assoc]
        exact (List.prefix_cons_inj '!').mpr (hd.trans (List.prefix_append _ _))
    · rename_i braced _
      split at h
      · cases h
      · rename_i body left hc
        rcases hb : closingTilde body with ⟨inside, after⟩
        obtain ⟨rfl, trims⟩ := closingTilde_eq_iff.mp hb
        rw [hb] at h
        cases h
        exact .braced trims (Text.lacks_of_cut? (by decide) hc)
    · rename_i noNote noBrace
      split at h
      · cases h
      · rename_i body left hc
        rcases hb : closingTilde body with ⟨inside, after⟩
        obtain ⟨rfl, trims⟩ := closingTilde_eq_iff.mp hb
        rw [hb] at h
        cases h
        refine .tag (fun c hc' => ?_) trims (Text.lacks_of_cut? (by decide) hc)
        obtain ⟨more, hm⟩ := List.head?_eq_some_iff.mp hc'
        have hin : inner = c :: (more ++ "\x7d\x7d".toList ++ rest) := by
          rw [Text.eq_append_of_cut? hc, hm]
          rfl
        refine ⟨?_, ?_, ?_⟩
        · rintro rfl
          exact noNote _ hin
        · rintro rfl
          exact noBrace _ hin
        · rintro rfl
          exact hi (congrArg List.head? hin)

/-- Two dashes at the start of a text do not come from the braces behind it. -/
lemma prefix_of_dashes (h : "--".toList <+: s ++ "\x7d\x7d".toList ++ rest) :
    "--".toList <+: s := by
  rcases s with _ | ⟨c, _ | ⟨d, more⟩⟩
  · simp at h
  · simp at h
  · simpa using h

/-- A source that begins with one of the shapes is read as it, whatever follows. -/
lemma Markup.read (h : Markup ("\x7b\x7b".toList ++ span) content) (rest : List Char) :
    readMarkup (span ++ rest) = .ok (content, span, rest) := by
  generalize hw : "\x7b\x7b".toList ++ span = whole at h
  cases h with
  | @dashed inside before after first =>
    obtain rfl := List.append_cancel_left hw
    have split : tilde before ++ "!--".toList ++ inside ++ dashedEnd after ++ rest =
        tilde before ++ ("!--".toList ++ (inside ++ dashedEnd after ++ rest)) := by
      simp only [List.append_assoc]
    rw [split, readMarkup, openingTilde_tilde fun h => by cases h]
    simp only [isEmpty_tilde, Bool.not_not, Text.leading?_eq_some_iff.mpr rfl,
      first.longCommentEnd? rest, dashedEnd_beq]
  | @comment inside before after starts trims first =>
    obtain rfl := List.append_cancel_left hw
    have split : tilde before ++ '!' :: (inside ++ tilde after) ++ "\x7d\x7d".toList ++ rest =
        tilde before ++ '!' :: (inside ++ tilde after ++ "\x7d\x7d".toList ++ rest) := by
      simp only [List.append_assoc, List.cons_append]
    have noDashes : Text.leading? "!--".toList
        ('!' :: (inside ++ tilde after ++ "\x7d\x7d".toList ++ rest)) = none :=
      Text.leading?_eq_none_iff.mpr fun hd =>
        starts (prefix_of_dashes ((List.prefix_cons_inj '!').mp hd))
    rw [split, readMarkup, openingTilde_tilde fun h => by cases h]
    simp only [isEmpty_tilde, Bool.not_not, noDashes, first.cut? (by decide) rest,
      closingTilde_eq_iff.mpr ⟨rfl, trims⟩]
  | @braced inside before after trims first =>
    obtain rfl := List.append_cancel_left hw
    have split : tilde before ++ '{' :: (inside ++ tilde after) ++ "\x7d\x7d\x7d".toList ++ rest =
        tilde before ++ '{' :: (inside ++ tilde after ++ "\x7d\x7d\x7d".toList ++ rest) := by
      simp only [List.append_assoc, List.cons_append]
    have noNote : Text.leading? "!--".toList
        ('{' :: (inside ++ tilde after ++ "\x7d\x7d\x7d".toList ++ rest)) = none := rfl
    rw [split, readMarkup, openingTilde_tilde fun h => by cases h]
    simp only [isEmpty_tilde, Bool.not_not, noNote, first.cut? (by decide) rest,
      closingTilde_eq_iff.mpr ⟨rfl, trims⟩]
  | @tag inside before after starts trims first =>
    obtain rfl := List.append_cancel_left hw
    have split : tilde before ++ (inside ++ tilde after) ++ "\x7d\x7d".toList ++ rest =
        tilde before ++ (inside ++ tilde after ++ "\x7d\x7d".toList ++ rest) := by
      simp only [List.append_assoc]
    have cut := first.cut? (by decide) rest
    obtain ⟨c, more, hin, noNote, noBrace, tilded⟩ :
        ∃ c more, inside ++ tilde after ++ "\x7d\x7d".toList ++ rest = c :: more ∧
          c ≠ '!' ∧ c ≠ '{' ∧ (c = '~' → before = true) := by
      cases hw : inside ++ tilde after with
      | nil => exact ⟨'}', '}' :: rest, rfl, by decide, by decide, fun h => absurd h (by decide)⟩
      | cons c more => exact ⟨c, _, rfl, starts c (by rw [hw]; rfl)⟩
    have noDashes : Text.leading? "!--".toList (c :: more) = none :=
      Text.leading?_eq_none_iff.mpr fun hd => noNote (List.cons_prefix_cons.mp hd).1.symm
    rw [hin] at cut
    rw [split, hin, readMarkup, openingTilde_tilde fun h => tilded (by simpa using h)]
    simp only [isEmpty_tilde, Bool.not_not, noDashes, cut, closingTilde_eq_iff.mpr ⟨rfl, trims⟩]
    split
    · rename_i he
      exact absurd (List.cons.inj he).1 noNote
    · rename_i he
      exact absurd (List.cons.inj he).1 noBrace
    · rfl

/-- **A source is read as the tag or comment that it begins with.** -/
theorem readMarkup_eq_ok_iff : readMarkup s = .ok (content, span, rest) ↔
    s = span ++ rest ∧ Markup ("\x7b\x7b".toList ++ span) content := by
  constructor
  · intro h
    exact ⟨eq_append_of_readMarkup h, markup_of_readMarkup h⟩
  · rintro ⟨rfl, h⟩
    exact h.read rest

end Colloquy.Template
