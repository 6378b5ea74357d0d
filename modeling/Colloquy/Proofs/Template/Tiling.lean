import Colloquy.Proofs.Template.Markup

/-!
# Lexemes tile their source

The lexemes of a source are its texts, tags and comments in order, each with the place where it
starts.  `Tiles` says what that means without the reader: a text goes up to the leftmost two opening
braces, a tag or comment starts there and has one of the shapes of `Markup`, and the next text
starts behind it.
-/

namespace Colloquy.Template

/-! ## Places -/

/-- The last line of a text, as far as the text goes. -/
def lastLine (s : List Char) : List Char := s.rtakeWhile (· ≠ '\n')

/-- The number of bytes of a text. -/
def byteLength (s : List Char) : Nat := s.foldl (fun n c => n + c.utf8Size) 0

namespace Position

/-- The place behind some text: its line is one more than the line breaks before it, and its column
one more than the bytes of the line before it. -/
def after (s : List Char) : Position := ⟨s.count '\n' + 1, byteLength (lastLine s) + 1⟩

lemma step_after (s : List Char) (c : Char) : (after s).step c = after (s ++ [c]) := by
  unfold step after lastLine
  split
  · rename_i hc
    subst hc
    rw [List.rtakeWhile_concat_neg _ _ _ (by simp), List.count_append]
    rfl
  · rename_i hc
    have other : List.count '\n' [c] = 0 := List.count_eq_zero.mpr (by simpa using Ne.symm hc)
    rw [List.rtakeWhile_concat_pos _ _ _ (by simpa using hc), List.count_append, other]
    simp [byteLength]
    omega

lemma advance_after (s t : List Char) : (after s).advance t = after (s ++ t) := by
  induction t generalizing s with
  | nil => rw [List.append_nil]; rfl
  | cons c t ih =>
    rw [advance, List.foldl_cons, step_after, ← advance, ih, List.append_assoc]
    rfl

end Position

/-! ## Tilings -/

/-- The lexemes are those of a source from some place on: `done` is the source before that place and
what they tile follows it. -/
inductive Tiles : (done s : List Char) → List Lexeme → Prop
  | text {done s} (plain : ¬ "\x7b\x7b".toList <:+: s) :
    Tiles done s (Lexeme.ofText (.after done) s)
  | markup {done text span content rest lexemes} (leftmost : Text.Lacks "\x7b\x7b".toList text)
      (shape : Markup span content) (h : Tiles (done ++ (text ++ span)) rest lexemes) :
      Tiles done (text ++ span ++ rest)
        (Lexeme.ofText (.after done) text ++ ⟨.after (done ++ text), span, content⟩ :: lexemes)

lemma advance_twice (done text span : List Char) :
    ((Position.after done).advance text).advance span = .after (done ++ (text ++ span)) := by
  rw [Position.advance_after, Position.advance_after, List.append_assoc]

lemma tiles_of_scanFrom {p : Position} {done s : List Char} {lexemes : List Lexeme}
    (hp : p = .after done) (h : Lexeme.scanFrom p s = .ok lexemes) : Tiles done s lexemes := by
  fun_induction Lexeme.scanFrom p s generalizing done lexemes with
  | case1 p s hc =>
    subst hp
    obtain rfl := Except.ok.inj h
    exact .text (Text.cut?_eq_none_iff.mp hc)
  | case2 => cases h
  | case3 _ _ text inner hc _ content span rest hr _ =>
    rename_i ih
    subst hp
    obtain ⟨others, hs, rfl⟩ := exists_of_map_eq_ok h
    obtain ⟨rfl, shape⟩ := readMarkup_eq_ok_iff.mp hr
    obtain ⟨rfl, leftmost⟩ := (Text.cut?_eq_some_iff (by decide)).mp hc
    have behind := advance_twice done text ("\x7b\x7b".toList ++ span)
    have tiles := Tiles.markup leftmost shape (ih behind hs)
    rwa [List.append_assoc text, List.append_assoc _ span, ← List.append_assoc text,
      ← Position.advance_after] at tiles

lemma Markup.exists_inner {span : List Char} {content : Content} (h : Markup span content) :
    ∃ inner, span = "\x7b\x7b".toList ++ inner := by
  cases h <;> exact ⟨_, rfl⟩

lemma Markup.ne_text {span : List Char} {content : Content} (h : Markup span content) :
    content ≠ .text := by
  cases h <;> exact Content.noConfusion

lemma Tiles.scanFrom {done s : List Char} {lexemes : List Lexeme} (h : Tiles done s lexemes) :
    Lexeme.scanFrom (.after done) s = .ok lexemes := by
  induction h with
  | @text done s plain =>
    have uncut := Text.cut?_eq_none_iff.mpr plain
    rw [Lexeme.scanFrom]
    split
    · rfl
    · rename_i hc
      cases uncut.symm.trans hc
  | @markup done text span content rest lexemes leftmost shape h ih =>
    obtain ⟨inner, rfl⟩ := shape.exists_inner
    have cut := leftmost.cut? (by decide) (inner ++ rest)
    have read := shape.read rest
    have behind := advance_twice done text ("\x7b\x7b".toList ++ inner)
    rw [← Position.advance_after, List.append_assoc text, List.append_assoc _ inner,
      ← List.append_assoc text, Lexeme.scanFrom]
    split
    · rename_i hc
      cases cut.symm.trans hc
    · rename_i hc
      obtain ⟨rfl, rfl⟩ := Prod.mk.inj (Option.some.inj (cut.symm.trans hc))
      dsimp only
      split
      · rename_i hr
        cases read.symm.trans hr
      · rename_i hr
        cases read.symm.trans hr
        rw [behind, ih]
        rfl

/-- **A source is cut into the lexemes that tile it.** -/
theorem scanFrom_eq_ok_iff {done s : List Char} {lexemes : List Lexeme} :
    Lexeme.scanFrom (.after done) s = .ok lexemes ↔ Tiles done s lexemes :=
  ⟨tiles_of_scanFrom rfl, Tiles.scanFrom⟩

/-! ## What a tiling says of its lexemes -/

@[simp] lemma flatMap_span_ofText (p : Position) (s : List Char) :
    (Lexeme.ofText p s).flatMap Lexeme.span = s := by
  unfold Lexeme.ofText
  split
  · rename_i h
    rw [List.isEmpty_iff.mp h]
    rfl
  · exact List.append_nil s

lemma content_of_mem_ofText {p : Position} {s : List Char} {lexeme : Lexeme}
    (h : lexeme ∈ Lexeme.ofText p s) : lexeme.content = .text := by
  unfold Lexeme.ofText at h
  split at h
  · cases h
  · rw [List.mem_singleton.mp h]

/-- The lexemes cover all of the source, each character once. -/
lemma Tiles.flatMap_span {done s : List Char} {lexemes : List Lexeme} (h : Tiles done s lexemes) :
    lexemes.flatMap Lexeme.span = s := by
  induction h with
  | text plain => exact flatMap_span_ofText _ _
  | markup leftmost shape h ih =>
    rw [List.flatMap_append, List.flatMap_cons, flatMap_span_ofText, ih, List.append_assoc]

/-- A lexeme that is no text stands in a row that begins with a text and a tag or comment: it is
that tag or comment, or it stands behind it. -/
lemma cases_of_ofText_append {p : Position} {text : List Char} {first lexeme : Lexeme}
    {rest before after : List Lexeme} (hl : lexeme.content ≠ .text)
    (h : Lexeme.ofText p text ++ first :: rest = before ++ lexeme :: after) :
    (before = Lexeme.ofText p text ∧ lexeme = first ∧ after = rest) ∨
      ∃ more, before = Lexeme.ofText p text ++ first :: more ∧ rest = more ++ lexeme :: after := by
  have tail {before : List Lexeme} (h : first :: rest = before ++ lexeme :: after) :
      (before = [] ∧ lexeme = first ∧ after = rest) ∨
        ∃ more, before = first :: more ∧ rest = more ++ lexeme :: after := by
    cases before with
    | nil => exact .inl ⟨rfl, (List.cons.inj h).1.symm, (List.cons.inj h).2.symm⟩
    | cons x more =>
      obtain ⟨rfl, hr⟩ := List.cons.inj h
      exact .inr ⟨more, rfl, hr⟩
  have none_or_one : Lexeme.ofText p text = [] ∨ Lexeme.ofText p text = [⟨p, text, .text⟩] := by
    unfold Lexeme.ofText
    split <;> simp
  rcases none_or_one with he | he <;> rw [he] at h ⊢
  · exact tail h
  · cases before with
    | nil =>
      obtain ⟨rfl, -⟩ := List.cons.inj h
      exact absurd rfl hl
    | cons x before =>
      obtain ⟨rfl, hr⟩ := List.cons.inj h
      rcases tail hr with ⟨rfl, hf, ha⟩ | ⟨more, rfl, hm⟩
      · exact .inl ⟨rfl, hf, ha⟩
      · exact .inr ⟨more, rfl, hm⟩

end Colloquy.Template
