import Colloquy.Template.Node
import Colloquy.Text.Cut

/-!
# Lexemes

A template source is cut into lexemes: plain text, tags and comments.  A lexeme keeps the stretch of
source that it covers, so that the lexemes of a source together are the source.  A tilde at either
end of a tag or comment takes the blanks away from the text beside it; `controlled` applies that.
-/

namespace Colloquy.Template

/-- What a stretch of source is. -/
inductive Content where
  | text
  /-- A tag with its inside, and whether it trims the text before and after it. -/
  | tag (body : List Char) (before after : Bool)
  | comment (before after : Bool)
  deriving DecidableEq, Repr

/-- A stretch of source with the place where it starts. -/
structure Lexeme where
  position : Position
  span : List Char
  content : Content
  deriving DecidableEq, Repr

namespace Content

/-- Blanks before it go. -/
def trimsBefore : Content → Bool
  | text => false
  | tag _ before _ => before
  | comment before _ => before

/-- Blanks after it go. -/
def trimsAfter : Content → Bool
  | text => false
  | tag _ _ after => after
  | comment _ after => after

end Content

/-- A tilde at the start of a text, as a text that is there or not, and what follows it. -/
def openingTilde : List Char → List Char × List Char
  | '~' :: s => (['~'], s)
  | s => ([], s)

/-- A text without a tilde at its end, and whether it had one. -/
def closingTilde (s : List Char) : List Char × Bool :=
  if s.getLast? == some '~' then (s.dropLast, true) else (s, false)

/-- The end of a long comment: the first of its two closers, with the text before it. -/
def longCommentEnd? (s : List Char) : Option (List Char × List Char × List Char) :=
  let plain := Text.cut? "--\x7d\x7d".toList s
  let trimming := Text.cut? "--~\x7d\x7d".toList s
  match plain, trimming with
  | some (before, rest), some (before', rest') =>
    if before'.length < before.length then some (before', "--~\x7d\x7d".toList, rest')
    else some (before, "--\x7d\x7d".toList, rest)
  | some (before, rest), none => some (before, "--\x7d\x7d".toList, rest)
  | none, some (before, rest) => some (before, "--~\x7d\x7d".toList, rest)
  | none, none => none

/-- Reads a tag or a comment from behind its two opening braces: its content, the source that it
covers, and what follows it. -/
def readMarkup (s : List Char) : Except Fault (Content × List Char × List Char) :=
  let (tilde, inner) := openingTilde s
  let before := !tilde.isEmpty
  match Text.leading? "!--".toList inner with
  | some comment =>
    match longCommentEnd? comment with
    | none => .error .unclosedComment
    | some (body, closer, rest) =>
      let after := closer == "--~\x7d\x7d".toList
      .ok (.comment before after, tilde ++ "!--".toList ++ body ++ closer, rest)
  | none =>
    match inner with
    | '!' :: comment =>
      match Text.cut? "\x7d\x7d".toList comment with
      | none => .error .unclosedComment
      | some (body, rest) =>
        .ok (.comment before (closingTilde body).2, tilde ++ '!' :: body ++ "\x7d\x7d".toList, rest)
    | '{' :: inside =>
      match Text.cut? "\x7d\x7d\x7d".toList inside with
      | none => .error .unclosedTag
      | some (body, rest) =>
        let (trimmed, after) := closingTilde body
        .ok (.tag (Text.trim trimmed) before after,
          tilde ++ '{' :: body ++ "\x7d\x7d\x7d".toList, rest)
    | _ =>
      match Text.cut? "\x7d\x7d".toList inner with
      | none => .error .unclosedTag
      | some (body, rest) =>
        let (trimmed, after) := closingTilde body
        .ok (.tag (Text.trim trimmed) before after, tilde ++ body ++ "\x7d\x7d".toList, rest)

theorem openingTilde_append (s : List Char) : (openingTilde s).1 ++ (openingTilde s).2 = s := by
  unfold openingTilde
  split <;> simp

theorem eq_append_of_longCommentEnd? {s body closer rest : List Char}
    (h : longCommentEnd? s = some (body, closer, rest)) : s = body ++ closer ++ rest := by
  simp only [longCommentEnd?] at h
  split at h
  · rename_i b r b' r' hp ht
    split at h <;> simp only [Option.some.injEq, Prod.mk.injEq] at h <;> obtain ⟨rfl, rfl, rfl⟩ := h
    · exact Text.eq_append_of_cut? ht
    · exact Text.eq_append_of_cut? hp
  · rename_i hp _
    simp only [Option.some.injEq, Prod.mk.injEq] at h
    obtain ⟨rfl, rfl, rfl⟩ := h
    exact Text.eq_append_of_cut? hp
  · rename_i _ ht
    simp only [Option.some.injEq, Prod.mk.injEq] at h
    obtain ⟨rfl, rfl, rfl⟩ := h
    exact Text.eq_append_of_cut? ht
  · simp at h

/-- What a tag or comment covers and what follows it are the source. -/
theorem eq_append_of_readMarkup {s span rest : List Char} {content : Content}
    (h : readMarkup s = .ok (content, span, rest)) : s = span ++ rest := by
  have tilde := openingTilde_append s
  simp only [readMarkup] at h
  generalize openingTilde s = opened at tilde h
  subst tilde
  split at h
  · rename_i comment hl
    rw [Text.leading?_eq_some_iff.mp hl]
    split at h
    · simp at h
    · rename_i hc
      simp only [Except.ok.injEq, Prod.mk.injEq] at h
      obtain ⟨_, rfl, rfl⟩ := h
      rw [eq_append_of_longCommentEnd? hc]
      simp
  · split at h
    all_goals
      rename_i hi
      split at h
      · simp at h
      · rename_i hc
        simp only [Except.ok.injEq, Prod.mk.injEq] at h
        obtain ⟨_, rfl, rfl⟩ := h
        try rw [hi]
        rw [Text.eq_append_of_cut? hc]
        simp

/-- The text of a stretch of source, as a lexeme; an empty stretch is none. -/
def Lexeme.ofText (position : Position) (span : List Char) : List Lexeme :=
  if span.isEmpty then [] else [⟨position, span, .text⟩]

/-- The lexemes of a source that starts at a position. -/
def Lexeme.scanFrom (position : Position) (s : List Char) : Except TemplateError (List Lexeme) :=
  match h₁ : Text.cut? "\x7b\x7b".toList s with
  | none => .ok (ofText position s)
  | some (text, inner) =>
    let start := position.advance text
    match h₂ : readMarkup inner with
    | .error fault => .error (.parse start fault)
    | .ok (content, span, rest) =>
      have : rest.length < s.length := by
        have := Text.length_of_cut? h₁
        have := congrArg List.length (eq_append_of_readMarkup h₂)
        simp at *
        omega
      let whole := "\x7b\x7b".toList ++ span
      (scanFrom (start.advance whole) rest).map fun lexemes =>
        ofText position text ++ ⟨start, whole, content⟩ :: lexemes
termination_by s.length

/-- The lexemes of a source. -/
def Lexeme.scan (s : List Char) : Except TemplateError (List Lexeme) := scanFrom .origin s

/-! ## Whitespace control -/

/-- A lexeme after whitespace control. -/
inductive Token where
  | text (text : List Char)
  | tag (position : Position) (body : List Char)
  deriving DecidableEq, Repr

/-- The tokens of some lexemes, the first of which follows a lexeme that trims after itself or not.
Comments go. -/
def controlled (trimsStart : Bool) : List Lexeme → List Token
  | [] => []
  | lexeme :: rest =>
    match lexeme.content with
    | .text =>
      let trimsEnd := match rest with
        | next :: _ => next.content.trimsBefore
        | [] => false
      let s := if trimsEnd then Text.trimEnd lexeme.span else lexeme.span
      let s := if trimsStart then Text.trimStart s else s
      .text s :: controlled false rest
    | .tag body _ after => .tag lexeme.position body :: controlled after rest
    | .comment _ after => controlled after rest

end Colloquy.Template
