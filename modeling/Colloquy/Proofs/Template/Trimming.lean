import Colloquy.Proofs.Template.Derivation
import Colloquy.Proofs.Template.Markers
import Colloquy.Proofs.Template.Tiling

/-!
# Tokenising loses no text

What whitespace control does to the texts of a source, and what it leaves of them in the tree.  The
lexemes tile the source; each text is trimmed at its start exactly if the tag or comment before it
ends with a tilde, and at its end exactly if the one behind it begins with one; and the texts of the
tree are the texts that are left, in the order of the source, without the empty ones.

So blanks that are put beside such a tilde make no difference.  This is not local: everything behind
them moves to another place.  `ReadAlike` says which lexemes are read as the same nodes wherever
they stand, and `Tiles.exists_context` takes a source apart around one of its lexemes.
-/

namespace Colloquy.Template

/-! ## Texts between their neighbours -/

/-- A text with the blanks taken off either end or not. -/
def trimmed (atStart atEnd : Bool) (s : List Char) : List Char :=
  let s := if atEnd then Text.trimEnd s else s
  if atStart then Text.trimStart s else s

/-- The text of a token. -/
def Token.text? : Token → Option (List Char)
  | .text s => some s
  | .tag _ _ => none

@[simp] lemma trimmed_nil {atStart atEnd : Bool} : trimmed atStart atEnd [] = [] := by
  cases atStart <;> cases atEnd <;> rfl

lemma trimmed_append {blanks : List Char} (h : Text.allBlank blanks = true) (atStart : Bool)
    (s : List Char) : trimmed atStart true (s ++ blanks) = trimmed atStart true s := by
  simp only [trimmed, if_true, Text.trimEnd_append h]

lemma trimmed_indent {blanks : List Char} (h : Text.allBlank blanks = true) (atEnd : Bool)
    (s : List Char) : trimmed true atEnd (blanks ++ s) = trimmed true atEnd s := by
  cases atEnd with
  | false => exact Text.trimStart_append h s
  | true =>
    simp only [trimmed, if_true, Text.trimStart_trimEnd, Text.trim, Text.trimStart_append h]

variable {lexemes : List Lexeme} {lexeme : Lexeme} {trims : Bool}

lemma controlled_text (h : lexeme.content = .text) (rest : List Lexeme) :
    controlled trims (lexeme :: rest) =
      .text (trimmed trims (rest.head?.any (·.content.trimsBefore)) lexeme.span) ::
        controlled false rest := by
  rw [controlled.eq_def]
  simp only [h]
  cases rest <;> rfl

/-- What is in front of a text is tokenised as if it stood alone. -/
lemma controlled_append (h : lexeme.content = .text) (before after : List Lexeme) :
    controlled trims (before ++ lexeme :: after) = controlled trims before ++
      controlled ((before.getLast?.map (·.content.trimsAfter)).getD trims) (lexeme :: after) := by
  induction before generalizing trims with
  | nil => rfl
  | cons first before ih =>
    have others (t : Bool) := @ih t
    have last (t : Bool) : ((first :: before).getLast?.map (·.content.trimsAfter)).getD t =
        (before.getLast?.map (·.content.trimsAfter)).getD first.content.trimsAfter := by
      rw [List.getLast?_cons]
      cases before.getLast? <;> rfl
    have next : ((before ++ lexeme :: after).head?.any (·.content.trimsBefore)) =
        before.head?.any (·.content.trimsBefore) := by
      cases before with
      | nil => simp [h, Content.trimsBefore]
      | cons => rfl
    rw [List.cons_append, last]
    cases hf : first.content with
    | text => rw [controlled_text hf, controlled_text hf, next, others]; rfl
    | tag body b a =>
      rw [controlled.eq_def, controlled.eq_def]
      simp only [hf]
      rw [others]
      rfl
    | comment b a =>
      rw [controlled.eq_def, controlled.eq_def]
      simp only [hf]
      rw [others]
      rfl

/-- A text between its neighbours, with what its neighbours trim of it. -/
lemma controlled_between (h : lexeme.content = .text) (before after : List Lexeme) :
    controlled false (before ++ lexeme :: after) = controlled false before ++
      .text (trimmed (before.getLast?.any (·.content.trimsAfter))
          (after.head?.any (·.content.trimsBefore)) lexeme.span) ::
        controlled false after := by
  have last : (before.getLast?.map (·.content.trimsAfter)).getD false =
      before.getLast?.any (·.content.trimsAfter) := by
    cases before.getLast? <;> rfl
  rw [controlled_append h, controlled_text h, last]

/-! ## The texts of a tree -/

/-- The texts that a terminal writes as they stand in the source. -/
def Terminal.literals : Terminal → List String
  | .leaf node => node.literals
  | _ => []

mutual

/-- The texts of a tree are those of the row that derives it, in order. -/
theorem Body.literals_eq {ts : List Terminal} {nodes : List Node} :
    Body ts nodes → literals nodes = ts.flatMap Terminal.literals
  | .nil => rfl
  | .leaf node h => by rw [literals, h.literals_eq, List.flatMap_cons]; rfl
  | .block clause hb ht h => by
    rw [literals, h.literals_eq, Clause.node, Node.literals, hb.literals_eq, ht.literals_eq]
    simp [Terminal.literals, Clause.close]

theorem Tail.literals_eq {ts : List Terminal} {inverse : List Node} :
    Tail ts inverse → literals inverse = ts.flatMap Terminal.literals
  | .none => rfl
  | .otherwise h => by rw [h.literals_eq, List.flatMap_cons]; rfl
  | .chained clause hb ht => by
    simp [literals, Clause.node, Node.literals, hb.literals_eq, ht.literals_eq,
      Terminal.literals]

end

/-- A tag writes no text of its own. -/
lemma literals_readTerminal? {body : List Char} :
    (readTerminal? body).toList.flatMap Terminal.literals = [] := by
  cases ht : readTerminal? body with
  | none => rfl
  | some t =>
    cases t with
    | leaf node =>
      have noText := standsForTag_of_read (readTerminal?_eq_some_iff.mp ht)
      cases node with
      | text | block => cases noText
      | _ => rfl
    | _ => rfl

/-- The texts that are left of some tokens, without the empty ones. -/
def visibleTexts (tokens : List Token) : List String :=
  ((tokens.filterMap Token.text?).filter (!·.isEmpty)).map String.ofList

lemma literals_terminals (tokens : List Token) :
    (terminals tokens).flatMap Terminal.literals = visibleTexts tokens := by
  induction tokens with
  | nil => rfl
  | cons token tokens ih =>
    cases token with
    | text s =>
      rw [terminals_text, List.flatMap_append, ih]
      cases hs : s.isEmpty <;>
        simp [visibleTexts, Token.text?, hs, Terminal.literals, Node.literals]
    | tag position body =>
      rw [terminals_tag, List.flatMap_append, ih, literals_readTerminal?]
      rfl

/-! ## Lexemes that are read alike -/

/-- Behind a tag that trims or not, the lexemes are read as the same nodes. -/
structure ReadAlike (trims : Bool) (lexemes others : List Lexeme) : Prop where
  wellFormed : (∀ lexeme ∈ lexemes, lexeme.WellFormed) ↔ ∀ lexeme ∈ others, lexeme.WellFormed
  terminals : Template.terminals (controlled trims lexemes) =
    Template.terminals (controlled trims others)

/-- The terminals of a text; an empty text is none. -/
def textTerminals (s : List Char) : List Terminal :=
  if s.isEmpty then [] else [.leaf (.text (String.ofList s))]

/-- The terminal of a tag. -/
def Content.terminals : Content → List Terminal
  | .tag body _ _ => (readTerminal? body).toList
  | _ => []

lemma terminals_controlled_markup {p q : Position} {text span : List Char} {content : Content}
    (hc : content ≠ .text) (rest : List Lexeme) :
    terminals (controlled trims (Lexeme.ofText p text ++ ⟨q, span, content⟩ :: rest)) =
      textTerminals (trimmed trims content.trimsBefore text) ++
        (content.terminals ++ terminals (controlled content.trimsAfter rest)) := by
  have own (t : Bool) : terminals (controlled t (⟨q, span, content⟩ :: rest)) =
      content.terminals ++ terminals (controlled content.trimsAfter rest) := by
    rw [controlled.eq_def]
    cases content with
    | text => exact absurd rfl hc
    | tag body before after => exact terminals_tag q body _
    | comment before after => rfl
  unfold Lexeme.ofText
  split
  · rename_i ht
    rw [List.isEmpty_iff.mp ht, trimmed_nil, List.nil_append, own]
    rfl
  · rw [List.singleton_append, controlled_text rfl, terminals_text, own]
    rfl

lemma wellFormed_ofText {p : Position} {text : List Char} :
    ∀ lexeme ∈ Lexeme.ofText p text, lexeme.WellFormed := by
  intro lexeme h
  rw [Lexeme.WellFormed, content_of_mem_ofText h]
  trivial

namespace ReadAlike

variable {L L' : List Lexeme} {p p' q q' : Position} {s s' span span' : List Char}
  {content : Content}

/-- A tag or comment with what is behind it, after a text of which the same is left. -/
lemma markup (hc : content ≠ .text)
    (ht : trimmed trims content.trimsBefore s = trimmed trims content.trimsBefore s')
    (h : ReadAlike content.trimsAfter L L') :
    ReadAlike trims (Lexeme.ofText p s ++ ⟨q, span, content⟩ :: L)
      (Lexeme.ofText p' s' ++ ⟨q', span', content⟩ :: L') where
  wellFormed := by
    have own : Lexeme.WellFormed ⟨q, span, content⟩ ↔ Lexeme.WellFormed ⟨q', span', content⟩ :=
      Iff.rfl
    simp only [List.forall_mem_append, List.forall_mem_cons, own, h.wellFormed]
    exact and_congr ⟨fun _ => wellFormed_ofText, fun _ => wellFormed_ofText⟩ Iff.rfl
  terminals := by
    rw [terminals_controlled_markup hc, terminals_controlled_markup hc, ht, h.terminals]

/-- A text at the end, of which the same is left. -/
lemma text (ht : trimmed trims false s = trimmed trims false s') :
    ReadAlike trims (Lexeme.ofText p s) (Lexeme.ofText p' s') where
  wellFormed := ⟨fun _ => wellFormed_ofText, fun _ => wellFormed_ofText⟩
  terminals := by
    have own (p : Position) (s : List Char) :
        Template.terminals (controlled trims (Lexeme.ofText p s)) =
          textTerminals (trimmed trims false s) := by
      unfold Lexeme.ofText
      split
      · rename_i hs
        rw [List.isEmpty_iff.mp hs, trimmed_nil]
        rfl
      · rw [controlled_text rfl, terminals_text]
        exact List.append_nil _
    rw [own, own, ht]

end ReadAlike

/-- The same source further on is read alike. -/
lemma Tiles.exists_moved {done s : List Char} {lexemes : List Lexeme} (h : Tiles done s lexemes)
    (done' : List Char) :
    ∃ moved, Tiles done' s moved ∧ ∀ trims, ReadAlike trims moved lexemes := by
  induction h generalizing done' with
  | text plain => exact ⟨_, .text plain, fun _ => .text rfl⟩
  | @markup done text span content rest lexemes leftmost shape h ih =>
    obtain ⟨moved, tiles, alike⟩ := ih (done' ++ (text ++ span))
    exact ⟨_, .markup leftmost shape tiles, fun _ => .markup shape.ne_text rfl (alike _)⟩

/-- What stands before a tag or comment that is replaced, and what follows from reading what is put
there and behind it. -/
lemma Tiles.exists_context {done s : List Char} {before after : List Lexeme}
    (h : Tiles done s (before ++ lexeme :: after)) (hl : lexeme.content ≠ .text) :
    ∃ front head text rest,
      before = front ++ Lexeme.ofText (.after (done ++ head)) text ∧
      before.flatMap Lexeme.span = head ++ text ∧ Text.Lacks "\x7b\x7b".toList text ∧
      Markup lexeme.span lexeme.content ∧ Tiles (done ++ head ++ (text ++ lexeme.span)) rest after ∧
      ∀ s' others, Tiles (done ++ head) s' others →
        (∀ trims, ReadAlike trims others
          (Lexeme.ofText (.after (done ++ head)) text ++ lexeme :: after)) →
        ∃ all, Tiles done (head ++ s') all ∧
          ∀ trims, ReadAlike trims all (before ++ lexeme :: after) := by
  generalize hL : before ++ lexeme :: after = lexemes at h
  induction h generalizing before with
  | @text done s plain =>
    have mem : lexeme ∈ Lexeme.ofText (.after done) s := by
      rw [← hL]
      simp
    exact absurd (content_of_mem_ofText mem) hl
  | @markup done text span content rest lexemes leftmost shape h ih =>
    rcases cases_of_ofText_append hl hL.symm with ⟨rfl, rfl, rfl⟩ | ⟨more, rfl, rfl⟩
    · refine ⟨[], [], text, rest, by simp, by simp, leftmost, shape, by simpa using h, ?_⟩
      intro s' others tiles alike
      exact ⟨others, by simpa using tiles, by simpa using alike⟩
    · obtain ⟨front, head, inner, behind, hm, hs, lacks, shape', tiles', context⟩ := ih rfl
      refine ⟨Lexeme.ofText (.after done) text ++ ⟨.after (done ++ text), span, content⟩ :: front,
        text ++ span ++ head, inner, behind, ?_, ?_, lacks, shape', ?_, ?_⟩
      · simp [hm]
      · simp [hs]
      · simpa using tiles'
      · intro s' others tiles alike
        have place : done ++ (text ++ span ++ head) = done ++ (text ++ span) ++ head := by simp
        rw [place] at tiles alike
        obtain ⟨all, ha, hr⟩ := context s' others tiles alike
        have whole := Tiles.markup leftmost shape ha
        rw [← List.append_assoc] at whole
        exact ⟨_, whole, fun trims => .markup shape.ne_text rfl (hr _)⟩

/-! ## Blanks beside a tilde -/

variable {blanks : List Char}

/-- Blanks have no brace. -/
lemma notMem_of_allBlank (h : Text.allBlank blanks = true) :
    ∀ c ∈ blanks, c ∉ "\x7b\x7b".toList := by
  intro c hc hm
  have blank : Text.isBlank c = true := List.all_eq_true.mp h c hc
  obtain rfl : c = '{' := by simpa using hm
  exact absurd blank (by decide)

lemma lacks_append_blanks {text : List Char} (hb : Text.allBlank blanks = true)
    (h : Text.Lacks "\x7b\x7b".toList text) : Text.Lacks "\x7b\x7b".toList (text ++ blanks) := by
  cases blanks with
  | nil => rwa [List.append_nil]
  | cons c blanks =>
    have noBrace := notMem_of_allBlank hb
    intro hi
    rw [List.append_assoc, List.cons_append] at hi
    rcases Text.infix_of_append_cons (noBrace c List.mem_cons_self) hi with hi | hi
    · exact h (hi.trans (List.prefix_append _ _).isInfix)
    · have one := Text.infix_of_append (fun d hd => noBrace d (List.mem_cons_of_mem c hd)) hi
      exact absurd one.length_le (by decide)

/-- Blanks before a tag or comment that begins with a tilde make no difference. -/
lemma Tiles.exists_blanks_before {done s : List Char} {before after : List Lexeme}
    (h : Tiles done s (before ++ lexeme :: after)) (ht : lexeme.content.trimsBefore = true)
    (hb : Text.allBlank blanks = true) :
    ∃ others, Tiles done (before.flatMap Lexeme.span ++
        (blanks ++ (lexeme :: after).flatMap Lexeme.span)) others ∧
      ∀ trims, ReadAlike trims others (before ++ lexeme :: after) := by
  have noText : lexeme.content ≠ .text := fun he => by simp [he, Content.trimsBefore] at ht
  obtain ⟨front, head, text, rest, -, hs, lacks, shape, tiles, context⟩ := h.exists_context noText
  obtain ⟨moved, hm, alike⟩ := tiles.exists_moved (done ++ head ++ (text ++ blanks ++ lexeme.span))
  have markup := Tiles.markup (lacks_append_blanks hb lacks) shape hm
  obtain ⟨all, ha, hr⟩ := context _ _ markup fun trims => by
    refine .markup noText ?_ (alike _)
    rw [ht, trimmed_append hb]
  refine ⟨all, ?_, hr⟩
  rw [List.flatMap_cons, tiles.flatMap_span, hs]
  simpa using ha

/-- Blanks in front of a source are trimmed off by a tag or comment before it. -/
lemma Tiles.exists_indented {done s : List Char} {lexemes : List Lexeme} (h : Tiles done s lexemes)
    (hb : Text.allBlank blanks = true) (done' : List Char) :
    ∃ others, Tiles done' (blanks ++ s) others ∧ ReadAlike true others lexemes := by
  have noBrace := notMem_of_allBlank hb
  cases h with
  | text plain =>
    exact ⟨_, .text fun hi => plain (Text.infix_of_append noBrace hi),
      .text (trimmed_indent hb false s)⟩
  | @markup _ text span content rest lexemes leftmost shape h =>
    have lacks : Text.Lacks "\x7b\x7b".toList (blanks ++ text) := by
      rw [Text.Lacks, List.append_assoc]
      exact fun hi => leftmost (Text.infix_of_append noBrace hi)
    obtain ⟨moved, hm, alike⟩ := h.exists_moved (done' ++ (blanks ++ text ++ span))
    have tiles := Tiles.markup lacks shape hm
    rw [List.append_assoc, List.append_assoc, ← List.append_assoc text] at tiles
    exact ⟨_, tiles, .markup shape.ne_text (trimmed_indent hb _ text) (alike _)⟩

/-- Blanks behind a tag or comment that ends with a tilde make no difference. -/
lemma Tiles.exists_blanks_after {done s : List Char} {before after : List Lexeme}
    (h : Tiles done s (before ++ lexeme :: after)) (ht : lexeme.content.trimsAfter = true)
    (hb : Text.allBlank blanks = true) :
    ∃ others, Tiles done (before.flatMap Lexeme.span ++
        (lexeme.span ++ (blanks ++ after.flatMap Lexeme.span))) others ∧
      ∀ trims, ReadAlike trims others (before ++ lexeme :: after) := by
  have noText : lexeme.content ≠ .text := fun he => by simp [he, Content.trimsAfter] at ht
  obtain ⟨front, head, text, rest, -, hs, lacks, shape, tiles, context⟩ := h.exists_context noText
  obtain ⟨indented, hi, alike⟩ := tiles.exists_indented hb (done ++ head ++ (text ++ lexeme.span))
  obtain ⟨all, ha, hr⟩ := context _ _ (.markup lacks shape hi) fun trims => by
    refine .markup noText rfl ?_
    rwa [ht]
  refine ⟨all, ?_, hr⟩
  rw [tiles.flatMap_span, hs]
  simpa using ha

/-! ## Sources -/

/-- The lexemes stand one behind the other, the first of them behind some text. -/
def Placed (done : List Char) : List Lexeme → Prop
  | [] => True
  | lexeme :: rest => lexeme.position = .after done ∧ Placed (done ++ lexeme.span) rest

lemma placed_append {done : List Char} {before after : List Lexeme} :
    Placed done (before ++ after) ↔
      Placed done before ∧ Placed (done ++ before.flatMap Lexeme.span) after := by
  induction before generalizing done with
  | nil => simp [Placed]
  | cons first before ih => simp [Placed, ih, and_assoc]

lemma Tiles.placed {done s : List Char} {lexemes : List Lexeme} (h : Tiles done s lexemes) :
    Placed done lexemes := by
  have ofText (done s : List Char) : Placed done (Lexeme.ofText (.after done) s) := by
    unfold Lexeme.ofText
    split
    · trivial
    · exact ⟨rfl, trivial⟩
  induction h with
  | text plain => exact ofText _ _
  | markup leftmost shape h ih =>
    refine placed_append.mpr ⟨ofText _ _, ?_, ?_⟩
    · rw [flatMap_span_ofText]
    · rwa [flatMap_span_ofText, List.append_assoc]

/-- Sources whose lexemes are read alike have the same trees. -/
lemma readTree_congr {source source' : List Char} {lexemes lexemes' : List Lexeme}
    (h : Tiles [] source lexemes) (h' : Tiles [] source' lexemes')
    (alike : ReadAlike false lexemes' lexemes) (nodes : List Node) :
    readTree source' = .ok nodes ↔ readTree source = .ok nodes := by
  rw [readTree_eq_ok_iff (scanFrom_eq_ok_iff.mpr h'), readTree_eq_ok_iff (scanFrom_eq_ok_iff.mpr h),
    alike.wellFormed, alike.terminals]

/-- **Tokenising loses no text, and a tilde trims exactly what it stands beside.**  The lexemes tile
the source, each at its place.  A text is left as its stretch of the source, trimmed at its start if
the lexeme right before it ends with a tilde and at its end if the one right behind it begins with
one; the texts of the tree are those that are left, in order, without the empty ones; and blanks put
right before a tilde that begins a tag or comment, or right behind one that ends it, leave the tree
as it is. -/
theorem scan_faithful {source : List Char} {lexemes : List Lexeme}
    (scanned : Lexeme.scan source = .ok lexemes) :
    Tiles [] source lexemes ∧ lexemes.flatMap Lexeme.span = source ∧
    (∀ before lexeme after, lexemes = before ++ lexeme :: after →
      lexeme.position = .after (before.flatMap Lexeme.span)) ∧
    (∀ before lexeme after, lexemes = before ++ lexeme :: after → lexeme.content = .text →
      controlled false lexemes = controlled false before ++
        .text (trimmed (before.getLast?.any (·.content.trimsAfter))
          (after.head?.any (·.content.trimsBefore)) lexeme.span) :: controlled false after) ∧
    (∀ nodes, readTree source = .ok nodes →
      literals nodes = visibleTexts (controlled false lexemes)) ∧
    ∀ before lexeme after blanks, lexemes = before ++ lexeme :: after →
      Text.allBlank blanks = true →
      (lexeme.content.trimsBefore = true → ∀ nodes,
        readTree (before.flatMap Lexeme.span ++ blanks ++ (lexeme :: after).flatMap Lexeme.span) =
          .ok nodes ↔ readTree source = .ok nodes) ∧
      (lexeme.content.trimsAfter = true → ∀ nodes,
        readTree ((before ++ [lexeme]).flatMap Lexeme.span ++ blanks ++ after.flatMap Lexeme.span) =
          .ok nodes ↔ readTree source = .ok nodes) := by
  have tiles : Tiles [] source lexemes := scanFrom_eq_ok_iff.mp scanned
  refine ⟨tiles, tiles.flatMap_span, ?_, ?_, ?_, ?_⟩
  · rintro before lexeme after rfl
    exact (placed_append.mp tiles.placed).2.1
  · rintro before lexeme after rfl noMarkup
    exact controlled_between noMarkup before after
  · intro nodes read
    have derived := ((readTree_eq_ok_iff scanned).mp read).2
    rw [derived.literals_eq, literals_terminals]
  · rintro before lexeme after blanks rfl blank
    constructor
    · intro trims nodes
      obtain ⟨others, tiles', alike⟩ := tiles.exists_blanks_before trims blank
      rw [List.append_assoc]
      exact readTree_congr tiles tiles' (alike false) nodes
    · intro trims nodes
      obtain ⟨others, tiles', alike⟩ := tiles.exists_blanks_after trims blank
      rw [List.flatMap_append, List.flatMap_singleton, List.append_assoc, List.append_assoc]
      exact readTree_congr tiles tiles' (alike false) nodes

/-- Two texts with a comment between them that trims both. -/
def noted : List Char := "one \n\x7b\x7b~! a note ~\x7d\x7d\u2003two".toList

def notedLexemes : List Lexeme :=
  [textAt 1 "one \n", ⟨⟨2, 1⟩, "\x7b\x7b~! a note ~\x7d\x7d".toList, .comment true true⟩,
    ⟨⟨2, 16⟩, "\u2003two".toList, .text⟩]

theorem scan_faithful_noted :
    readTree noted = .ok [.text "one", .text "two"] ∧
      visibleTexts (controlled false notedLexemes) = ["one", "two"] ∧
      readTree "one \n\t\u3000\x7b\x7b~! a note ~\x7d\x7d\u2003two".toList =
        .ok [.text "one", .text "two"] := by
  have scanned : Lexeme.scan noted = .ok notedLexemes := by decide +kernel
  obtain ⟨-, -, -, texts, literals, blanks⟩ := scan_faithful scanned
  have tokens : controlled false notedLexemes = [.text "one".toList, .text "two".toList] :=
    texts [textAt 1 "one \n", notedLexemes[1]] notedLexemes[2] [] rfl rfl
  have read : readTree noted = .ok [.text "one", .text "two"] := by
    refine (readTree_eq_ok_iff scanned).mpr ⟨by decide +kernel, ?_⟩
    rw [tokens]
    exact .leaf (.text "one") (.leaf (.text "two") .nil)
  refine ⟨read, (literals _ read).symm, ?_⟩
  have same := (blanks [textAt 1 "one \n"] notedLexemes[1] [notedLexemes[2]] "\t\u3000".toList rfl
    (by decide)).1 rfl
  exact (same _).mpr read

end Colloquy.Template
