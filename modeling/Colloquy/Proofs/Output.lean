import Colloquy.Loop.Run
import Colloquy.Proofs.Json.RoundTrip
import Colloquy.Proofs.Text
import Colloquy.Proofs.Text.Search

/-!
# The output is found

A model that answers in JSON may put prose around it, and a fence.  As long as the prose has no
brackets, quotes or backticks of its own, the value is found whatever it holds: its strings may have
fences, brackets and line breaks.

The text is searched in three ways, one after the other, and an earlier way must not find anything
else.  The whole text is no JSON if there is prose around the value.  What is between two fences of
which one stands inside a string is none, since a text that ends inside a string is none.  The
stretch between the first and the last bracket is the value itself.
-/

namespace Colloquy.Output

open Json (isOpening isClosing isGap Spelling walk?)

/-- A text without brackets, double quotes and backticks. -/
def Prose (s : List Char) : Prop := ∀ c ∈ s, c ∉ "\x7b\x7d[]\"`".toList

/-- The JSON of a value in brackets, with nothing around it. -/
structure Document (v : Json) (text : List Char) : Prop where
  reads : Json.read? text = some v
  opens : text.head?.any isOpening = true
  closes : text.getLast?.any isClosing = true

/-- A text inside a fence, behind a line that may say what it is. -/
def fenced (info lead text trail : List Char) : List Char :=
  fence ++ info ++ '\n' :: (lead ++ text ++ trail) ++ fence

instance : DecidablePred Prose := List.decidableBAll _

variable {v w : Json} {text front back info lead trail : List Char}

/-! ## Prose -/

namespace Prose

lemma of_subset (h : Prose text) (hs : front ⊆ text) : Prose front := fun c hc => h c (hs hc)

lemma of_allBlank (h : Text.allBlank text = true) : Prose text := by
  intro c hc hm
  have blank : Text.isBlank c = true := List.all_eq_true.mp h c hc
  simp only [String.reduceToList, List.mem_cons, List.not_mem_nil, or_false] at hm
  rcases hm with rfl | rfl | rfl | rfl | rfl | rfl
  all_goals exact absurd blank (by decide)

lemma isOpening_eq (h : Prose text) : ∀ c ∈ text, isOpening c = false := by
  intro c hc
  by_contra ho
  rw [Bool.not_eq_false, isOpening, Bool.or_eq_true, beq_iff_eq, beq_iff_eq] at ho
  rcases ho with rfl | rfl
  all_goals exact h _ hc (by decide)

lemma isClosing_eq (h : Prose text) : ∀ c ∈ text, isClosing c = false := by
  intro c hc
  by_contra ho
  rw [Bool.not_eq_false, isClosing, Bool.or_eq_true, beq_iff_eq, beq_iff_eq] at ho
  rcases ho with rfl | rfl
  all_goals exact h _ hc (by decide)

lemma notMem_backtick (h : Prose text) : '`' ∉ text := fun hc => h _ hc (by decide)

lemma walk?_eq (h : Prose text) : walk? .outside text = some .outside := by
  refine Json.walk?_plain fun c hc => ⟨?_, ?_⟩
  all_goals
    rintro rfl
    exact h _ hc (by decide)

lemma trimStart (h : Prose text) : Prose (Text.trimStart text) :=
  h.of_subset (List.dropWhile_subset _)

lemma trimEnd (h : Prose text) : Prose (Text.trimEnd text) := by
  obtain ⟨blanks, -, he⟩ := Text.exists_trimEnd_append text
  exact h.of_subset fun c hc => he ▸ List.mem_append_left blanks hc

end Prose

/-! ## Brackets -/

lemma isOpening_fence : ∀ c ∈ fence, isOpening c = false := by simp [fence, isOpening]

lemma isClosing_fence : ∀ c ∈ fence, isClosing c = false := by simp [fence, isClosing]

/-- What is before the first opening bracket and behind the last closing one is left out. -/
lemma bracketed?_eq (opens : text.head?.any isOpening = true)
    (closes : text.getLast?.any isClosing = true) (hf : ∀ c ∈ front, isOpening c = false)
    (hb : ∀ c ∈ back, isClosing c = false) : bracketed? (front ++ text ++ back) = some text := by
  obtain ⟨o, rest, rfl⟩ : ∃ o rest, text = o :: rest := List.exists_cons_of_ne_nil (by
    rintro rfl
    cases opens)
  obtain ⟨init, c, hi⟩ : ∃ init c, o :: rest = init ++ [c] :=
    ⟨_, _, (List.dropLast_concat_getLast (List.cons_ne_nil o rest)).symm⟩
  have opening : isOpening o = true := by simpa using opens
  have closing : isClosing c = true := by simpa [hi] using closes
  have first : (front ++ o :: (rest ++ back)).dropWhile (fun c => !isOpening c) =
      o :: (rest ++ back) := by
    rw [List.dropWhile_append_of_pos (by simpa using hf),
      List.dropWhile_cons_of_neg (by simp [opening])]
  have last : (o :: (rest ++ back)).reverse.dropWhile (fun c => !isClosing c) =
      (o :: rest).reverse := by
    rw [← List.cons_append, List.reverse_append, List.dropWhile_append_of_pos (by simpa using hb),
      hi, List.reverse_append, List.reverse_singleton, List.singleton_append,
      List.dropWhile_cons_of_neg (by simp [closing])]
  simp only [isOpening, isClosing] at first last
  rw [List.append_assoc]
  simp only [bracketed?, List.cons_append, first, last]
  split
  · rename_i hn
    simp at hn
  · rw [List.reverse_reverse]

/-! ## Texts that are JSON -/

lemma isBlank_of_isGap {c : Char} (h : isGap c = true) : Text.isBlank c = true := by
  simp only [isGap, Bool.or_eq_true, beq_iff_eq] at h
  rcases h with ((rfl | rfl) | rfl) | rfl
  all_goals decide

lemma walk?_gaps {gap : List Char} (h : Json.IsGap gap) :
    walk? .outside gap = some .outside :=
  (Prose.of_allBlank (List.all_eq_true.mpr fun c hc => isBlank_of_isGap (h c hc))).walk?_eq

/-- A JSON text does not end inside a string. -/
lemma walk?_of_read? (h : Json.read? text = some v) : walk? .outside text = some .outside := by
  obtain ⟨gap, inner, gap', rfl, gaps, gaps', spelling⟩ := Json.exists_spelling_of_read? h
  exact Json.walk?_outside (walk?_gaps gaps)
    (Json.walk?_outside spelling.walk?_eq (walk?_gaps gaps'))

lemma walk?_of_read?_trim (h : Json.read? (Text.trim text) = some v) :
    walk? .outside text = some .outside := by
  obtain ⟨front, back, hf, hb, ht⟩ := Text.exists_trim_append text
  rw [ht]
  exact Json.walk?_outside (Prose.of_allBlank hf).walk?_eq
    (Json.walk?_outside (walk?_of_read? h) (Prose.of_allBlank hb).walk?_eq)

/-- A text without blanks around it that is JSON is all spelling. -/
lemma spelling_of_read?_trim (h : Json.read? (Text.trim text) = some v) :
    Spelling (Text.trim text) := by
  obtain ⟨gap, inner, gap', ht, gaps, gaps', spelling⟩ := Json.exists_spelling_of_read? h
  have first := Text.isBlank_head?_trim text
  have last := Text.isBlank_getLast?_trim text
  rw [ht] at first last ⊢
  have noGap : gap = [] := by
    cases gap with
    | nil => rfl
    | cons c gap =>
      have blank := isBlank_of_isGap (gaps c List.mem_cons_self)
      exact absurd blank (by rw [first c rfl]; exact Bool.false_ne_true)
  have noGap' : gap' = [] := by
    rcases List.eq_nil_or_concat gap' with hg | ⟨init, c, hg⟩
    · exact hg
    · have blank := isBlank_of_isGap (gaps' c (by simp [hg]))
      exact absurd blank (by rw [last c (by simp [hg])]; exact Bool.false_ne_true)
  rwa [noGap, noGap', List.nil_append, List.append_nil]

/-! ## The whole text -/

/-- A spelling with a bracket behind prose is one in brackets. -/
lemma brackets_of_spelling {c : Char} {rest : List Char} (hf : Prose front)
    (opens : isOpening c = true) (h : Spelling (front ++ c :: rest)) :
    (front ++ c :: rest).head?.any isOpening = true ∧
      (front ++ c :: rest).getLast?.any isClosing = true := by
  generalize ht : front ++ c :: rest = whole at h ⊢
  cases h with
  | plain h =>
    have plain := h c (by simp [← ht])
    rw [isOpening, Bool.or_eq_true, beq_iff_eq, beq_iff_eq] at opens
    rcases opens with rfl | rfl
    all_goals exact absurd plain (by decide)
  | string h =>
    cases front with
    | nil =>
      obtain ⟨rfl, -⟩ := List.cons.inj ht
      exact absurd opens (by decide)
    | cons d front =>
      obtain ⟨rfl, -⟩ := List.cons.inj ht
      exact absurd (by decide) (hf '"' List.mem_cons_self)
  | bracketed ho hc _ =>
    rw [← List.cons_append, List.getLast?_concat]
    exact ⟨ho, hc⟩

namespace Document

lemma exists_opening (d : Document v text) :
    ∃ c rest, text = c :: rest ∧ isOpening c = true := by
  have opens := d.opens
  cases text with
  | nil => cases opens
  | cons c rest => exact ⟨c, rest, rfl, by simpa using opens⟩

lemma visible {c : Char} (h : isOpening c = true ∨ isClosing c = true) :
    Text.isBlank c = false := by
  simp only [isOpening, isClosing, Bool.or_eq_true, beq_iff_eq] at h
  rcases h with (rfl | rfl) | (rfl | rfl)
  all_goals decide

lemma trim_eq (d : Document v text) (front back : List Char) :
    Text.trim (front ++ text ++ back) = Text.trimStart front ++ text ++ Text.trimEnd back := by
  have shown {o : Option Char} {p : Char → Bool} (h : o.any p = true)
      (hp : ∀ c, p c = true → Text.isBlank c = false) : o.any (!Text.isBlank ·) = true := by
    cases o with
    | none => cases h
    | some c => simpa using hp c (by simpa using h)
  exact Text.trim_append_append (shown d.opens fun c hc => visible (.inl hc))
    (shown d.closes fun c hc => visible (.inr hc))

lemma walk?_between (d : Document v text) (hf : Prose front) (hb : Prose back) :
    walk? .outside (front ++ text ++ back) = some .outside :=
  Json.walk?_outside (Json.walk?_outside hf.walk?_eq (walk?_of_read? d.reads)) hb.walk?_eq

lemma bracketed?_eq (d : Document v text) (hf : Prose front) (hb : Prose back) :
    bracketed? (front ++ text ++ back) = some text :=
  Output.bracketed?_eq d.opens d.closes hf.isOpening_eq hb.isClosing_eq

/-- The whole text is JSON only if there is nothing but blanks around the document. -/
lemma eq_of_read?_trim (d : Document v text) (hf : Prose front) (hb : Prose back)
    (h : Json.read? (Text.trim (front ++ text ++ back)) = some w) : w = v := by
  have spelling := spelling_of_read?_trim h
  rw [d.trim_eq] at h spelling
  generalize hw : Text.trimStart front ++ text ++ Text.trimEnd back = whole at h spelling
  have same : whole = text := by
    obtain ⟨c, rest, rfl, opens⟩ := d.exists_opening
    have apart : whole = Text.trimStart front ++ c :: (rest ++ Text.trimEnd back) := by
      rw [← hw, List.append_assoc, List.cons_append]
    obtain ⟨first, last⟩ := brackets_of_spelling hf.trimStart opens (apart ▸ spelling)
    rw [← apart] at first last
    have all : bracketed? ([] ++ whole ++ []) = some whole :=
      Output.bracketed?_eq first last (List.forall_mem_nil _) (List.forall_mem_nil _)
    have found := d.bracketed?_eq hf.trimStart hb.trimEnd
    rw [hw] at found
    rw [List.nil_append, List.append_nil, found] at all
    exact (Option.some.inj all).symm
  rw [same, d.reads] at h
  exact (Option.some.inj h).symm

end Document

/-- A text with a fence behind prose is no JSON. -/
lemma not_read?_of_fence {rest : List Char} (hf : Prose front) :
    Json.read? (front ++ fence ++ rest) ≠ some w := by
  intro h
  have walked := walk?_of_read? h
  rw [List.append_assoc, Json.walk?_append, hf.walk?_eq] at walked
  cases walked

/-! ## Between fences -/

lemma exists_of_fencedBody? {body : List Char} (h : fencedBody? text = some body) :
    ∃ before info after, text = before ++ fence ++ (info ++ '\n' :: (body ++ fence ++ after)) := by
  obtain ⟨⟨before, rest⟩, hc, h⟩ := Option.bind_eq_some_iff.mp h
  obtain ⟨⟨info, rest'⟩, hn, h⟩ := Option.bind_eq_some_iff.mp h
  obtain ⟨⟨inside, after⟩, hc', h⟩ := Option.bind_eq_some_iff.mp h
  obtain rfl := Option.some.inj h
  obtain ⟨c, hb, hr⟩ := Text.eq_append_of_cutAt? hn
  obtain rfl : c = '\n' := by simpa using hb
  exact ⟨before, info, after, by
    rw [Text.eq_append_of_cut? hc, hr, Text.eq_append_of_cut? hc']⟩

/-- A text that is cut at a fence after a line break is cut inside a string, if all of it can be
followed. -/
lemma walk?_of_fence {place q : Json.Place} {body after : List Char}
    (h : walk? place (front ++ '\n' :: (body ++ fence ++ after)) = some q) :
    walk? .outside body = some .inside := by
  rw [Json.walk?_append] at h
  obtain ⟨p, -, h⟩ := Option.bind_eq_some_iff.mp h
  obtain ⟨r, hr, h⟩ := Option.bind_eq_some_iff.mp h
  obtain rfl := Json.Place.eq_outside_of_step? hr
  change walk? .outside _ = _ at h
  rw [List.append_assoc, Json.walk?_append] at h
  obtain ⟨r, hb, h⟩ := Option.bind_eq_some_iff.mp h
  obtain ⟨r', hr', -⟩ := Option.bind_eq_some_iff.mp h
  rwa [Json.Place.eq_inside_of_step? (Option.isSome_of_eq_some hr')] at hb

/-- Without a fence around it, no fenced part of a document is JSON. -/
lemma not_read?_fencedBody {q : Json.Place} {body : List Char}
    (hw : walk? .outside text = some q) (h : fencedBody? text = some body) :
    Json.read? (Text.trim body) ≠ some w := by
  intro hr
  obtain ⟨before, info, after, ht⟩ := exists_of_fencedBody? h
  rw [ht, ← List.append_assoc (before ++ fence)] at hw
  cases (walk?_of_fence hw).symm.trans (walk?_of_read?_trim hr)

/-- A fence that is found outside of strings comes first. -/
lemma eq_of_append_fence {after after' : List Char} (h : walk? .outside text = some .outside)
    (h' : walk? .outside front = some .outside)
    (he : text ++ fence ++ after = front ++ fence ++ after') : text = front := by
  have stuck {s t rest rest' : List Char} (h : walk? .outside (s ++ t) = some .outside)
      (h' : walk? .outside s = some .outside) (he : fence ++ rest = t ++ rest') : t = [] := by
    cases t with
    | nil => rfl
    | cons c t =>
      obtain ⟨rfl, -⟩ := List.cons.inj he
      rw [Json.walk?_append, h'] at h
      cases h
  rw [List.append_assoc, List.append_assoc] at he
  rcases List.append_eq_append_iff.mp he with ⟨t, rfl, ht⟩ | ⟨t, rfl, ht⟩
  · rw [stuck h' h ht, List.append_nil]
  · rw [stuck h h' ht, List.append_nil]

lemma fencedBody?_eq {rest : List Char} (hf : '`' ∉ front) (noBreak : '\n' ∉ info) :
    fencedBody? (front ++ fence ++ (info ++ '\n' :: rest)) =
      (Text.cut? fence rest).map Prod.fst := by
  have lacks : Text.Lacks fence front := by
    intro hi
    have beyond := Text.infix_of_append (fun c hc hm => hf (by simp_all [fence])) hi
    exact absurd beyond.length_le (by decide)
  rw [fencedBody?, lacks.cut? (by decide)]
  simp only [bind, Option.bind_some, Text.cutAt?_append_cons noBreak]
  cases Text.cut? fence rest <;> rfl

lemma append_fenced (front info lead text trail back : List Char) :
    front ++ fenced info lead text trail ++ back =
      front ++ fence ++ (info ++ '\n' :: (lead ++ text ++ trail ++ fence ++ back)) := by
  simp [fenced]

/-- Inside its fence, a document is the only fenced part that is JSON. -/
lemma Document.eq_of_fencedBody? {body : List Char} (d : Document v text) (hf : Prose front)
    (noBreak : '\n' ∉ info) (hl : Text.allBlank lead = true) (ht : Text.allBlank trail = true)
    (h : fencedBody? (front ++ fenced info lead text trail ++ back) = some body)
    (hr : Json.read? (Text.trim body) = some w) : w = v := by
  rw [append_fenced, fencedBody?_eq hf.notMem_backtick noBreak] at h
  obtain ⟨⟨body, rest⟩, hc, rfl⟩ := Option.map_eq_some_iff.mp h
  have walked := d.walk?_between (.of_allBlank hl) (.of_allBlank ht)
  obtain rfl := eq_of_append_fence walked (walk?_of_read?_trim hr) (Text.eq_append_of_cut? hc)
  exact d.eq_of_read?_trim (.of_allBlank hl) (.of_allBlank ht) hr

/-! ## The three ways together -/

lemma orElse_eq {a b c : Option Json} (ha : ∀ w, a = some w → w = v) (hb : ∀ w, b = some w → w = v)
    (hc : c = some v) : (a <|> b <|> c) = some v := by
  cases a with
  | some w => rw [ha w rfl]; rfl
  | none =>
    cases b with
    | some w => rw [hb w rfl]; rfl
    | none => exact hc

/-- A document is found between prose. -/
theorem Document.find?_eq (d : Document v text) (hf : Prose front) (hb : Prose back) :
    find? (front ++ text ++ back) = some v := by
  refine orElse_eq (fun w hw => d.eq_of_read?_trim hf hb hw) (fun w hw => ?_) ?_
  · obtain ⟨body, hbody, hr⟩ := Option.bind_eq_some_iff.mp hw
    rw [d.trim_eq] at hbody
    exact absurd hr (not_read?_fencedBody (d.walk?_between hf.trimStart hb.trimEnd) hbody)
  · rw [d.trim_eq, d.bracketed?_eq hf.trimStart hb.trimEnd]
    exact d.reads

/-- A document is found in a fence between prose. -/
theorem Document.find?_fenced (d : Document v text) (hf : Prose front) (hb : Prose back)
    (hi : Prose info) (noBreak : '\n' ∉ info) (hl : Text.allBlank lead = true)
    (ht : Text.allBlank trail = true) :
    find? (front ++ fenced info lead text trail ++ back) = some v := by
  have trimmed : Text.trim (front ++ fenced info lead text trail ++ back) =
      Text.trimStart front ++ fenced info lead text trail ++ Text.trimEnd back := by
    refine Text.trim_append_append ?_ ?_
    · rfl
    · have last : (fenced info lead text trail).getLast? = some '`' := by
        rw [fenced, List.getLast?_append]
        rfl
      rw [last]
      rfl
  refine orElse_eq (fun w hw => ?_) (fun w hw => ?_) ?_
  · rw [trimmed, append_fenced] at hw
    exact absurd hw (not_read?_of_fence hf.trimStart)
  · obtain ⟨body, hbody, hr⟩ := Option.bind_eq_some_iff.mp hw
    rw [trimmed] at hbody
    exact d.eq_of_fencedBody? hf.trimStart noBreak hl ht hbody hr
  · have shape : Text.trimStart front ++ fenced info lead text trail ++ Text.trimEnd back =
        Text.trimStart front ++ fence ++ info ++ '\n' :: lead ++ text ++
          (trail ++ fence ++ Text.trimEnd back) := by
      simp [fenced]
    have opens : ∀ c ∈ Text.trimStart front ++ fence ++ info ++ '\n' :: lead,
        isOpening c = false := by
      simp only [List.forall_mem_append, List.forall_mem_cons]
      exact ⟨⟨⟨hf.trimStart.isOpening_eq, isOpening_fence⟩, hi.isOpening_eq⟩, by decide,
        (Prose.of_allBlank hl).isOpening_eq⟩
    have closes : ∀ c ∈ trail ++ fence ++ Text.trimEnd back, isClosing c = false := by
      simp only [List.forall_mem_append]
      exact ⟨⟨(Prose.of_allBlank ht).isClosing_eq, isClosing_fence⟩, hb.trimEnd.isClosing_eq⟩
    rw [trimmed, shape, Output.bracketed?_eq d.opens d.closes opens closes]
    exact d.reads

/-! ## What is printed -/

/-- An array or an object. -/
def Compound : Json → Prop
  | .arr _ => True
  | .obj _ => True
  | _ => False

/-- The text of an array or an object is a document. -/
lemma Document.of_print {style : Json.Style} (g : style.Gapped) (hc : Compound v)
    (hd : v.depth ≤ Json.maxDepth) (ht : v.Tidy) (hl : v.Legible) (level : Nat) :
    Document v (Json.print style level v) where
  reads := Json.read?_print g hd ht hl level
  opens := by
    cases v with
    | arr items => cases items <;> rfl
    | obj fields =>
      rcases fields with _ | ⟨m, fields⟩
      · rfl
      · rfl
    | _ => exact hc.elim
  closes := by
    cases v with
    | arr items =>
      cases items with
      | nil => rfl
      | cons item items =>
        rw [Json.print, List.getLast?_concat]
        rfl
    | obj fields =>
      rcases fields with _ | ⟨⟨key, value⟩, fields⟩
      · rfl
      · rw [Json.print, List.getLast?_concat]
        rfl
    | _ => exact hc.elim

/-! ## Parts of the text -/

lemma trim_isInfix (text : List Char) : Text.trim text <:+: text := by
  obtain ⟨front, back, -, -, ht⟩ := Text.exists_trim_append text
  exact ⟨front, back, by rw [List.append_assoc]; exact ht.symm⟩

lemma fencedBody?_isInfix {body : List Char} (h : fencedBody? text = some body) :
    body <:+: text := by
  obtain ⟨before, info, after, ht⟩ := exists_of_fencedBody? h
  exact ⟨before ++ fence ++ info ++ ['\n'], fence ++ after, by rw [ht]; simp⟩

lemma bracketed?_isInfix {part : List Char} (h : bracketed? text = some part) :
    part <:+: text := by
  simp only [bracketed?] at h
  split at h
  · cases h
  · split at h
    · cases h
    · obtain rfl := Option.some.inj h
      have stretch := List.reverse_prefix.mpr (List.dropWhile_suffix
        (fun c => !(c == '}' || c == ']'))
        (l := (text.dropWhile fun c => !(c == '{' || c == '[')).reverse))
      rw [List.reverse_reverse] at stretch
      exact stretch.isInfix.trans (List.dropWhile_suffix _).isInfix

/-- What is found is read off a part of the text. -/
theorem exists_part_of_find? (h : find? text = some w) :
    ∃ part, part <:+: text ∧ Json.read? part = some w := by
  have trimmed := trim_isInfix text
  simp only [find?, Option.orElse_eq_orElse, Option.orElse_eq_or, Option.or_eq_some_iff,
    Option.bind_eq_some_iff] at h
  obtain h | ⟨-, ⟨body, hb, h⟩ | ⟨-, part, hp, h⟩⟩ := h
  · exact ⟨_, trimmed, h⟩
  · exact ⟨_, (trim_isInfix body).trans ((fencedBody?_isInfix hb).trans trimmed), h⟩
  · exact ⟨part, (bracketed?_isInfix hp).trans trimmed, h⟩

/-- An output is found in the text and accepted by the schema. -/
lemma found_of_read {schema : Option Json} {text : String} (h : read schema text = .ok w) :
    find? text.toList = some w ∧ ∀ s ∈ schema, JsonSchema.accepts s w = true := by
  rw [read] at h
  split at h
  · cases h
  · rename_i value found
    cases schema with
    | none =>
      obtain rfl := Except.ok.inj h
      exact ⟨found, fun s hs => absurd hs (Option.not_mem_none s)⟩
    | some schema =>
      dsimp only at h
      split at h
      · rename_i empty
        obtain rfl := Except.ok.inj h
        refine ⟨found, fun s hs => ?_⟩
        obtain rfl := Option.some.inj hs
        rw [JsonSchema.accepts, empty]
        rfl
      · cases h

/-- **The output of a model is found in prose and in a fence**, whatever its strings hold, and the
output of a run is always read off a part of its text and accepted by the output schema. -/
theorem output_found :
    (∀ (style : Json.Style) (v : Json) (front back : List Char),
      style = .compact ∨ (∃ width, style = .indented width) → Compound v →
      v.depth ≤ 127 → v.Tidy → v.Legible → Prose front → Prose back →
      find? (front ++ Json.print style 0 v ++ back) = some v ∧
        ∀ info lead trail, Prose info → '\n' ∉ info → Text.allBlank lead = true →
          Text.allBlank trail = true →
          find? (front ++ fenced info lead (Json.print style 0 v) trail ++ back) = some v) ∧
    ∀ (r : Response) (w : Json), r.output = .ok w →
      (∃ part, part <:+: r.text.toList ∧ Json.read? part = some w) ∧
        ∀ schema ∈ r.request.outputSchema, JsonSchema.accepts schema w = true := by
  constructor
  · intro style v front back hs compound shallow tidy legible hf hb
    have gapped : style.Gapped := by
      obtain rfl | ⟨width, rfl⟩ := hs
      · exact Json.Style.gapped_compact
      · exact Json.Style.gapped_indented width
    have document := Document.of_print gapped compound shallow tidy legible 0
    refine ⟨document.find?_eq hf hb, fun info lead trail hi noBreak hl ht => ?_⟩
    exact document.find?_fenced hf hb hi noBreak hl ht
  · intro r w h
    obtain ⟨found, accepted⟩ := found_of_read h
    exact ⟨exists_part_of_find? found, accepted⟩

/-- An object whose keys and strings look like fences and brackets. -/
def awkward : Json :=
  .obj [("```", .arr [.str "\x7d\n```\n[", .num (.int (-1))]), ("\"", .obj [])]

/-- A run that ended with a text. -/
def answering (text : List Char) (schema : Json) : Response where
  message := .ofText .model (String.ofList text)
  finishReason := .stop
  state := .done
  interrupts := []
  messages := []
  usage := {}
  turns := 1
  request := { outputSchema := some schema }

theorem output_found_awkward :
    let schema : Json := .obj [("type", .str "object"), ("required", .arr [.str "```"])]
    let text := "Here:\n".toList ++
      fenced "json".toList [] (Json.print (.indented 2) 0 awkward) ['\n'] ++ "\nok.".toList
    find? ("Here: ".toList ++ Json.print .compact 0 awkward ++ " ok.".toList) = some awkward ∧
      find? text = some awkward ∧ (answering text schema).output = .ok awkward ∧
      JsonSchema.accepts schema awkward = true := by
  intro schema text
  have tidy : awkward.Tidy :=
    ⟨by decide, ⟨trivial, trivial, trivial⟩, ⟨by decide, trivial⟩, trivial⟩
  have legible : awkward.Legible :=
    ⟨⟨trivial, Json.read?_int (by decide) (by decide), trivial⟩, trivial, trivial⟩
  have plain := output_found.1 .compact awkward "Here: ".toList " ok.".toList (.inl rfl) trivial
    (by decide) tidy legible (by decide) (by decide)
  have indented := output_found.1 (.indented 2) awkward "Here:\n".toList "\nok.".toList
    (.inr ⟨2, rfl⟩) trivial (by decide) tidy legible (by decide) (by decide)
  have found : find? text = some awkward :=
    indented.2 "json".toList [] ['\n'] (by decide) (by decide) rfl rfl
  have answered : (answering text schema).output = .ok awkward := by
    have said : (answering text schema).text.toList = text := by
      simp [answering, Response.text, Message.text, Message.ofText, Part.text?]
    have fits : JsonSchema.violations schema awkward = [] :=
      List.isEmpty_iff.mp (by decide +kernel : JsonSchema.accepts schema awkward = true)
    rw [Response.output, read, said, found]
    simp only [answering, fits]
  exact ⟨plain.1, found, answered, (output_found.2 _ _ answered).2 schema rfl⟩

end Colloquy.Output
