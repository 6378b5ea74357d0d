import Colloquy.Proofs.Json.Tidy
import Mathlib.Data.List.TakeWhile
import Mathlib.Tactic.Common

/-!
# Inside and outside of strings

A JSON text can be followed character by character with no more than the knowledge whether the place
is inside a string.  Whatever is read is a text that begins and ends outside; between strings there
is no backtick, and inside a string there is no line break.  So a text that is cut at a backtick is
no JSON, whatever values it holds: the cut is inside a string.
-/

namespace Colloquy.Json

/-! ## Places -/

/-- Where a character of a JSON text stands. -/
inductive Place where
  | outside
  | inside
  /-- Inside a string, behind a backslash. -/
  | escaped
  deriving DecidableEq, Repr

/-- The place behind a character; there is none if the character may not stand there. -/
def Place.step? : Place → Char → Option Place
  | outside, c => if c = '"' then some inside else if c = '`' then none else some outside
  | inside, c =>
    if c = '"' then some outside
    else if c = '\\' then some escaped
    else if c = '\n' then none
    else some inside
  | escaped, c => if c = '\n' ∨ c = '`' then none else some inside

/-- The place behind some text. -/
def walk? (place : Place) (s : List Char) : Option Place := s.foldlM Place.step? place

variable {s t : List Char} {p q place : Place} {c : Char}

@[simp] lemma walk?_cons : walk? place (c :: s) = (place.step? c).bind (walk? · s) := rfl

lemma walk?_append : walk? place (s ++ t) = (walk? place s).bind (walk? · t) :=
  List.foldlM_append

/-- Two texts that begin and end outside of strings are one that does. -/
lemma walk?_outside (h : walk? .outside s = some .outside) (h' : walk? .outside t = some .outside) :
    walk? .outside (s ++ t) = some .outside := by
  rw [walk?_append, h]
  exact h'

/-- Only behind a place inside a string does a backtick follow. -/
lemma Place.eq_inside_of_step? (h : (place.step? '`').isSome = true) : place = .inside := by
  cases place with
  | inside => rfl
  | _ => exact absurd h (by decide)

/-- A line break stands outside of strings. -/
lemma Place.eq_outside_of_step? (h : place.step? '\n' = some q) : q = .outside := by
  cases place with
  | outside => exact (Option.some.inj h).symm
  | _ => cases h

/-- Characters that are no quotes and no backticks change nothing between strings. -/
lemma walk?_plain (h : ∀ c ∈ s, c ≠ '"' ∧ c ≠ '`') : walk? .outside s = some .outside := by
  induction s with
  | nil => rfl
  | cons c s ih =>
    obtain ⟨⟨noQuote, noTick⟩, others⟩ := List.forall_mem_cons.mp h
    rw [walk?_cons, Place.step?, if_neg noQuote, if_neg noTick]
    exact ih others

/-- The text up to a rest leads from one place to another. -/
def Leads (p : Place) (s rest : List Char) (q : Place) : Prop :=
  ∃ taken, s = taken ++ rest ∧ walk? p taken = some q

namespace Leads

variable {rest more : List Char} {r : Place}

lemma refl (p : Place) (s : List Char) : Leads p s s p := ⟨[], rfl, rfl⟩

lemma trans (h : Leads p s rest q) (h' : Leads q rest more r) : Leads p s more r := by
  obtain ⟨taken, rfl, hw⟩ := h
  obtain ⟨taken', rfl, hw'⟩ := h'
  exact ⟨taken ++ taken', (List.append_assoc ..).symm, by rw [walk?_append, hw]; exact hw'⟩

lemma cons (hc : p.step? c = some q) (h : Leads q s rest r) : Leads p (c :: s) rest r := by
  obtain ⟨taken, rfl, hw⟩ := h
  exact ⟨c :: taken, rfl, by rw [walk?_cons, hc]; exact hw⟩

end Leads

/-! ## What a reader takes -/

/-- The text is a gap. -/
def IsGap (s : List Char) : Prop := ∀ c ∈ s, isGap c = true

lemma isGap_nil : IsGap [] := List.forall_mem_nil _

lemma gap_ne (h : isGap c = true) : c ≠ '"' ∧ c ≠ '`' := by
  constructor
  all_goals
    rintro rfl
    exact absurd h (by decide)

/-- What is skipped before a mark are gaps. -/
lemma exists_of_nextMark? {r : Rest s} (h : nextMark? s = some (c, r)) :
    ∃ gap, s = gap ++ c :: r.1 ∧ IsGap gap ∧ isGap c = false := by
  induction s with
  | nil => cases h
  | cons d s ih =>
    rw [nextMark?, Rest.next?] at h
    split at h
    · rename_i hd
      obtain ⟨⟨e, r'⟩, hn, he⟩ := Option.map_eq_some_iff.mp h
      obtain ⟨rfl, rfl⟩ := Prod.mk.inj he
      obtain ⟨gap, hs, gaps, mark⟩ := ih hn
      exact ⟨d :: gap, congrArg (d :: ·) hs, List.forall_mem_cons.mpr ⟨hd, gaps⟩, mark⟩
    · rename_i hd
      obtain ⟨rfl, rfl⟩ := Prod.mk.inj (Option.some.inj h)
      exact ⟨[], rfl, isGap_nil, by simpa using hd⟩

lemma isGap_of_nextMark? (h : (nextMark? s).isNone = true) : IsGap s := by
  induction s with
  | nil => exact fun _ hc => absurd hc List.not_mem_nil
  | cons d s ih =>
    rw [nextMark?, Rest.next?] at h
    split at h
    · rename_i hd
      rw [Option.isNone_map] at h
      exact List.forall_mem_cons.mpr ⟨hd, ih h⟩
    · cases h

lemma leads_nextMark? {r : Rest s} (h : nextMark? s = some (c, r)) :
    Leads .outside s (c :: r.1) .outside := by
  obtain ⟨gap, hs, gaps, -⟩ := exists_of_nextMark? h
  exact ⟨gap, hs, walk?_plain fun d hd => gap_ne (gaps d hd)⟩

/-! ### Strings -/

lemma step?_hex {n : Nat} (h : Text.hexValue? c = some n) :
    Place.inside.step? c = some .inside := by
  have digit {d : Char} (hd : Text.hexValue? d = none) : c ≠ d := by
    rintro rfl
    cases hd.symm.trans h
  rw [Place.step?, if_neg (digit (by decide)), if_neg (digit (by decide)),
    if_neg (digit (by decide))]

lemma leads_readUnit {n : Nat} {r : Rest s} (h : readUnit s = some (n, r)) :
    Leads .inside s r.1 .inside := by
  unfold readUnit at h
  split at h
  · rename_i a b c d s
    obtain ⟨digits, hd, he⟩ := Option.bind_eq_some_iff.mp h
    obtain ⟨-, rfl⟩ := Prod.mk.inj (Option.some.inj he)
    simp only [List.mapM_cons, List.mapM_nil, bind, Option.bind_eq_some_iff] at hd
    obtain ⟨_, ha, _, ⟨_, hb, _, ⟨_, hc, _, ⟨_, hd, _⟩, _⟩, _⟩, _⟩ := hd
    exact .cons (step?_hex ha) (.cons (step?_hex hb) (.cons (step?_hex hc)
      (.cons (step?_hex hd) (.refl _ _))))
  · cases h

lemma leads_readPartner {n : Nat} {r : Rest s} (h : readPartner s = some (n, r)) :
    Leads .inside s r.1 .inside := by
  unfold readPartner at h
  split at h
  · obtain ⟨⟨unit, r'⟩, hu, h'⟩ := Option.bind_eq_some_iff.mp h
    dsimp only at h'
    split at h'
    · obtain ⟨-, rfl⟩ := Prod.mk.inj (Option.some.inj h')
      exact .cons rfl (.cons rfl (leads_readUnit hu))
    · cases h'
  · cases h

lemma leads_readEscape {r : Rest s} (h : readEscape s = some (c, r)) :
    Leads .escaped s r.1 .inside := by
  unfold readEscape at h
  split at h
  case h_9 =>
    obtain ⟨⟨unit, r'⟩, hu, h'⟩ := Option.bind_eq_some_iff.mp h
    have first := leads_readUnit hu
    dsimp only at h'
    split at h'
    · obtain ⟨⟨offset, r₁⟩, hp, he⟩ := Option.bind_eq_some_iff.mp h'
      obtain ⟨-, rfl⟩ := Prod.mk.inj (Option.some.inj he)
      exact .cons rfl (first.trans (leads_readPartner hp))
    · split at h'
      · cases h'
      · obtain ⟨-, rfl⟩ := Prod.mk.inj (Option.some.inj h')
        exact .cons rfl first
  case h_10 => cases h
  all_goals
    obtain ⟨-, rfl⟩ := Prod.mk.inj (Option.some.inj h)
    exact .cons rfl (.refl _ _)

/-- A string is read up to its closing quote. -/
lemma leads_readString {cs : List Char} {r : Rest s} (h : readString s = some (cs, r)) :
    Leads .inside s r.1 .outside := by
  fun_induction readString s generalizing cs with
  | case1 => cases h
  | case2 rest =>
    obtain ⟨-, rfl⟩ := Prod.mk.inj (Option.some.inj h)
    exact .cons rfl (.refl _ _)
  | case3 rest ih =>
    obtain ⟨⟨c, r₁⟩, he, h'⟩ := Option.bind_eq_some_iff.mp h
    obtain ⟨⟨cs, r₂⟩, hs, hr⟩ := Option.bind_eq_some_iff.mp h'
    obtain ⟨-, rfl⟩ := Prod.mk.inj (Option.some.inj hr)
    exact .cons rfl ((leads_readEscape he).trans (ih r₁ hs))
  | case4 => cases h
  | case5 c rest noQuote noSlash _ shown =>
    rename_i ih
    obtain ⟨⟨cs, r₁⟩, hs, hr⟩ := Option.bind_eq_some_iff.mp h
    obtain ⟨-, rfl⟩ := Prod.mk.inj (Option.some.inj hr)
    have noBreak : c ≠ '\n' := fun he => shown (by rw [he]; decide)
    have step : Place.inside.step? c = some .inside := by
      rw [Place.step?, if_neg noQuote, if_neg noSlash, if_neg noBreak]
    exact .cons step (ih hs)

/-! ### Words and numbers -/

/-- A character of a word or a number. -/
def isPlain (c : Char) : Bool := c.isAlphanum || c == '+' || c == '-' || c == '.'

lemma isPlain_of_isDigit (h : c.isDigit = true) : isPlain c = true := by
  simp [isPlain, Char.isAlphanum, h]

/-- What is taken up to a rest are characters of words and numbers. -/
def TakesPlain (s rest : List Char) : Prop :=
  ∃ taken, s = taken ++ rest ∧ ∀ c ∈ taken, isPlain c = true

namespace TakesPlain

variable {rest more : List Char}

lemma refl (s : List Char) : TakesPlain s s := ⟨[], rfl, List.forall_mem_nil _⟩

lemma trans (h : TakesPlain s rest) (h' : TakesPlain rest more) : TakesPlain s more := by
  obtain ⟨taken, rfl, hp⟩ := h
  obtain ⟨taken', rfl, hp'⟩ := h'
  exact ⟨taken ++ taken', (List.append_assoc ..).symm, List.forall_mem_append.mpr ⟨hp, hp'⟩⟩

lemma cons (hc : isPlain c = true) (h : TakesPlain s rest) : TakesPlain (c :: s) rest := by
  obtain ⟨taken, rfl, hp⟩ := h
  exact ⟨c :: taken, rfl, List.forall_mem_cons.mpr ⟨hc, hp⟩⟩

lemma of_digits (s : List Char) : TakesPlain s (Numeral.digits s).2 :=
  ⟨_, (Numeral.digits_append s).symm, fun _ hc => isPlain_of_isDigit (List.mem_takeWhile_imp hc)⟩

end TakesPlain

lemma takesPlain_readWord {word : List Char} {value v : Json} {r : Rest s}
    (hw : ∀ c ∈ word, isPlain c = true) (h : readWord word value s = some (v, r)) :
    TakesPlain s r.1 := by
  fun_induction readWord word value s with
  | case2 w s =>
    obtain ⟨-, rfl⟩ := Prod.mk.inj (Option.some.inj h)
    exact .cons (hw w List.mem_cons_self) (.refl _)
  | case4 word w s _ ih =>
    obtain ⟨own, others⟩ := List.forall_mem_cons.mp hw
    obtain ⟨⟨v', r'⟩, h', he⟩ := Option.map_eq_some_iff.mp h
    obtain ⟨rfl, rfl⟩ := Prod.mk.inj he
    exact .cons own (ih others h')
  | _ => cases h

lemma takesPlain_scanWhole {digits rest : List Char}
    (h : Numeral.scanWhole s = some (digits, rest)) : TakesPlain s rest := by
  have all := TakesPlain.of_digits s
  unfold Numeral.scanWhole at h
  split at h
  · cases h
  · cases h
  · rename_i he
    obtain ⟨-, rfl⟩ := Prod.mk.inj (Option.some.inj h)
    rwa [he] at all

lemma takesPlain_scanFraction {fraction : Option (List Char)} {rest : List Char}
    (h : Numeral.scanFraction s = some (fraction, rest)) : TakesPlain s rest := by
  unfold Numeral.scanFraction at h
  split at h
  · rename_i s'
    have all := TakesPlain.of_digits s'
    split at h
    · cases h
    · rename_i he
      obtain ⟨-, rfl⟩ := Prod.mk.inj (Option.some.inj h)
      rw [he] at all
      exact .cons (by decide) all
  · obtain ⟨-, rfl⟩ := Prod.mk.inj (Option.some.inj h)
    exact .refl _

lemma takesPlain_scanSign (s : List Char) : TakesPlain s (Numeral.scanSign s).2 := by
  unfold Numeral.scanSign
  split
  · exact .cons (by decide) (.refl _)
  · exact .cons (by decide) (.refl _)
  · exact .refl _

lemma takesPlain_scanExponent {exponent : Option Int} {rest : List Char}
    (h : Numeral.scanExponent s = some (exponent, rest)) : TakesPlain s rest := by
  unfold Numeral.scanExponent at h
  split at h
  · rename_i c s'
    split at h
    · rename_i hc
      have letter : isPlain c = true := by
        rcases hc with rfl | rfl
        all_goals decide
      have all := (takesPlain_scanSign s').trans (.of_digits _)
      dsimp only at h
      split at h
      · cases h
      · rename_i he
        obtain ⟨-, rfl⟩ := Prod.mk.inj (Option.some.inj h)
        rw [he] at all
        exact .cons letter all
    · obtain ⟨-, rfl⟩ := Prod.mk.inj (Option.some.inj h)
      exact .refl _
  · obtain ⟨-, rfl⟩ := Prod.mk.inj (Option.some.inj h)
    exact .refl _

/-- A numeral whose sign is known. -/
def scanUnsigned (negative : Bool) (s : List Char) : Option (Numeral × List Char) := do
  let (whole, s) ← Numeral.scanWhole s
  let (fraction, s) ← Numeral.scanFraction s
  let (exponent, s) ← Numeral.scanExponent s
  return (⟨negative, whole, fraction, exponent⟩, s)

lemma scan_minus (s : List Char) : Numeral.scan ('-' :: s) = scanUnsigned true s := rfl

lemma scan_of_ne (h : s.head? ≠ some '-') : Numeral.scan s = scanUnsigned false s :=
  Numeral.scan.eq_2 s fun _ hs => h (by rw [hs]; rfl)

lemma exists_of_scanUnsigned {negative : Bool} {n : Numeral} {rest : List Char}
    (h : scanUnsigned negative s = some (n, rest)) :
    ∃ whole fraction exponent r₁ r₂, Numeral.scanWhole s = some (whole, r₁) ∧
      Numeral.scanFraction r₁ = some (fraction, r₂) ∧
      Numeral.scanExponent r₂ = some (exponent, rest) ∧
      n = ⟨negative, whole, fraction, exponent⟩ := by
  obtain ⟨⟨whole, r₁⟩, hw, h⟩ := Option.bind_eq_some_iff.mp h
  obtain ⟨⟨fraction, r₂⟩, hf, h⟩ := Option.bind_eq_some_iff.mp h
  obtain ⟨⟨exponent, r₃⟩, he, h⟩ := Option.bind_eq_some_iff.mp h
  obtain ⟨rfl, rfl⟩ := Prod.mk.inj (Option.some.inj h)
  exact ⟨whole, fraction, exponent, r₁, r₂, hw, hf, he, rfl⟩

lemma takesPlain_scan {n : Numeral} {rest : List Char} (h : Numeral.scan s = some (n, rest)) :
    TakesPlain s rest := by
  have unsigned {s : List Char} {negative : Bool}
      (h : scanUnsigned negative s = some (n, rest)) : TakesPlain s rest := by
    obtain ⟨_, _, _, _, _, hw, hf, he, -⟩ := exists_of_scanUnsigned h
    exact ((takesPlain_scanWhole hw).trans (takesPlain_scanFraction hf)).trans
      (takesPlain_scanExponent he)
  by_cases hs : s.head? = some '-'
  · obtain ⟨t, rfl⟩ := List.head?_eq_some_iff.mp hs
    exact .cons (by decide) (unsigned h)
  · rw [scan_of_ne hs] at h
    exact unsigned h

lemma takesPlain_readPlain {v : Json} {r : Rest s} (h : readPlain s = some (v, r)) :
    TakesPlain s r.1 := by
  have number (h : readNumber s = some (v, r)) : TakesPlain s r.1 := by
    unfold readNumber at h
    split at h
    · rename_i hs
      obtain ⟨x, _, he⟩ := Option.map_eq_some_iff.mp h
      obtain ⟨-, rfl⟩ := Prod.mk.inj he
      exact takesPlain_scan hs
    · cases h
  simp only [readPlain, Option.orElse_eq_orElse, Option.orElse_eq_or, Option.or_eq_some_iff] at h
  have letters {word : List Char} (hw : word.all isPlain = true) : ∀ c ∈ word, isPlain c = true :=
    List.all_eq_true.mp hw
  obtain h | ⟨-, h | ⟨-, h | ⟨-, h⟩⟩⟩ := h
  · exact takesPlain_readWord (letters (by decide)) h
  · exact takesPlain_readWord (letters (by decide)) h
  · exact takesPlain_readWord (letters (by decide)) h
  · exact number h

/-! ### Values -/

lemma Leads.of_takesPlain {rest : List Char} (h : TakesPlain s rest) :
    Leads .outside s rest .outside := by
  obtain ⟨taken, rfl, plain⟩ := h
  refine ⟨taken, rfl, walk?_plain fun c hc => ?_⟩
  have own := plain c hc
  constructor
  all_goals
    rintro rfl
    exact absurd own (by decide)

section

variable {read : (s : List Char) → Option (Json × Rest s)}
  (leads : ∀ s v r, read s = some (v, r) → Leads .outside s r.1 .outside)

include leads

/-- Items are read up to their closing bracket. -/
lemma leads_readItems {items : List Json} {r : Rest s} (h : readItems read s = some (items, r)) :
    Leads .outside s (']' :: r.1) .outside := by
  induction s using readItems.induct generalizing items with
  | _ s ih =>
  rw [readItems] at h
  obtain ⟨⟨item, r₁⟩, hi, h⟩ := Option.bind_eq_some_iff.mp h
  dsimp only at h
  split at h
  · rename_i hn
    obtain ⟨-, rfl⟩ := Prod.mk.inj (Option.some.inj h)
    exact (leads _ _ _ hi).trans (leads_nextMark? hn)
  · rename_i r₂ hn
    obtain ⟨⟨rest, r₃⟩, hr, h⟩ := Option.bind_eq_some_iff.mp h
    obtain ⟨-, rfl⟩ := Prod.mk.inj (Option.some.inj h)
    have comma : Leads .outside (',' :: r₂.1) r₂.1 .outside := .cons rfl (.refl _ _)
    exact (leads _ _ _ hi).trans ((leads_nextMark? hn).trans (comma.trans (ih _ _ hr)))
  · cases h

lemma leads_readMember {m : String × Json} {r : Rest s} (h : readMember read s = some (m, r)) :
    Leads .outside s r.1 .outside := by
  rw [readMember] at h
  obtain ⟨mark, hq, h⟩ := Option.bind_eq_some_iff.mp h
  split at h
  · rename_i r₁
    obtain ⟨⟨key, r₂⟩, hk, h⟩ := Option.bind_eq_some_iff.mp h
    obtain ⟨mark, hc, h⟩ := Option.bind_eq_some_iff.mp h
    split at h
    · rename_i r₃
      obtain ⟨⟨value, r₄⟩, hv, h⟩ := Option.bind_eq_some_iff.mp h
      obtain ⟨-, rfl⟩ := Prod.mk.inj (Option.some.inj h)
      have quote : Leads .outside ('"' :: r₁.1) r₁.1 .inside := .cons rfl (.refl _ _)
      have colon : Leads .outside (':' :: r₃.1) r₃.1 .outside := .cons rfl (.refl _ _)
      have named := (leads_nextMark? hq).trans (quote.trans (leads_readString hk))
      exact named.trans ((leads_nextMark? hc).trans (colon.trans (leads _ _ _ hv)))
    · cases h
  · cases h

/-- So are members. -/
lemma leads_readMembers {members : Fields} {r : Rest s}
    (h : readMembers read s = some (members, r)) : Leads .outside s ('}' :: r.1) .outside := by
  induction s using readMembers.induct generalizing members with
  | _ s ih =>
  rw [readMembers] at h
  obtain ⟨⟨m, r₁⟩, hm, h⟩ := Option.bind_eq_some_iff.mp h
  have first := leads_readMember leads hm
  dsimp only at h
  split at h
  · rename_i hn
    obtain ⟨-, rfl⟩ := Prod.mk.inj (Option.some.inj h)
    exact first.trans (leads_nextMark? hn)
  · rename_i r₂ hn
    obtain ⟨⟨rest, r₃⟩, hr, h⟩ := Option.bind_eq_some_iff.mp h
    obtain ⟨-, rfl⟩ := Prod.mk.inj (Option.some.inj h)
    have comma : Leads .outside (',' :: r₂.1) r₂.1 .outside := .cons rfl (.refl _ _)
    exact first.trans ((leads_nextMark? hn).trans (comma.trans (ih _ _ hr)))
  · cases h

end

/-- An opening bracket of either kind. -/
def isOpening (c : Char) : Bool := c == '{' || c == '['

/-- A closing bracket of either kind. -/
def isClosing (c : Char) : Bool := c == '}' || c == ']'

/-- What a value is read from: a word or a number, a string, or something in brackets. -/
inductive Spelling : List Char → Prop
  | plain {text} (h : ∀ c ∈ text, isPlain c = true) : Spelling text
  | string {text} (h : walk? .inside text = some .outside) : Spelling ('"' :: text)
  | bracketed {text opening closing} (ho : isOpening opening = true)
      (hc : isClosing closing = true) (h : walk? .outside text = some .outside) :
      Spelling (opening :: (text ++ [closing]))

/-- Gaps and a spelling are taken up to a rest. -/
def TakesValue (s rest : List Char) : Prop :=
  ∃ gap text, s = gap ++ (text ++ rest) ∧ IsGap gap ∧ Spelling text

lemma Spelling.walk?_eq (h : Spelling s) : walk? .outside s = some .outside := by
  cases h with
  | plain h =>
    obtain ⟨taken, hs, hw⟩ := Leads.of_takesPlain ⟨s, (List.append_nil s).symm, h⟩
    rwa [hs, List.append_nil]
  | string h => rw [walk?_cons]; exact h
  | @bracketed s opening closing ho hc h =>
    have step {c : Char} (hc : isOpening c = true ∨ isClosing c = true) :
        walk? .outside [c] = some .outside := by
      refine walk?_plain (List.forall_mem_singleton.mpr ⟨?_, ?_⟩)
      all_goals
        rintro rfl
        exact absurd hc (by decide)
    exact walk?_outside (step (.inl ho)) (walk?_outside h (step (.inr hc)))

lemma TakesValue.leads {rest : List Char} (h : TakesValue s rest) :
    Leads .outside s rest .outside := by
  obtain ⟨gap, text, rfl, gaps, spelling⟩ := h
  exact ⟨gap ++ text, (List.append_assoc ..).symm,
    walk?_outside (walk?_plain fun c hc => gap_ne (gaps c hc)) spelling.walk?_eq⟩

lemma TakesValue.bracketed {inner rest gap : List Char} {opening closing : Char}
    (hs : s = gap ++ opening :: inner) (gaps : IsGap gap) (ho : isOpening opening = true)
    (hc : isClosing closing = true)
    (h : Leads .outside inner (closing :: rest) .outside) : TakesValue s rest := by
  obtain ⟨taken, rfl, hw⟩ := h
  exact ⟨gap, opening :: (taken ++ [closing]), by simp [hs], gaps, .bracketed ho hc hw⟩

lemma takesValue_readAround {inside : Option ((s : List Char) → Option (Json × Rest s))}
    (takes : ∀ read ∈ inside, ∀ s v r, read s = some (v, r) → TakesValue s r.1) {v : Json}
    {r : Rest s} (h : readAround inside s = some (v, r)) : TakesValue s r.1 := by
  rw [readAround] at h
  obtain ⟨⟨c, r₁⟩, hn, h⟩ := Option.bind_eq_some_iff.mp h
  obtain ⟨gap, hs, gaps, mark⟩ := exists_of_nextMark? hn
  dsimp only at h
  split at h
  · obtain ⟨⟨cs, r₂⟩, hr, he⟩ := Option.bind_eq_some_iff.mp h
    obtain ⟨-, rfl⟩ := Prod.mk.inj (Option.some.inj he)
    obtain ⟨taken, ht, hw⟩ := leads_readString hr
    exact ⟨gap, '"' :: taken, hs.trans (congrArg (gap ++ '"' :: ·) ht), gaps, .string hw⟩
  · obtain ⟨read, hr, h⟩ := Option.bind_eq_some_iff.mp h
    split at h
    · rename_i hn'
      obtain ⟨-, rfl⟩ := Prod.mk.inj (Option.some.inj h)
      exact .bracketed hs gaps rfl rfl (leads_nextMark? hn')
    · obtain ⟨⟨items, r₂⟩, hi, he⟩ := Option.bind_eq_some_iff.mp h
      obtain ⟨-, rfl⟩ := Prod.mk.inj (Option.some.inj he)
      have leads := leads_readItems (fun s v r h => (takes read hr s v r h).leads) hi
      exact .bracketed hs gaps rfl rfl leads
  · obtain ⟨read, hr, h⟩ := Option.bind_eq_some_iff.mp h
    split at h
    · rename_i hn'
      obtain ⟨-, rfl⟩ := Prod.mk.inj (Option.some.inj h)
      exact .bracketed hs gaps rfl rfl (leads_nextMark? hn')
    · obtain ⟨⟨members, r₂⟩, hm, he⟩ := Option.bind_eq_some_iff.mp h
      obtain ⟨-, rfl⟩ := Prod.mk.inj (Option.some.inj he)
      have leads := leads_readMembers (fun s v r h => (takes read hr s v r h).leads) hm
      exact .bracketed hs gaps rfl rfl leads
  · obtain ⟨⟨value, r₂⟩, hv, he⟩ := Option.bind_eq_some_iff.mp h
    obtain ⟨-, rfl⟩ := Prod.mk.inj (Option.some.inj he)
    obtain ⟨taken, ht, plain⟩ := takesPlain_readPlain hv
    exact ⟨gap, taken, hs.trans (congrArg (gap ++ ·) ht), gaps, .plain plain⟩

lemma takesValue_readValue {depth : Nat} {v : Json} {r : Rest s}
    (h : readValue depth s = some (v, r)) : TakesValue s r.1 := by
  induction depth generalizing s v with
  | zero => exact takesValue_readAround (fun _ hr => (Option.not_mem_none _ hr).elim) h
  | succ depth ih =>
    refine takesValue_readAround (fun read hr s v r h => ?_) h
    obtain rfl := Option.mem_some.mp hr
    exact ih h

/-- **A JSON text is a spelling between gaps.** -/
theorem exists_spelling_of_read? {v : Json} (h : read? s = some v) :
    ∃ gap text gap', s = gap ++ (text ++ gap') ∧ IsGap gap ∧ IsGap gap' ∧ Spelling text := by
  rw [read?] at h
  obtain ⟨⟨value, r⟩, hv, h⟩ := Option.bind_eq_some_iff.mp h
  obtain ⟨gap, text, hs, gaps, spelling⟩ := takesValue_readValue hv
  dsimp only at h
  split at h
  · rename_i hn
    exact ⟨gap, text, r.1, hs, gaps, isGap_of_nextMark? hn, spelling⟩
  · cases h

end Colloquy.Json
