import Colloquy.Proofs.Json.Numerals

/-!
# What is written is read back

The text of a value is read as the value, in every style that puts only gaps between the parts, as
long as the value is nested no deeper than is read and no object in it has a key twice.

Numbers are left to a condition of their own, which an integer within sixty-four bits meets.  A
double is read in double precision step by step, so that its last bit may come out another.
-/

namespace Colloquy.Json

/-! ## What a value is made of -/

mutual

/-- The number of arrays and objects around each other. -/
def depth : Json → Nat
  | .arr items => depthItems items + 1
  | .obj fields => depthFields fields + 1
  | _ => 0
termination_by structural v => v

def depthItems : List Json → Nat
  | [] => 0
  | item :: rest => max (depth item) (depthItems rest)
termination_by structural items => items

def depthFields : List (String × Json) → Nat
  | [] => 0
  | (_, value) :: rest => max (depth value) (depthFields rest)
termination_by structural fields => fields

end

mutual

/-- Each number of the value is read as itself from its text. -/
def Legible : Json → Prop
  | .num n => Numeral.read? (numberText n) = some n
  | .arr items => LegibleItems items
  | .obj fields => LegibleFields fields
  | _ => True
termination_by structural v => v

def LegibleItems : List Json → Prop
  | [] => True
  | item :: rest => Legible item ∧ LegibleItems rest
termination_by structural items => items

def LegibleFields : List (String × Json) → Prop
  | [] => True
  | (_, value) :: rest => Legible value ∧ LegibleFields rest
termination_by structural fields => fields

end

/-! ## Readings -/

/-- A reader takes a value off a text and leaves a rest. -/
def Reads {α : Type} (read : (s : List Char) → Option (α × Rest s)) (s : List Char) (a : α)
    (rest : List Char) : Prop :=
  ∃ h, read s = some (a, ⟨rest, h⟩)

variable {s t gap rest : List Char} {c : Char}

lemma reads_nextMark? (hg : IsGap gap) (hc : isGap c = false) (rest : List Char) :
    Reads nextMark? (gap ++ c :: rest) c rest := by
  induction gap with
  | nil =>
    refine ⟨Nat.lt_succ_self _, ?_⟩
    change Rest.next? isGap (c :: rest) = _
    rw [Rest.next?, hc]
    rfl
  | cons d gap ih =>
    obtain ⟨own, others⟩ := List.forall_mem_cons.mp hg
    obtain ⟨h, hn⟩ := ih others
    refine ⟨Nat.lt_succ_of_lt h, ?_⟩
    change Rest.next? isGap (gap ++ c :: rest) = _ at hn
    change Rest.next? isGap (d :: (gap ++ c :: rest)) = _
    rw [Rest.next?, if_pos own, hn]
    rfl

/-- A mark without a gap before it. -/
lemma reads_mark (hc : isGap c = false) (rest : List Char) : Reads nextMark? (c :: rest) c rest :=
  reads_nextMark? isGap_nil hc rest

/-! ### Strings -/

lemma reads_escape {cs : List Char} (he : Reads readEscape s c t)
    (hs : Reads readString t cs rest) : Reads readString ('\\' :: s) (c :: cs) rest := by
  obtain ⟨h, he⟩ := he
  obtain ⟨h', hs⟩ := hs
  refine ⟨Nat.lt_succ_of_lt (Nat.lt_trans h' h), ?_⟩
  rw [readString]
  simp only [he, hs, bind, Option.bind_some]
  rfl

lemma reads_shown {cs : List Char} (hq : c ≠ '"') (hb : c ≠ '\\') (hc : ¬ c.toNat < 0x20)
    (hs : Reads readString t cs rest) : Reads readString (c :: t) (c :: cs) rest := by
  obtain ⟨h, hs⟩ := hs
  refine ⟨Nat.lt_succ_of_lt h, ?_⟩
  rw [readString]
  · simp only [if_neg hc, hs, bind, Option.bind_some]
    rfl
  · exact hq
  · exact hb

lemma hexValue?_hexDigit : ∀ n < 16, Text.hexValue? (hexDigit n) = some n := by
  decide

/-- A control character without an escape of its own is read from its number. -/
lemma reads_unicode (h : c.toNat < 0x20) (t : List Char) :
    Reads readEscape
      ('u' :: '0' :: '0' :: hexDigit (c.toNat / 16) :: hexDigit (c.toNat % 16) :: t) c t := by
  have digits : ['0', '0', hexDigit (c.toNat / 16), hexDigit (c.toNat % 16)].mapM Text.hexValue? =
      some [0, 0, c.toNat / 16, c.toNat % 16] := by
    have zero : Text.hexValue? '0' = some 0 := by decide
    have high := hexValue?_hexDigit (c.toNat / 16) (by omega)
    have low := hexValue?_hexDigit (c.toNat % 16) (by omega)
    simp only [List.mapM_cons, List.mapM_nil, zero, high, low, bind, Option.bind_some, pure]
  have unit : [0, 0, c.toNat / 16, c.toNat % 16].foldl (fun n digit => 16 * n + digit) 0 =
      c.toNat := by
    simp only [List.foldl_cons, List.foldl_nil]
    omega
  refine ⟨by simp only [List.length_cons]; omega, ?_⟩
  simp only [readEscape, readUnit, digits, bind, Option.bind_some, pure, unit]
  rw [if_neg (by omega), if_neg (by omega), Char.ofNat_toNat]
  rfl

/-- An escape is read as the character that it stands for. -/
lemma reads_escaped (c : Char) {cs : List Char} (hs : Reads readString t cs rest) :
    Reads readString (escaped c ++ t) (c :: cs) rest := by
  rw [escaped]
  split_ifs with hq hb hc hn hr ht h8 hf
  · subst hq
    exact reads_escape ⟨Nat.lt_succ_self _, rfl⟩ hs
  · subst hb
    exact reads_escape ⟨Nat.lt_succ_self _, rfl⟩ hs
  · subst hn
    exact reads_escape ⟨Nat.lt_succ_self _, rfl⟩ hs
  · subst hr
    exact reads_escape ⟨Nat.lt_succ_self _, rfl⟩ hs
  · subst ht
    exact reads_escape ⟨Nat.lt_succ_self _, rfl⟩ hs
  · obtain rfl : c = '\x08' := Char.toNat_inj.mp h8
    exact reads_escape ⟨Nat.lt_succ_self _, rfl⟩ hs
  · obtain rfl : c = '\x0c' := Char.toNat_inj.mp hf
    exact reads_escape ⟨Nat.lt_succ_self _, rfl⟩ hs
  · exact reads_escape (reads_unicode hc t) hs
  · exact reads_shown hq hb hc hs

/-- A string is read up to its closing quote. -/
lemma reads_string (cs rest : List Char) :
    Reads readString (cs.flatMap escaped ++ '"' :: rest) cs rest := by
  induction cs with
  | nil =>
    refine ⟨Nat.lt_succ_self _, ?_⟩
    change readString ('"' :: rest) = _
    rw [readString]
    rfl
  | cons c cs ih =>
    rw [List.flatMap_cons, List.append_assoc]
    exact reads_escaped c ih

/-! ### Words and numbers -/

lemma reads_word {word : List Char} (hw : word ≠ []) (v : Json) (rest : List Char) :
    Reads (readWord word v) (word ++ rest) v rest := by
  induction word with
  | nil => exact absurd rfl hw
  | cons w word ih =>
    cases word with
    | nil =>
      refine ⟨Nat.lt_succ_self _, ?_⟩
      change readWord [w] v (w :: rest) = _
      rw [readWord, if_pos rfl]
      rfl
    | cons w' word =>
      obtain ⟨h, hr⟩ := ih (List.cons_ne_nil _ _)
      refine ⟨Nat.lt_succ_of_lt h, ?_⟩
      change readWord (w :: w' :: word) v (w :: (w' :: word ++ rest)) = _
      rw [readWord, if_pos rfl, hr]
      · rfl
      · exact List.cons_ne_nil _ _

lemma readWord_ne {w c : Char} (h : w ≠ c) (word : List Char) (v : Json) (s : List Char) :
    readWord (w :: word) v (c :: s) = none := by
  cases word with
  | nil => rw [readWord, if_neg h]
  | cons =>
    rw [readWord, if_neg h]
    exact List.cons_ne_nil _ _

lemma reads_first {α : Type} {first second : (s : List Char) → Option (α × Rest s)} {a : α}
    (h : Reads first s a rest) : Reads (fun s => first s <|> second s) s a rest := by
  obtain ⟨h, hr⟩ := h
  exact ⟨h, by simp only [hr]; rfl⟩

lemma reads_second {α : Type} {first second : (s : List Char) → Option (α × Rest s)} {a : α}
    (h : first s = none) (hr : Reads second s a rest) :
    Reads (fun s => first s <|> second s) s a rest := by
  obtain ⟨hl, hr⟩ := hr
  exact ⟨hl, by simp only [h, hr]; rfl⟩

lemma reads_null (rest : List Char) : Reads readPlain ("null".toList ++ rest) null rest :=
  reads_first (reads_word (by decide) null rest)

lemma reads_true (rest : List Char) : Reads readPlain ("true".toList ++ rest) (bool true) rest :=
  reads_second (readWord_ne (by decide) _ _ _)
    (reads_first (reads_word (by decide) (bool true) rest))

lemma reads_false (rest : List Char) :
    Reads readPlain ("false".toList ++ rest) (bool false) rest :=
  reads_second (readWord_ne (by decide) _ _ _) (reads_second (readWord_ne (by decide) _ _ _)
    (reads_first (reads_word (by decide) (bool false) rest)))

/-- A number is read as itself wherever its numeral ends. -/
lemma reads_number {n : Number} {text : List Char} (hn : Numeral.read? text = some n)
    (he : Ends rest) : Reads readPlain (text ++ rest) (.num n) rest := by
  obtain ⟨m, hs, hv⟩ := exists_scan_of_read? hn
  obtain ⟨c, more, rfl, hc⟩ := exists_of_scan hs
  have noWord {w : Char} (hw : w.isDigit = false ∧ w ≠ '-') : w ≠ c := by
    rintro rfl
    rcases hc with hc | hc
    · exact absurd hw.1 (by rw [hc]; decide)
    · exact hw.2 hc
  have scanned : Numeral.scan (c :: (more ++ rest)) = some (m, rest) := scan_append he hs
  have number : Reads readNumber (c :: (more ++ rest)) (.num n) rest := by
    refine ⟨Numeral.length_of_scan scanned, ?_⟩
    rw [readNumber]
    split
    · rename_i hs'
      obtain ⟨rfl, rfl⟩ := Prod.mk.inj (Option.some.inj (scanned.symm.trans hs'))
      rw [hv]
      rfl
    · rename_i hs'
      cases scanned.symm.trans hs'
  exact reads_second (readWord_ne (noWord (by decide)) _ _ _)
    (reads_second (readWord_ne (noWord (by decide)) _ _ _)
      (reads_second (readWord_ne (noWord (by decide)) _ _ _) number))

/-! ### Values in brackets -/

section Brackets

variable {read : (s : List Char) → Option (Json × Rest s)} {inside : Option ((s : List Char) →
  Option (Json × Rest s))} {u : List Char} {item value : Json} {items : List Json}
  {key : List Char} {m : String × Json} {members : Fields}

lemma reads_last_item (hi : Reads read s item t) (hn : Reads nextMark? t ']' rest) :
    Reads (readItems read) s [item] rest := by
  obtain ⟨h, hi⟩ := hi
  obtain ⟨h', hn⟩ := hn
  refine ⟨Nat.lt_trans h' h, ?_⟩
  rw [readItems]
  simp only [hi, hn, bind, Option.bind_some]
  rfl

lemma reads_next_item (hi : Reads read s item t) (hn : Reads nextMark? t ',' u)
    (hr : Reads (readItems read) u items rest) : Reads (readItems read) s (item :: items) rest := by
  obtain ⟨h, hi⟩ := hi
  obtain ⟨h', hn⟩ := hn
  obtain ⟨h'', hr⟩ := hr
  refine ⟨Nat.lt_trans h'' (Nat.lt_trans h' h), ?_⟩
  rw [readItems]
  simp only [hi, hn, bind, Option.bind_some, Rest.trans, Rest.weaken, hr]
  rfl

lemma reads_member {s₁ s₂ s₃ : List Char} (hq : Reads nextMark? s '"' s₁)
    (hk : Reads readString s₁ key s₂) (hc : Reads nextMark? s₂ ':' s₃)
    (hv : Reads read s₃ value rest) :
    Reads (readMember read) s (String.ofList key, value) rest := by
  obtain ⟨h₁, hq⟩ := hq
  obtain ⟨h₂, hk⟩ := hk
  obtain ⟨h₃, hc⟩ := hc
  obtain ⟨h₄, hv⟩ := hv
  refine ⟨Nat.lt_trans h₄ (Nat.lt_trans h₃ (Nat.lt_trans h₂ h₁)), ?_⟩
  rw [readMember]
  simp only [hq, hk, hc, hv, bind, Option.bind_some]
  rfl

lemma reads_last_member (hm : Reads (readMember read) s m t) (hn : Reads nextMark? t '}' rest) :
    Reads (readMembers read) s [m] rest := by
  obtain ⟨h, hm⟩ := hm
  obtain ⟨h', hn⟩ := hn
  refine ⟨Nat.lt_trans h' h, ?_⟩
  rw [readMembers]
  simp only [hm, hn, bind, Option.bind_some]
  rfl

lemma reads_next_member (hm : Reads (readMember read) s m t) (hn : Reads nextMark? t ',' u)
    (hr : Reads (readMembers read) u members rest) :
    Reads (readMembers read) s (m :: members) rest := by
  obtain ⟨h, hm⟩ := hm
  obtain ⟨h', hn⟩ := hn
  obtain ⟨h'', hr⟩ := hr
  refine ⟨Nat.lt_trans h'' (Nat.lt_trans h' h), ?_⟩
  rw [readMembers]
  simp only [hm, hn, bind, Option.bind_some, Rest.trans, Rest.weaken, hr]
  rfl

lemma reads_str (hq : Reads nextMark? s '"' t) (hs : Reads readString t key rest) :
    Reads (readAround inside) s (.str (String.ofList key)) rest := by
  obtain ⟨h, hq⟩ := hq
  obtain ⟨h', hs⟩ := hs
  refine ⟨Nat.lt_trans h' h, ?_⟩
  rw [readAround]
  simp only [hq, hs, bind, Option.bind_some]
  rfl

lemma reads_arr_nil (hq : Reads nextMark? s '[' t) (hn : Reads nextMark? t ']' rest) :
    Reads (readAround (some read)) s (.arr []) rest := by
  obtain ⟨h, hq⟩ := hq
  obtain ⟨h', hn⟩ := hn
  refine ⟨Nat.lt_trans h' h, ?_⟩
  rw [readAround]
  simp only [hq, hn, bind, Option.bind_some]
  rfl

lemma reads_arr (hq : Reads nextMark? s '[' t) (hn : Reads nextMark? t c u) (hc : c ≠ ']')
    (hi : Reads (readItems read) t items rest) :
    Reads (readAround (some read)) s (.arr items) rest := by
  obtain ⟨h, hq⟩ := hq
  obtain ⟨h', hn⟩ := hn
  obtain ⟨h'', hi⟩ := hi
  refine ⟨Nat.lt_trans h'' h, ?_⟩
  rw [readAround]
  simp only [hq, hn, bind, Option.bind_some]
  split
  · rename_i heq
    exact absurd (Prod.mk.inj (Option.some.inj heq)).1 hc
  · simp only [hi, Option.bind_some]
    rfl

lemma reads_obj_nil (hq : Reads nextMark? s '{' t) (hn : Reads nextMark? t '}' rest) :
    Reads (readAround (some read)) s (.obj []) rest := by
  obtain ⟨h, hq⟩ := hq
  obtain ⟨h', hn⟩ := hn
  refine ⟨Nat.lt_trans h' h, ?_⟩
  rw [readAround]
  simp only [hq, hn, bind, Option.bind_some]
  rfl

lemma reads_obj (hq : Reads nextMark? s '{' t) (hn : Reads nextMark? t c u) (hc : c ≠ '}')
    (hm : Reads (readMembers read) t members rest) :
    Reads (readAround (some read)) s (ofMembers members) rest := by
  obtain ⟨h, hq⟩ := hq
  obtain ⟨h', hn⟩ := hn
  obtain ⟨h'', hm⟩ := hm
  refine ⟨Nat.lt_trans h'' h, ?_⟩
  rw [readAround]
  simp only [hq, hn, bind, Option.bind_some]
  split
  · rename_i heq
    exact absurd (Prod.mk.inj (Option.some.inj heq)).1 hc
  · simp only [hm, Option.bind_some]
    rfl

/-- Words and numbers begin with no mark of the others. -/
lemma reads_plain (hn : Reads nextMark? s c t) (hc : isPlain c = true)
    (hv : Reads readPlain (c :: t) value rest) : Reads (readAround inside) s value rest := by
  obtain ⟨h, hn⟩ := hn
  obtain ⟨h', hv⟩ := hv
  refine ⟨Nat.lt_of_lt_of_le h' h, ?_⟩
  rw [readAround]
  simp only [hn, bind, Option.bind_some]
  split
  · exact absurd hc (by decide)
  · exact absurd hc (by decide)
  · exact absurd hc (by decide)
  · simp only [Rest.restore, hv, Option.bind_some]
    rfl

end Brackets

/-! ## What is printed -/

/-- Between the parts of a value the style puts nothing but gaps. -/
structure Style.Gapped (style : Style) : Prop where
  lineBreak : ∀ level, IsGap (style.lineBreak level)
  afterColon : IsGap style.afterColon

lemma Style.gapped_compact : Style.compact.Gapped := ⟨fun _ => isGap_nil, isGap_nil⟩

lemma Style.gapped_indented (width : Nat) : (Style.indented width).Gapped where
  lineBreak level := by
    refine List.forall_mem_cons.mpr ⟨by decide, fun c hc => ?_⟩
    rw [List.eq_of_mem_replicate hc]
    rfl
  afterColon := List.forall_mem_singleton.mpr (by decide)

/-- A character of a word or a number is no gap and no closing bracket. -/
lemma isPlain_apart (h : isPlain c = true) : isGap c = false ∧ isClosing c = false := by
  constructor
  · by_contra hg
    simp only [isGap, Bool.not_eq_false, Bool.or_eq_true, beq_iff_eq] at hg
    rcases hg with ((rfl | rfl) | rfl) | rfl
    all_goals exact absurd h (by decide)
  · by_contra hc
    simp only [isClosing, Bool.not_eq_false, Bool.or_eq_true, beq_iff_eq] at hc
    rcases hc with rfl | rfl
    all_goals exact absurd h (by decide)

lemma not_isPlain_of_isGap (h : isGap c = true) : isPlain c = false := by
  by_contra hp
  rw [(isPlain_apart (Bool.not_eq_false _ ▸ hp)).1] at h
  cases h

lemma ends_append (hg : IsGap gap) (hc : isPlain c = false) (rest : List Char) :
    Ends (gap ++ c :: rest) := by
  intro d hd
  cases gap with
  | nil =>
    obtain rfl := Option.some.inj hd
    exact hc
  | cons e gap =>
    obtain rfl := Option.some.inj hd
    exact not_isPlain_of_isGap (hg e List.mem_cons_self)

variable {style : Style} {level : Nat}

lemma ends_printItems (style : Style) (level : Nat) (items : List Json) (hg : IsGap gap)
    (hc : isPlain c = false) (rest : List Char) :
    Ends (printItems style level items ++ (gap ++ c :: rest)) := by
  cases items with
  | nil => exact ends_append hg hc rest
  | cons item items => exact ends_append isGap_nil (by decide : isPlain ',' = false) _

lemma ends_printFields (style : Style) (level : Nat) (fields : Fields) (hg : IsGap gap)
    (hc : isPlain c = false) (rest : List Char) :
    Ends (printFields style level fields ++ (gap ++ c :: rest)) := by
  cases fields with
  | nil => exact ends_append hg hc rest
  | cons m fields => exact ends_append isGap_nil (by decide : isPlain ',' = false) _

/-- The text of a number that is legible begins with a digit or a sign. -/
lemma exists_of_numberText {n : Number} (h : Numeral.read? (numberText n) = some n) :
    ∃ c text, numberText n = c :: text ∧ isPlain c = true := by
  obtain ⟨m, hs, -⟩ := exists_scan_of_read? h
  obtain ⟨c, text, ht, hc⟩ := exists_of_scan hs
  exact ⟨c, text, ht, hc.elim isPlain_of_isDigit (· ▸ by decide)⟩

/-- The text of a value begins with no gap and no closing bracket. -/
lemma exists_of_print (style : Style) (level : Nat) {v : Json} (h : v.Legible) :
    ∃ c text, print style level v = c :: text ∧ isGap c = false ∧ isClosing c = false := by
  cases v with
  | null => exact ⟨_, _, rfl, by decide, by decide⟩
  | bool b => cases b <;> exact ⟨_, _, rfl, by decide, by decide⟩
  | num n =>
    obtain ⟨c, text, ht, hc⟩ := exists_of_numberText h
    exact ⟨c, text, ht, isPlain_apart hc⟩
  | str s => exact ⟨_, _, rfl, by decide, by decide⟩
  | arr items => cases items <;> exact ⟨_, _, rfl, by decide, by decide⟩
  | obj fields =>
    cases fields with
    | nil => exact ⟨_, _, rfl, by decide, by decide⟩
    | cons m fields => exact ⟨_, _, rfl, by decide, by decide⟩

/-! ## What is printed is read -/

lemma exists_readValue_eq (d : Nat) : ∃ inside, readValue d = readAround inside := by
  cases d with
  | zero => exact ⟨none, rfl⟩
  | succ d => exact ⟨some (readValue d), rfl⟩

/-- A word or a number is read at any depth. -/
lemma reads_unbracketed {value : Json} (d : Nat) (hg : IsGap gap) (hc : isPlain c = true)
    (hv : Reads readPlain (c :: t) value rest) :
    Reads (readValue d) (gap ++ c :: t) value rest := by
  obtain ⟨inside, hd⟩ := exists_readValue_eq d
  rw [hd]
  exact reads_plain (reads_nextMark? hg (isPlain_apart hc).1 t) hc hv

/-- So is a quoted string. -/
lemma reads_quoted (d : Nat) (hg : IsGap gap) (s : String) (rest : List Char) :
    Reads (readValue d) (gap ++ (quoted s.toList ++ rest)) (.str s) rest := by
  obtain ⟨inside, hd⟩ := exists_readValue_eq d
  have inner := reads_string s.toList rest
  have whole : Reads (readAround inside) _ _ _ := reads_str (reads_nextMark? hg (by decide) _) inner
  rw [hd]
  simpa [quoted] using whole

/-- A member is read together with its value. -/
lemma reads_printed {d : Nat} {value : Json} (hg : IsGap gap) (key : String)
    (hv : Reads (readValue d) t value rest) :
    Reads (readMember (readValue d)) (gap ++ (quoted key.toList ++ ':' :: t)) (key, value)
      rest := by
  have named := reads_string key.toList (':' :: t)
  have colon := reads_mark (by decide : isGap ':' = false) t
  have whole := reads_member (reads_nextMark? hg (by decide) _) named colon hv
  rw [String.ofList_toList] at whole
  simpa [quoted] using whole

mutual

/-- A value is read at its depth, whatever ends it. -/
theorem reads_print (g : style.Gapped) : (v : Json) → ∀ (level : Nat) {d : Nat}
    {gap rest : List Char}, v.depth ≤ d → v.Tidy → v.Legible → IsGap gap → Ends rest →
    Reads (readValue d) (gap ++ (print style level v ++ rest)) v rest
  | .null, _, d, _, rest, _, _, _, hg, _ =>
    reads_unbracketed d hg (by decide : isPlain 'n' = true) (reads_null rest)
  | .bool true, _, d, _, rest, _, _, _, hg, _ =>
    reads_unbracketed d hg (by decide : isPlain 't' = true) (reads_true rest)
  | .bool false, _, d, _, rest, _, _, _, hg, _ =>
    reads_unbracketed d hg (by decide : isPlain 'f' = true) (reads_false rest)
  | .num n, level, d, _, rest, _, _, hl, hg, he => by
    obtain ⟨c, text, ht, hc⟩ := exists_of_numberText hl
    have read := reads_number hl he
    change Reads _ (_ ++ (numberText n ++ rest)) _ _
    rw [ht] at read ⊢
    exact reads_unbracketed d hg hc read
  | .str s, _, d, _, rest, _, _, _, hg, _ => reads_quoted d hg s rest
  | .arr [], _, d + 1, _, rest, _, _, _, hg, _ =>
    reads_arr_nil (reads_nextMark? hg (by decide) _) (reads_mark (by decide) rest)
  | .arr (item :: items), level, d + 1, gap, rest, hd, ht, hl, hg, _ => by
    obtain ⟨hdi, hdr⟩ := Nat.max_le.mp (Nat.le_of_succ_le_succ hd)
    have ends := ends_printItems style (level + 1) items (g.lineBreak level)
      (by decide : isPlain ']' = false) rest
    have first := reads_print g item (level + 1) hdi ht.1 hl.1 (g.lineBreak (level + 1)) ends
    obtain ⟨c, text, hp, noGap, noClosing⟩ := exists_of_print style (level + 1) hl.1
    have mark := reads_nextMark? (g.lineBreak (level + 1)) noGap
      (text ++ (printItems style (level + 1) items ++ (style.lineBreak level ++ ']' :: rest)))
    rw [← List.cons_append, ← hp] at mark
    have closes : c ≠ ']' := by
      rintro rfl
      exact absurd noClosing (by decide)
    have whole := reads_arr (reads_nextMark? hg (by decide) _) mark closes
      (reads_printItems g items hdr ht.2 hl.2 (g.lineBreak level) first)
    change Reads (readAround _) _ _ _
    simpa [print] using whole
  | .obj [], _, d + 1, _, rest, _, _, _, hg, _ =>
    reads_obj_nil (reads_nextMark? hg (by decide) _) (reads_mark (by decide) rest)
  | .obj ((key, value) :: fields), level, d + 1, gap, rest, hd, ht, hl, hg, _ => by
    obtain ⟨hdv, hdr⟩ := Nat.max_le.mp (Nat.le_of_succ_le_succ hd)
    have ends := ends_printFields style (level + 1) fields (g.lineBreak level)
      (by decide : isPlain '}' = false) rest
    have first := reads_printed (g.lineBreak (level + 1)) key
      (reads_print g value (level + 1) hdv ht.2.1 hl.1 g.afterColon ends)
    have mark := reads_nextMark? (g.lineBreak (level + 1)) (by decide : isGap '"' = false)
      (key.toList.flatMap escaped ++ ('"' :: ':' :: (style.afterColon ++
        (print style (level + 1) value ++ (printFields style (level + 1) fields ++
          (style.lineBreak level ++ '}' :: rest))))))
    have whole := reads_obj (reads_nextMark? hg (by decide) _) (by simpa [quoted] using mark)
      (by decide) (reads_printFields g fields hdr ht.2.2 hl.2 (g.lineBreak level) first)
    rw [ofMembers, Table.ofList_eq_self ht.1] at whole
    change Reads (readAround _) _ _ _
    simpa [print] using whole
termination_by structural v => v

theorem reads_printItems (g : style.Gapped) : (items : List Json) → ∀ {level d : Nat} {item : Json}
    {s gap rest : List Char}, depthItems items ≤ d → TidyItems items → LegibleItems items →
    IsGap gap →
    Reads (readValue d) s item (printItems style level items ++ (gap ++ ']' :: rest)) →
    Reads (readItems (readValue d)) s (item :: items) rest
  | [], _, _, _, _, _, rest, _, _, _, hg, first =>
    reads_last_item first (reads_nextMark? hg (by decide) rest)
  | next :: items, level, d, item, s, gap, rest, hd, ht, hl, hg, first => by
    obtain ⟨hdi, hdr⟩ := Nat.max_le.mp hd
    have ends := ends_printItems style level items hg (by decide : isPlain ']' = false) rest
    have second := reads_print g next level hdi ht.1 hl.1 (g.lineBreak level) ends
    have comma := reads_mark (by decide : isGap ',' = false) (style.lineBreak level ++
      (print style level next ++ (printItems style level items ++ (gap ++ ']' :: rest))))
    refine reads_next_item first ?_ (reads_printItems g items hdr ht.2 hl.2 hg second)
    simpa [printItems] using comma
termination_by structural items => items

theorem reads_printFields (g : style.Gapped) : (fields : List (String × Json)) →
    ∀ {level d : Nat} {m : String × Json} {s gap rest : List Char}, depthFields fields ≤ d →
    TidyFields fields → LegibleFields fields → IsGap gap →
    Reads (readMember (readValue d)) s m (printFields style level fields ++ (gap ++ '}' :: rest)) →
    Reads (readMembers (readValue d)) s (m :: fields) rest
  | [], _, _, _, _, _, rest, _, _, _, hg, first =>
    reads_last_member first (reads_nextMark? hg (by decide) rest)
  | (key, value) :: fields, level, d, m, s, gap, rest, hd, ht, hl, hg, first => by
    obtain ⟨hdv, hdr⟩ := Nat.max_le.mp hd
    have ends := ends_printFields style level fields hg (by decide : isPlain '}' = false) rest
    have second := reads_printed (g.lineBreak level) key
      (reads_print g value level hdv ht.1 hl.1 g.afterColon ends)
    have comma := reads_mark (by decide : isGap ',' = false) (style.lineBreak level ++
      (quoted key.toList ++ ':' :: (style.afterColon ++ (print style level value ++
        (printFields style level fields ++ (gap ++ '}' :: rest))))))
    refine reads_next_member first ?_ (reads_printFields g fields hdr ht.2 hl.2 hg second)
    simpa [printFields] using comma
termination_by structural fields => fields

end

/-- **What is printed is read back.**  A value that is not nested too deeply is read as itself from
its text, if no object in it has a key twice and its numbers are read as themselves. -/
theorem read?_print (g : style.Gapped) {v : Json} (hd : v.depth ≤ maxDepth) (ht : v.Tidy)
    (hl : v.Legible) (level : Nat) : read? (print style level v) = some v := by
  have whole := reads_print g v level hd ht hl isGap_nil ends_nil
  rw [List.nil_append, List.append_nil] at whole
  obtain ⟨h, hr⟩ := whole
  rw [read?, hr]
  rfl

end Colloquy.Json
