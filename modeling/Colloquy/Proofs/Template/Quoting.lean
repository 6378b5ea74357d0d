import Colloquy.Proofs.Template.Trimming
import Colloquy.Proofs.Text
import Colloquy.Template.Cache

/-!
# Strings in a template

Every string can be written as a literal: between double quotes, with a backslash before each
backslash, double quote and closing brace.  Three readers have to agree on that.  The one that looks
for the end of the tag knows of no quotes, so that the literal must not have two closing braces in a
row; the one that splits the tag into arguments has to leave the quotes where the literal ends; and
the one that takes the quotes off has to take off what was put there.

A literal stands between other arguments, by itself or behind a name, and leaves them as they are.
-/

namespace Colloquy.Template

/-! ## Literals -/

/-- A character between double quotes. -/
def quotedChar (c : Char) : List Char :=
  if c = '\\' ∨ c = '"' ∨ c = '\x7d' then ['\\', c] else [c]

/-- A string between double quotes. -/
def quoted (s : List Char) : List Char := '"' :: (s.flatMap quotedChar ++ ['"'])

lemma unescape_cons {c : Char} (h : c ≠ '\\') (s : List Char) :
    unescape (c :: s) = c :: unescape s := by
  rw [unescape.eq_def]
  split <;> simp_all

/-- Taking the backslashes away gives the string back. -/
lemma unescape_quotedChar (s : List Char) : unescape (s.flatMap quotedChar) = s := by
  induction s with
  | nil => rfl
  | cons c s ih =>
    rw [List.flatMap_cons, quotedChar]
    split
    · rename_i special
      rcases special with rfl | rfl | rfl
      all_goals exact congrArg _ ih
    · rename_i plain
      rw [List.singleton_append, unescape_cons (fun h => plain (.inl h)), ih]

lemma unquote?_quoted (s : List Char) : unquote? (quoted s) = some s := by
  rw [quoted, unquote?, List.getLast?_concat, List.dropLast_concat, unescape_quotedChar]
  rfl

@[simp] lemma readExpr_quoted (s : List Char) :
    readExpr (quoted s) = .ok (.literal (.str (String.ofList s))) := by
  rw [readExpr, unquote?_quoted]

/-! ## Steps through a row of arguments -/

section Steps

variable {c q : Char} {quote : Option Char} {current rest : List Char}

lemma splitArgs_escaped : splitArgs (some q) current ('\\' :: c :: rest) =
    splitArgs (some q) (current ++ ['\\', c]) rest := by
  rw [splitArgs.eq_def]
  simp

lemma splitArgs_inside (h : c ≠ '\\') : splitArgs (some q) current (c :: rest) =
    splitArgs (if c = q then none else some q) (current ++ [c]) rest := by
  rw [splitArgs.eq_def]
  simp [h]

lemma splitArgs_quote (h : isQuote c = true) : splitArgs none current (c :: rest) =
    splitArgs (some c) (current ++ [c]) rest := by
  rw [splitArgs.eq_def]
  simp [h]

lemma ne_of_isQuote_of_isBlank (hq : isQuote q = true) (hc : Text.isBlank c = true) : c ≠ q := by
  rintro rfl
  obtain rfl | rfl : c = '"' ∨ c = '\'' := by simpa [isQuote] using hq
  all_goals exact absurd hc (by decide)

lemma splitArgs_blank (h : Text.isBlank c = true) : splitArgs none current (c :: rest) =
    if current.isEmpty then splitArgs none [] rest
    else (splitArgs none [] rest).map (current :: ·) := by
  have noQuote : ¬ isQuote c = true := fun hq => ne_of_isQuote_of_isBlank hq h rfl
  rw [splitArgs.eq_def]
  simp [h, noQuote]

lemma splitArgs_plain (hq : isQuote c = false) (hb : Text.isBlank c = false)
    (hp : ¬ (c = '(' ∨ c = ')')) : splitArgs none current (c :: rest) =
      splitArgs none (current ++ [c]) rest := by
  rw [splitArgs.eq_def]
  simp [hq, hb, hp]

end Steps

lemma splitArgs_quotedChar (current s rest : List Char) :
    splitArgs (some '"') current (s.flatMap quotedChar ++ rest) =
      splitArgs (some '"') (current ++ s.flatMap quotedChar) rest := by
  induction s generalizing current with
  | nil => rw [List.flatMap_nil, List.nil_append, List.append_nil]
  | cons c s ih =>
    rw [List.flatMap_cons, List.append_assoc, ← List.append_assoc current, ← ih, quotedChar]
    split
    · exact splitArgs_escaped
    · rename_i plain
      obtain ⟨noSlash, noQuote, -⟩ := not_or.mp plain |>.imp_right not_or.mp
      rw [List.singleton_append, splitArgs_inside noSlash, if_neg noQuote]

/-- A literal is part of one argument. -/
lemma splitArgs_quoted (current s rest : List Char) :
    splitArgs none current (quoted s ++ rest) = splitArgs none (current ++ quoted s) rest := by
  rw [quoted, List.cons_append, splitArgs_quote rfl, List.append_assoc, splitArgs_quotedChar,
    List.singleton_append, splitArgs_inside (by decide), if_pos rfl]
  simp

/-! ## Rows of arguments -/

variable {blanks front back word : List Char} {args others : List (List Char)}

lemma splitArgs_blanks (h : Text.allBlank blanks = true) (rest : List Char) :
    splitArgs none [] (blanks ++ rest) = splitArgs none [] rest := by
  induction blanks with
  | nil => rfl
  | cons c blanks ih =>
    obtain ⟨hc, hb⟩ := Bool.and_eq_true_iff.mp h
    rw [List.cons_append, splitArgs_blank hc, List.isEmpty_nil, if_pos rfl, ih hb]

/-- Blanks at the end of an argument end it. -/
lemma splitArgs_of_allBlank (h : Text.allBlank blanks = true) (current : List Char) :
    splitArgs none current blanks = splitArgs none current [] := by
  cases blanks with
  | nil => rfl
  | cons c blanks =>
    obtain ⟨hc, hb⟩ := Bool.and_eq_true_iff.mp h
    have behind : splitArgs none [] blanks = .ok [] := by
      simpa [splitArgs] using splitArgs_blanks hb []
    rw [splitArgs_blank hc, behind]
    cases current <;> rfl

/-- Blanks do not close a quote. -/
lemma splitArgs_quote_of_allBlank {q : Char} (hq : isQuote q = true)
    (h : Text.allBlank blanks = true) (current : List Char) :
    splitArgs (some q) current blanks = .error .unterminatedString := by
  induction blanks generalizing current with
  | nil => rw [splitArgs]; rfl
  | cons c blanks ih =>
    obtain ⟨hc, hb⟩ := Bool.and_eq_true_iff.mp h
    have noSlash : c ≠ '\\' := fun he => absurd (he ▸ hc) (by decide)
    rw [splitArgs_inside noSlash, if_neg (ne_of_isQuote_of_isBlank hq hc), ih hb]

/-- Blanks behind a row of arguments make no difference. -/
lemma splitArgs_append_blanks {quote : Option Char} (hq : ∀ q, quote = some q → isQuote q = true)
    (h : Text.allBlank blanks = true) (current s : List Char) :
    splitArgs quote current (s ++ blanks) = splitArgs quote current s := by
  fun_induction splitArgs quote current s with
  | case1 quote current open_ =>
    obtain ⟨q, rfl⟩ := Option.isSome_iff_exists.mp open_
    exact splitArgs_quote_of_allBlank (hq q rfl) h current
  | case2 quote current closed =>
    obtain rfl := Option.not_isSome_iff_eq_none.mp closed
    rw [List.nil_append, splitArgs_of_allBlank h, splitArgs]
    rfl
  | case3 current q =>
    have own := hq q rfl
    have nothing : Text.allBlank [] = true := rfl
    have alone := splitArgs_quote_of_allBlank own nothing (current ++ ['\\'])
    rw [alone]
    cases blanks with
    | nil => exact alone
    | cons b blanks =>
      rw [List.singleton_append, splitArgs_escaped]
      exact splitArgs_quote_of_allBlank own (Bool.and_eq_true_iff.mp h).2 _
  | case4 current q next rest ih => exact splitArgs_escaped.trans (ih hq)
  | case5 current next rest q noSlash ih =>
    refine (splitArgs_inside noSlash).trans (ih fun p hp => ?_)
    split at hp
    · cases hp
    · exact hq p hp
  | case6 current next rest own ih =>
    exact (splitArgs_quote own).trans (ih fun p hp => Option.some.inj hp ▸ own)
  | case7 current next rest _ blank none_yet ih =>
    rw [List.cons_append, splitArgs_blank blank, if_pos none_yet, ih hq]
  | case8 current next rest _ blank some_yet ih =>
    rw [List.cons_append, splitArgs_blank blank, if_neg some_yet, ih hq]
  | case9 current next rest noQuote visible paren =>
    rw [List.cons_append, splitArgs.eq_def]
    simp [noQuote, visible, paren]
  | case10 current next rest noQuote visible noParen ih =>
    rw [List.cons_append, splitArgs_plain (by simpa using noQuote) (by simpa using visible) noParen,
      ih hq]

lemma arguments_append_blanks (h : Text.allBlank blanks = true) (s : List Char) :
    arguments (s ++ blanks) = arguments s :=
  splitArgs_append_blanks (fun _ hq => by cases hq) h [] s

/-- What is behind a blank that ends an argument is split as if it stood alone. -/
lemma splitArgs_append {quote : Option Char} {c : Char} {current s : List Char}
    (hc : Text.isBlank c = true) (h : splitArgs quote current s = .ok args) (rest : List Char) :
    splitArgs quote current (s ++ c :: rest) = (splitArgs none [] rest).map (args ++ ·) := by
  fun_induction splitArgs quote current s generalizing args with
  | case1 | case9 => cases h
  | case2 quote current closed =>
    obtain rfl := Option.not_isSome_iff_eq_none.mp closed
    obtain rfl := Except.ok.inj h
    rw [List.nil_append, splitArgs_blank hc]
    split
    · cases splitArgs none [] rest <;> rfl
    · rfl
  | case3 current q =>
    rw [splitArgs] at h
    cases h
  | case4 current q next rest' ih => exact splitArgs_escaped.trans (ih h)
  | case5 current next rest' q noSlash ih => exact (splitArgs_inside noSlash).trans (ih h)
  | case6 current next rest' own ih => exact (splitArgs_quote own).trans (ih h)
  | case7 current next rest' _ blank none_yet ih =>
    rw [List.cons_append, splitArgs_blank blank, if_pos none_yet, ih h]
  | case8 current next rest' _ blank some_yet ih =>
    obtain ⟨others, ho, rfl⟩ := exists_of_map_eq_ok h
    rw [List.cons_append, splitArgs_blank blank, if_neg some_yet, ih ho]
    cases splitArgs none [] rest <;> rfl
  | case10 current next rest' noQuote visible noParen ih =>
    rw [List.cons_append, splitArgs_plain (by simpa using noQuote) (by simpa using visible) noParen,
      ih h]

/-- An argument that begins behind a blank and ends before one is an argument by itself. -/
lemma arguments_between (hf : arguments front = .ok args) (hb : arguments back = .ok others)
    (front_apart : front.getLast?.all Text.isBlank = true)
    (back_apart : back.head?.all Text.isBlank = true) (hw : word ≠ [])
    (whole : ∀ rest, splitArgs none [] (word ++ rest) = splitArgs none word rest) :
    arguments (front ++ word ++ back) = .ok (args ++ word :: others) := by
  have behind : arguments (word ++ back) = .ok (word :: others) := by
    rw [arguments, whole]
    cases back with
    | nil =>
      obtain rfl := Except.ok.inj hb
      cases word with
      | nil => exact absurd rfl hw
      | cons => rfl
    | cons c back =>
      have blank : Text.isBlank c = true := by simpa using back_apart
      rw [arguments, splitArgs_blank blank, List.isEmpty_nil, if_pos rfl] at hb
      rw [splitArgs_blank blank, hb]
      cases word with
      | nil => exact absurd rfl hw
      | cons => rfl
  rw [List.append_assoc]
  cases hl : front.getLast? with
  | none =>
    obtain rfl := List.getLast?_eq_none_iff.mp hl
    obtain rfl := Except.ok.inj hf
    exact behind
  | some c =>
    obtain ⟨front, rfl⟩ := List.getLast?_eq_some_iff.mp hl
    have blank : Text.isBlank c = true := by simpa using front_apart
    rw [arguments_append_blanks (by simpa [Text.allBlank] using blank)] at hf
    rw [List.append_assoc, List.singleton_append, arguments, splitArgs_append blank hf]
    rw [arguments] at behind
    rw [behind]
    rfl

/-! ## Arguments with and without a name -/

/-- Arguments in order. -/
def Arguments.append (first second : Arguments) : Arguments :=
  ⟨first.positional ++ second.positional, first.named ++ second.named⟩

lemma readArguments_append {before after : Arguments} (hb : readArguments args = .ok before)
    (ha : readArguments others = .ok after) :
    readArguments (args ++ others) = .ok (before.append after) := by
  induction args generalizing before with
  | nil =>
    obtain rfl := Except.ok.inj hb
    exact ha
  | cons raw args ih =>
    rw [readArguments] at hb
    rw [List.cons_append, readArguments]
    split at hb
    all_goals
      obtain ⟨value, hv, hb'⟩ := exists_of_bind_eq_ok hb
      obtain ⟨rest, hr, he⟩ := exists_of_bind_eq_ok hb'
      obtain rfl := Except.ok.inj he
      simp only [hv, ih hr]
      rfl

/-- A name before an argument: no empty text, and none of the characters that a row of arguments
goes by. -/
def IsName (name : List Char) : Prop :=
  name ≠ [] ∧ ∀ c ∈ name, isQuote c = false ∧ Text.isBlank c = false ∧ c ∉ "()=".toList

instance : DecidablePred IsName := fun name =>
  @instDecidableAnd _ _ inferInstance (List.decidableBAll _ name)

/-- What may stand right before a literal, nothing or a name and a sign, and what the literal is
read as with it. -/
inductive Leads (s : String) : List Char → Arguments → Prop
  | alone : Leads s [] ⟨[.literal (.str s)], []⟩
  | named {name} (h : IsName name) :
      Leads s (name ++ ['=']) ⟨[], [(String.ofList name, .literal (.str s))]⟩

lemma splitArgs_name {name : List Char}
    (h : ∀ c ∈ name, isQuote c = false ∧ Text.isBlank c = false ∧ c ∉ "()=".toList)
    (current rest : List Char) :
    splitArgs none current (name ++ rest) = splitArgs none (current ++ name) rest := by
  induction name generalizing current with
  | nil => rw [List.nil_append, List.append_nil]
  | cons c name ih =>
    obtain ⟨⟨hq, hb, hp⟩, others⟩ := List.forall_mem_cons.mp h
    have noParen : ¬ (c = '(' ∨ c = ')') := by
      rintro (rfl | rfl)
      all_goals exact hp (by decide)
    rw [List.cons_append, splitArgs_plain hq hb noParen, ih others, List.append_assoc]
    rfl

lemma nameAndValue?_named {name : List Char} (h : IsName name) (value : List Char) :
    nameAndValue? (name ++ '=' :: value) = some (name, value) := by
  obtain ⟨nonempty, chars⟩ := h
  have noSign : '=' ∉ name := fun hm => (chars _ hm).2.2 (by decide)
  have cut := Text.cutAt?_append_cons noSign value
  cases name with
  | nil => exact absurd rfl nonempty
  | cons c name =>
    have noQuote : isQuote c = false := (chars c List.mem_cons_self).1
    rw [List.cons_append] at cut ⊢
    simp [nameAndValue?, noQuote, cut]

namespace Leads

variable {s : String} {lead : List Char} {own : Arguments}

/-- A literal is one argument with what stands right before it. -/
lemma splitArgs_append (h : Leads s lead own) (rest : List Char) :
    splitArgs none [] (lead ++ quoted s.toList ++ rest) =
      splitArgs none (lead ++ quoted s.toList) rest := by
  cases h with
  | alone => exact splitArgs_quoted [] s.toList rest
  | @named name hn =>
    rw [List.append_assoc, List.append_assoc, splitArgs_name hn.2, List.singleton_append,
      splitArgs_plain rfl (by decide) (by decide), splitArgs_quoted, List.nil_append]

lemma readArguments_eq (h : Leads s lead own) :
    readArguments [lead ++ quoted s.toList] = .ok own := by
  cases h with
  | alone =>
    have noName : nameAndValue? (quoted s.toList) = none := rfl
    simp only [List.nil_append, readArguments, noName, readExpr_quoted, String.ofList_toList]
    rfl
  | named hn =>
    simp only [List.append_assoc, List.singleton_append, readArguments, nameAndValue?_named hn,
      readExpr_quoted, String.ofList_toList]
    rfl

end Leads

/-! ## The end of the tag -/

lemma head?_quotedChar (s : List Char) : (s.flatMap quotedChar).head? ≠ some '}' := by
  cases s with
  | nil => simp
  | cons c s =>
    rw [List.flatMap_cons, quotedChar]
    split
    · simp
    · rename_i plain
      have noBrace : c ≠ '}' := fun he => plain (.inr (.inr he))
      simpa using noBrace

/-- Inside a literal no two closing braces stand in a row. -/
lemma not_infix_quotedChar (s : List Char) : ¬ "\x7d\x7d".toList <:+: s.flatMap quotedChar := by
  induction s with
  | nil => exact fun hi => absurd hi.length_le (by decide)
  | cons c s ih =>
    rw [List.flatMap_cons, quotedChar]
    -- Behind the backslash there may be one brace, and no second one follows it.
    have own : ¬ "\x7d\x7d".toList <:+: c :: s.flatMap quotedChar := by
      intro hi
      rcases List.infix_cons_iff.mp hi with hp | hi
      · obtain ⟨-, hp⟩ := List.cons_prefix_cons.mp hp
        obtain ⟨rest, hr⟩ := hp
        exact head?_quotedChar s (by rw [← hr]; rfl)
      · exact ih hi
    split
    · intro hi
      rcases List.infix_cons_iff.mp hi with hp | hi
      · exact absurd (List.cons_prefix_cons.mp hp).1 (by decide)
      · exact own hi
    · exact own

lemma lacks_quoted (s : List Char) {front back : List Char}
    (hf : ¬ "\x7d\x7d".toList <:+: front) (hb : Text.Lacks "\x7d\x7d".toList back) :
    Text.Lacks "\x7d\x7d".toList (front ++ quoted s ++ back) := by
  intro hi
  rw [quoted, List.append_assoc, List.append_assoc, List.cons_append, List.append_assoc,
    List.singleton_append] at hi
  rcases Text.infix_of_append_cons (by decide) hi with hi | hi
  · exact hf hi
  rcases Text.infix_of_append_cons (by decide) hi with hi | hi
  · exact not_infix_quotedChar s hi
  · exact hb hi

/-! ## Sources -/

/-- A source that is one tag is read as the node of that tag. -/
lemma readTree_of_markup {span body : List Char} {trimsBefore trimsAfter : Bool} {node : Node}
    (shape : Markup span (.tag body trimsBefore trimsAfter))
    (h : Tag.read body = .ok (.leaf node)) : readTree span = .ok [node] := by
  have lacks : Text.Lacks "\x7b\x7b".toList [] := by decide
  have empty : ¬ "\x7b\x7b".toList <:+: [] := by decide
  have tiles : Tiles [] ([] ++ span ++ []) [⟨.origin, span, .tag body trimsBefore trimsAfter⟩] :=
    .markup lacks shape (.text empty)
  rw [List.nil_append, List.append_nil] at tiles
  have terminal : readTerminal? body = some (.leaf node) := readTerminal?_eq_some_iff.mpr h
  refine (readTree_eq_ok_iff (scanFrom_eq_ok_iff.mpr tiles)).mpr ⟨?_, ?_⟩
  · simp [Lexeme.WellFormed, terminal]
  · rw [controlled, controlled, terminals_tag, terminal]
    exact .leaf node .nil

/-- A tag that begins with no sign and with no `e` is a directive or an expression. -/
lemma read_eq_readPlain {c : Char} (hc : c ∉ "#/>e".toList) (rest : List Char) :
    Tag.read (c :: rest) = (readPlain (c :: rest)).map .leaf := by
  have noElse : elseClause? (c :: rest) = none := by
    have other : Text.leading? "else".toList (c :: rest) = none :=
      Text.leading?_eq_none_iff.mpr fun hp =>
        hc ((List.cons_prefix_cons.mp hp).1 ▸ by decide)
    rw [elseClause?, other]
  rw [Tag.read.eq_def]
  simp only [noElse]
  split <;> simp_all

/-- A tag that holds a literal alone writes the literal. -/
lemma read_quoted (s : List Char) :
    Tag.read (quoted s) = .ok (.leaf (.expression (.literal (.str (String.ofList s))))) := by
  have alone : arguments (quoted s) = .ok [quoted s] := by
    have whole := splitArgs_quoted [] s []
    rwa [List.append_nil] at whole
  have noDirective : directives.lookup (String.ofList (quoted s)) = none := by
    refine List.lookup_eq_none_iff.mpr fun d hd => ?_
    have start : d.1.toList.head? ≠ some '"' := by
      revert d
      decide
    simp only [bne_iff_ne, ne_eq]
    intro he
    rw [← he, String.toList_ofList] at start
    exact start rfl
  have plain : readPlain (quoted s) = .ok (.expression (.literal (.str (String.ofList s)))) := by
    simp only [readPlain, alone, bind, Except.bind, noDirective, List.isEmpty_nil, if_true,
      readExpr_quoted]
    rfl
  have read := @read_eq_readPlain '"' (by decide) (s.flatMap quotedChar ++ ['"'])
  rw [← quoted, plain] at read
  exact read

/-- A tag without tildes between two braces. -/
lemma markup_of_lacks {c : Char} {rest : List Char} (hc : c ∉ "!\x7b~".toList)
    (last : (c :: rest).getLast? ≠ some '~') (first : Text.Lacks "\x7d\x7d".toList (c :: rest)) :
    Markup ("\x7b\x7b".toList ++ (c :: rest) ++ "\x7d\x7d".toList)
      (.tag (Text.trim (c :: rest)) false false) := by
  have starts : ∀ d ∈ (c :: rest ++ tilde false).head?,
      d ≠ '!' ∧ d ≠ '{' ∧ (d = '~' → false = true) := by
    intro d hd
    obtain rfl : c = d := Option.some.inj hd
    simp only [String.reduceToList, List.mem_cons, List.not_mem_nil, or_false, not_or] at hc
    exact ⟨hc.1, hc.2.1, fun he => absurd he hc.2.2⟩
  have trims : (c :: rest).getLast? = some '~' → false = true := fun h => absurd h last
  have shape := Markup.tag starts trims (by rwa [tilde, if_neg Bool.false_ne_true, List.append_nil])
  simpa [tilde] using shape

lemma getLast?_quoted (s : List Char) : (quoted s).getLast? = some '"' := by
  rw [quoted, ← List.cons_append, List.getLast?_concat]

lemma trim_quoted (s : List Char) : Text.trim (quoted s) = quoted s := by
  have visible : Text.isBlank '"' = false := by decide
  rw [quoted, Text.trim_cons visible, Text.trimEnd_concat visible]

/-- A literal between two braces is a tag. -/
lemma markup_quoted (s : List Char) :
    Markup ("\x7b\x7b".toList ++ quoted s ++ "\x7d\x7d".toList) (.tag (quoted s) false false) := by
  have closed := @lacks_quoted s [] [] (by decide) (by decide)
  rw [List.nil_append, List.append_nil] at closed
  have last : (quoted s).getLast? ≠ some '~' := by
    rw [getLast?_quoted]
    decide
  have shape := markup_of_lacks (by decide) last closed
  rwa [← quoted, trim_quoted] at shape

/-- The names of the directives look like no other tag. -/
lemma name_of_directive : ∀ d ∈ directives, IsName d.1.toList ∧ '}' ∉ d.1.toList ∧
    d.1.toList.head?.all (· ∉ "#/>e!\x7b~".toList) = true := by
  decide

/-- A directive is read with the arguments behind its name. -/
lemma readTree_directive {helper : String} {read : Arguments → Except Fault Directive}
    {row : List Char} {all : Arguments} {d : Directive}
    (hd : directives.lookup helper = some read) (hr : arguments row = .ok args)
    (ha : readArguments args = .ok all) (ok : read all = .ok d)
    (first : Text.Lacks "\x7d\x7d".toList row) (last : row.getLast? ≠ some '~') :
    readTree ("\x7b\x7b".toList ++ (helper.toList ++ ' ' :: row) ++ "\x7d\x7d".toList) =
      .ok [.directive d] := by
  obtain ⟨isName, noBrace, start⟩ : IsName helper.toList ∧ '}' ∉ helper.toList ∧
      helper.toList.head?.all (· ∉ "#/>e!\x7b~".toList) = true := by
    obtain ⟨front, back, he, -⟩ := List.lookup_eq_some_iff.mp hd
    exact name_of_directive _ (he ▸ List.mem_append_right front List.mem_cons_self)
  have split : arguments (helper.toList ++ ' ' :: row) = .ok (helper.toList :: args) := by
    rw [arguments, splitArgs_name isName.2, List.nil_append, splitArgs_blank (by decide),
      ← arguments, hr, if_neg (by simpa using isName.1)]
    rfl
  have closed : Text.Lacks "\x7d\x7d".toList (helper.toList ++ ' ' :: row) := by
    rw [Text.Lacks, List.append_assoc]
    intro hi
    have noBrace' : ∀ c ∈ helper.toList ++ [' '], c ∉ "\x7d\x7d".toList := by
      rw [List.forall_mem_append, List.forall_mem_singleton]
      exact ⟨fun c hc hm => noBrace (by simp_all), by decide⟩
    rw [← List.singleton_append, List.append_assoc, ← List.append_assoc] at hi
    exact first (Text.infix_of_append noBrace' hi)
  cases hn : helper.toList with
  | nil => exact absurd hn isName.1
  | cons c name =>
    rw [hn] at split closed start isName
    have visible : Text.isBlank c = false := (isName.2 c List.mem_cons_self).2.1
    have sign : c ∉ "#/>e!\x7b~".toList := of_decide_eq_true start
    obtain ⟨blanks, blank, hb⟩ := Text.exists_trimEnd_append (name ++ ' ' :: row)
    have body : arguments (c :: Text.trimEnd (name ++ ' ' :: row)) = .ok ((c :: name) :: args) := by
      rw [← arguments_append_blanks blank, List.cons_append, ← hb]
      exact split
    have named : String.ofList (c :: name) = helper := by rw [← hn, String.ofList_toList]
    have plain : readPlain (c :: Text.trimEnd (name ++ ' ' :: row)) = .ok (.directive d) := by
      simp only [readPlain, body, bind, Except.bind, named, hd, ha, ok]
      rfl
    have last' : (c :: (name ++ ' ' :: row)).getLast? ≠ some '~' := by
      rw [← List.cons_append, List.getLast?_append, List.getLast?_cons]
      cases hl : row.getLast? with
      | none => simp
      | some e => simpa [hl] using last
    have braces : "!\x7b~".toList ⊆ "#/>e!\x7b~".toList := by decide
    have signs : "#/>e".toList ⊆ "#/>e!\x7b~".toList := by decide
    have shape := markup_of_lacks (fun hm => sign (braces hm)) last' closed
    rw [Text.trim_cons visible] at shape
    refine readTree_of_markup shape ?_
    rw [read_eq_readPlain fun hm => sign (signs hm), plain]
    rfl

/-- **Every string can be written as a literal.**  Between two braces it is a template, which writes
the string without its reserved characters whatever it is rendered with.  Among the arguments of a
directive, by itself or behind a name, it is read as the string, and the arguments before it and
behind it are read as they were; they may be any that do not end the tag themselves. -/
theorem quoted_literal (s : String) :
    (∃ t, Template.compile
        (String.ofList ("\x7b\x7b".toList ++ quoted s.toList ++ "\x7d\x7d".toList)) = .ok t ∧
      ∀ partials ctx, t.render partials ctx = .ok (Marker.stripReserved s)) ∧
    ∀ front back args others before after lead own,
      arguments front = .ok args → readArguments args = .ok before →
      arguments back = .ok others → readArguments others = .ok after →
      front.getLast?.all Text.isBlank = true → back.head?.all Text.isBlank = true →
      Leads s lead own →
      arguments (front ++ (lead ++ quoted s.toList) ++ back) =
        .ok (args ++ (lead ++ quoted s.toList) :: others) ∧
      readArguments (args ++ (lead ++ quoted s.toList) :: others) =
        .ok (before.append (own.append after)) ∧
      ∀ helper read d, directives.lookup helper = some read →
        read (before.append (own.append after)) = .ok d →
        ¬ "\x7d\x7d".toList <:+: front ++ lead → Text.Lacks "\x7d\x7d".toList back →
        back.getLast? ≠ some '~' →
        readTree ("\x7b\x7b".toList ++
          (helper.toList ++ ' ' :: (front ++ (lead ++ quoted s.toList) ++ back)) ++
          "\x7d\x7d".toList) = .ok [.directive d] := by
  constructor
  · have tree := readTree_of_markup (markup_quoted s.toList) (read_quoted s.toList)
    rw [String.ofList_toList] at tree
    generalize hs : "\x7b\x7b".toList ++ quoted s.toList ++ "\x7d\x7d".toList = source at tree ⊢
    refine ⟨⟨Digest.ofText (String.ofList source), [.expression (.literal (.str s))]⟩, ?_,
      fun partials ctx => ?_⟩
    · rw [Template.compile, String.toList_ofList, tree]
      rfl
    · have written : Marker.stripChars s.toList ++ [] = Marker.stripChars s.toList :=
        List.append_nil _
      exact congrArg (fun written => Except.ok (String.ofList written)) written
  · intro front back args others before after lead own hf hb ho ha front_apart back_apart leads
    have split : arguments (front ++ (lead ++ quoted s.toList) ++ back) =
        .ok (args ++ (lead ++ quoted s.toList) :: others) :=
      arguments_between hf ho front_apart back_apart (by simp [quoted]) leads.splitArgs_append
    have readAll : readArguments (args ++ (lead ++ quoted s.toList) :: others) =
        .ok (before.append (own.append after)) :=
      readArguments_append hb (readArguments_append leads.readArguments_eq ha)
    refine ⟨split, readAll, fun helper read d hd ok noEnd closed last => ?_⟩
    refine readTree_directive hd split readAll ok ?_ ?_
    · rw [← List.append_assoc front]
      exact lacks_quoted s.toList noEnd closed
    · rw [List.getLast?_append]
      cases hl : back.getLast? with
      | none => simp [getLast?_quoted]
      | some c => simpa [hl] using last

/-- A string with a closing tag, a quote, a backslash and a line break. -/
def awkward : String := "\"\x7d\x7d \\ (a=b)\n~"

theorem quoted_literal_awkward :
    readTree ("\x7b\x7bjson \"\\\"\\\x7d\\\x7d \\\\ (a=b)\n~\" indent=2\x7d\x7d".toList) =
        .ok [.directive (.json (.literal (.str awkward)) (some (.literal (Json.ofNat 2))))] ∧
      readTree ("\x7b\x7bmedia url contentType=\"\\\"\\\x7d\\\x7d \\\\ (a=b)\n~\"\x7d\x7d".toList) =
        .ok [.directive (.media (.path ⟨.scope 0, ["url"]⟩) (some (.literal (.str awkward))))] := by
  obtain ⟨-, among⟩ := quoted_literal awkward
  constructor
  · obtain ⟨-, -, tree⟩ := among [] " indent=2".toList [] ["indent=2".toList] ⟨[], []⟩
      ⟨[], [("indent", .literal (Json.ofNat 2))]⟩ [] _ rfl rfl (by decide) rfl rfl
      (by decide) .alone
    exact tree "json" jsonDirective _ rfl rfl (by decide) (by decide) (by decide)
  · obtain ⟨-, -, tree⟩ := among "url ".toList [] ["url".toList] []
      ⟨[.path ⟨.scope 0, ["url"]⟩], []⟩ ⟨[], []⟩ ("contentType".toList ++ ['=']) _ (by decide)
      rfl rfl rfl (by decide) rfl (.named (by decide))
    exact tree "media" mediaDirective _ rfl rfl (by decide) (by decide) (by decide)

end Colloquy.Template
