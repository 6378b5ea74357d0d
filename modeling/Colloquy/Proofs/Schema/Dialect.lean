import Colloquy.Proofs.Text
import Colloquy.Schema.Pico

/-!
# The meaning of picoschema

What a picoschema says about values, read off its source and not off what it is compiled to.  The
texts of keys and scalars are described by how they are put together (`Spells`, `Leads`), and
`Conforms` follows the nesting of the source.

`read_iff` links the description of keys with the function that reads them.
-/

namespace Colloquy.Pico

/-! ## Texts -/

/-- A text leads with a word if that is what stands before its first comma, or is all of it, but for
the blanks around it. -/
def Leads (s : List Char) (word : String) : Prop :=
  ∃ before, ',' ∉ before ∧ word = String.ofList (Text.trim before) ∧
    (s = before ∨ ∃ after, s = before ++ ',' :: after)

lemma leads_iff {s : List Char} {word : String} :
    Leads s word ↔ (Schema.splitDescription s).1 = word := by
  constructor
  · rintro ⟨before, hb, rfl, rfl | ⟨after, rfl⟩⟩
    · rw [Schema.splitDescription, Text.cutAt?_eq_none hb]
    · rw [Schema.splitDescription, Text.cutAt?_append_cons hb]
  · rintro rfl
    rw [Schema.splitDescription]
    cases hc : Text.cutAt? (· == ',') s with
    | none => exact ⟨s, Text.cutAt?_eq_none_iff.mp hc, rfl, .inl rfl⟩
    | some cut =>
      obtain ⟨before, after⟩ := cut
      obtain ⟨rfl, hb⟩ := Text.cutAt?_eq_some_iff.mp hc
      exact ⟨before, hb, rfl, .inr ⟨after, rfl⟩⟩

/-- The name at the head of a key, and whether a question mark behind it makes it optional. -/
inductive Heads (head : List Char) : List Char → Bool → Prop
  | required (h : (Text.trim head).getLast? ≠ some '?') : Heads head (Text.trim head) false
  | optional {front} (h : Text.trim head = front ++ ['?']) : Heads head (Text.trim front) true

lemma heads_iff {head name : List Char} {optional : Bool} :
    Heads head name optional ↔ Schema.readName head = (name, optional) := by
  constructor
  · rintro (h | @⟨front, h⟩)
    · simp [Schema.readName, h]
    · simp [Schema.readName, h]
  · intro h
    rw [Schema.readName] at h
    split at h
    · rename_i hl
      obtain ⟨rfl, rfl⟩ := Prod.mk.inj h
      obtain ⟨front, hf⟩ := List.getLast?_eq_some_iff.mp (beq_iff_eq.mp hl)
      rw [hf, List.dropLast_concat]
      exact .optional hf
    · rename_i hl
      obtain ⟨rfl, rfl⟩ := Prod.mk.inj h
      exact .required fun he => hl (beq_iff_eq.mpr he)

/-! ## Keys -/

/-- What a key says about members: those under a name, which may be lists of what the value of the
key says, or all that are not named. -/
inductive Meaning where
  | property (name : String) (optional list : Bool)
  | wildcard
  deriving DecidableEq, Repr

/-- The words that may stand in parentheses behind a name. -/
def words : List String := ["array", "object", "enum"]

/-- How keys are put together. -/
inductive Spells (key : String) : Meaning → Prop
  /-- A name alone. -/
  | plain {name optional} (h : '(' ∉ key.toList) (hh : Heads key.toList name optional)
      (hn : name ≠ []) : Spells key (.property (String.ofList name) optional false)
  /-- A name, and a word in parentheses, perhaps with a description. -/
  | suffixed {head inside name optional word} (h : key.toList = head ++ '(' :: (inside ++ [')']))
      (hf : '(' ∉ head) (hh : Heads head name optional) (hn : name ≠ []) (hl : Leads inside word)
      (hw : word ∈ words) : Spells key (.property (String.ofList name) optional (word == "array"))
  /-- No name, and a star in parentheses. -/
  | wildcard {head inside optional} (h : key.toList = head ++ '(' :: (inside ++ [')']))
      (hf : '(' ∉ head) (hh : Heads head [] optional) (hl : Leads inside "*") :
      Spells key .wildcard

/-- What a key that was read says. -/
def Meaning.ofKey : Schema.Key → Meaning
  | .property name optional container _ => property name optional (container == some .array)
  | .wildcard _ => wildcard

lemma exists_container {word : String} (h : word ∈ words) :
    ∃ container, Schema.Container.ofName? word = some container := by
  simp only [words, List.mem_cons, List.not_mem_nil, or_false] at h
  rcases h with rfl | rfl | rfl
  · exact ⟨.array, rfl⟩
  · exact ⟨.object, rfl⟩
  · exact ⟨.enumeration, rfl⟩

lemma word_of_container {word : String} {container : Schema.Container}
    (h : Schema.Container.ofName? word = some container) :
    word ∈ words ∧ (some container == some .array) = (word == "array") := by
  rw [Schema.Container.ofName?.eq_def] at h
  split at h
  · obtain rfl := Option.some.inj h
    decide
  · obtain rfl := Option.some.inj h
    decide
  · obtain rfl := Option.some.inj h
    decide
  · cases h

/-- A key that is put together as it should be is read. -/
lemma Spells.read {key : String} {m : Meaning} (h : Spells key m) (path : String) :
    ∃ k, Schema.Key.read path key = .ok k ∧ .ofKey k = m := by
  cases h with
  | plain h hh hn =>
    refine ⟨.property _ _ none none, ?_, rfl⟩
    rw [Schema.Key.read, Text.cutAt?_eq_none h]
    dsimp only
    rw [heads_iff.mp hh]
    dsimp only
    rw [if_neg (by simpa using hn)]
    rfl
  | @suffixed head inside name optional word h hf hh hn hl hw =>
    rcases hs : Schema.splitDescription inside with ⟨kind, description⟩
    obtain rfl : kind = word := by rw [← leads_iff.mp hl, hs]
    have star : kind ≠ "*" := by
      rintro rfl
      exact absurd hw (by decide)
    obtain ⟨container, hc⟩ := exists_container hw
    refine ⟨.property (String.ofList name) optional (some container) description, ?_, ?_⟩
    · rw [Schema.Key.read, h, Text.cutAt?_append_cons hf]
      simp [heads_iff.mp hh, hs, star, hn, hc]
      rfl
    · rw [Meaning.ofKey, (word_of_container hc).2]
  | @wildcard head inside optional h hf hh hl =>
    rcases hs : Schema.splitDescription inside with ⟨kind, description⟩
    obtain rfl : kind = "*" := by rw [← leads_iff.mp hl, hs]
    refine ⟨.wildcard description, ?_, rfl⟩
    rw [Schema.Key.read, h, Text.cutAt?_append_cons hf]
    simp [heads_iff.mp hh, hs]
    rfl

/-- A key that was read is put together as it should be. -/
lemma spells_of_read {path key : String} {k : Schema.Key} (h : Schema.Key.read path key = .ok k) :
    Spells key (.ofKey k) := by
  rw [Schema.Key.read] at h
  cases hc : Text.cutAt? (· == '(') key.toList with
  | none =>
    rw [hc] at h
    rcases hr : Schema.readName key.toList with ⟨name, optional⟩
    dsimp only at h
    rw [hr] at h
    by_cases hn : name = []
    · subst hn
      cases h
    · dsimp only at h
      rw [if_neg (by simpa using hn)] at h
      obtain rfl := Except.ok.inj h
      exact .plain (Text.cutAt?_eq_none_iff.mp hc) (heads_iff.mpr hr) hn
  | some cut =>
    obtain ⟨head, rest⟩ := cut
    obtain ⟨hk, hf⟩ := Text.cutAt?_eq_some_iff.mp hc
    rw [hc] at h
    dsimp only at h
    by_cases hl : rest.getLast? = some ')'
    · obtain ⟨inside, rfl⟩ := List.getLast?_eq_some_iff.mp hl
      rcases hr : Schema.readName head with ⟨name, optional⟩
      rcases hs : Schema.splitDescription inside with ⟨kind, description⟩
      have leads : Leads inside kind := leads_iff.mpr (by rw [hs])
      have heads := heads_iff.mpr hr
      rw [List.dropLast_concat, hl, hr, hs] at h
      rw [if_neg (by simp)] at h
      dsimp only at h
      -- The star is looked for first, and then the name decides whether the key is well-formed.
      by_cases star : kind = "*"
      · subst star
        rw [if_pos rfl] at h
        by_cases hn : name = []
        · subst hn
          obtain rfl := Except.ok.inj h
          exact .wildcard hk hf heads leads
        · rw [if_pos (by simpa using hn)] at h
          cases h
      · rw [if_neg star] at h
        by_cases hn : name = []
        · subst hn
          cases h
        · rw [if_neg (by simpa using hn)] at h
          cases hw : Schema.Container.ofName? kind with
          | none =>
            rw [hw] at h
            cases h
          | some container =>
            rw [hw] at h
            obtain rfl := Except.ok.inj h
            obtain ⟨word, list⟩ := word_of_container hw
            rw [Meaning.ofKey, list]
            exact .suffixed hk hf heads hn leads word
    · rw [if_pos (by simpa using hl)] at h
      cases h

/-- **A key says what it spells**, and nothing else. -/
lemma spells_iff {path key : String} {k : Schema.Key} (h : Schema.Key.read path key = .ok k)
    {m : Meaning} : Spells key m ↔ m = .ofKey k := by
  constructor
  · intro hs
    obtain ⟨k', hk, rfl⟩ := hs.read path
    obtain rfl := Except.ok.inj (h.symm.trans hk)
    rfl
  · rintro rfl
    exact spells_of_read h

/-! ## Conformance -/

/-- The value is of the scalar type of a name.  A whole number is an integer however it is
written. -/
def OfScalar (name : String) (v : Json) : Prop :=
  match name with
  | "string" => ∃ s, v = .str s
  | "boolean" => ∃ b, v = .bool b
  | "null" => v = .null
  | "number" => ∃ n, v = .num n
  | "integer" => ∃ n, v = .num n ∧ n.isWhole = true
  | "any" => True
  | _ => False

/-- A list of values with a property, or a value with it. -/
def Elements (list : Bool) (P : Json → Prop) (v : Json) : Prop :=
  if list then ∃ vs, v = .arr vs ∧ ∀ w ∈ vs, P w else P v

/-- What is demanded of the member under a name, if there is one. -/
def OfMember (optional list : Bool) (P : Json → Prop) : Option Json → Prop
  | none => optional = true
  | some v => optional = true ∧ v = .null ∨ Elements list P v

/-- Some key names the property. -/
def Named (members : List (String × Json)) (name : String) : Prop :=
  ∃ m ∈ members, ∃ optional list, Spells m.1 (.property name optional list)

/-- Some key stands for all members that are not named. -/
def Open (members : List (String × Json)) : Prop := ∃ m ∈ members, Spells m.1 .wildcard

mutual

/-- **The value conforms to the picoschema.** -/
def Conforms : Json → Json → Prop
  | .str s, v => ∃ word, Leads s.toList word ∧ OfScalar word v
  | .arr values, v => ∃ w ∈ values, w.same v = true
  | .obj members, v => ∃ fields : Fields, v = .obj fields ∧
    ConformMembers (Named members) fields members ∧
    ∀ m ∈ fields, Named members m.1 ∨ Open members
  | _, _ => False
termination_by structural p => p

/-- The members of an object are what each key says: the member under the name of the key, or all
that no key names. -/
def ConformMembers (named : String → Prop) (fields : Fields) : List (String × Json) → Prop
  | [] => True
  | (key, p) :: rest =>
    (∀ name optional list, Spells key (.property name optional list) →
      OfMember optional list (Conforms p) (fields.get? name)) ∧
    (Spells key .wildcard → ∀ m ∈ fields, ¬named m.1 → Conforms p m.2) ∧
    ConformMembers named fields rest
termination_by structural members => members

end

lemma named_cons {key name : String} {p : Json} {rest : List (String × Json)} :
    Named ((key, p) :: rest) name ↔
      (∃ optional list, Spells key (.property name optional list)) ∨ Named rest name := by
  simp only [Named, List.mem_cons, or_and_right, exists_or, exists_eq_left]

lemma open_cons {key : String} {p : Json} {rest : List (String × Json)} :
    Open ((key, p) :: rest) ↔ Spells key .wildcard ∨ Open rest := by
  simp only [Open, List.mem_cons, or_and_right, exists_or, exists_eq_left]

/-! ## Sources without conflicts -/

/-- Two keys do not name the same property, and do not both stand for what is not named. -/
structure Apart (a b : String) : Prop where
  names : ∀ name optional list optional' list', Spells a (.property name optional list) →
    ¬Spells b (.property name optional' list')
  wildcards : Spells a .wildcard → ¬Spells b .wildcard

/-- The property that a key names, if it names one. -/
def Meaning.name? : Meaning → Option String
  | property name _ _ => some name
  | wildcard => none

/-- Keys that are read to name different properties are apart. -/
lemma apart_of_read {path a b : String} {k l : Schema.Key} (ha : Schema.Key.read path a = .ok k)
    (hb : Schema.Key.read path b = .ok l)
    (h : (Meaning.ofKey k).name? ≠ (Meaning.ofKey l).name?) : Apart a b where
  names name optional list optional' list' hk hl := h (by
    rw [← (spells_iff ha).mp hk, ← (spells_iff hb).mp hl]
    rfl)
  wildcards hk hl := h (by rw [← (spells_iff ha).mp hk, ← (spells_iff hb).mp hl])

mutual

/-- No map of the picoschema has two keys for the same property, or two wildcards. -/
def Distinct : Json → Prop
  | .obj members => members.Pairwise (fun a b => Apart a.1 b.1) ∧ DistinctMembers members
  | _ => True
termination_by structural p => p

def DistinctMembers : List (String × Json) → Prop
  | [] => True
  | (_, p) :: rest => Distinct p ∧ DistinctMembers rest
termination_by structural members => members

end

/-- Some key names the property, and its member has to be there. -/
def Required (members : List (String × Json)) (name : String) : Prop :=
  ∃ m ∈ members, ∃ list, Spells m.1 (.property name false list)

lemma required_cons {key name : String} {p : Json} {rest : List (String × Json)} :
    Required ((key, p) :: rest) name ↔
      (∃ list, Spells key (.property name false list)) ∨ Required rest name := by
  simp only [Required, List.mem_cons, or_and_right, exists_or, exists_eq_left]

/-- Exactly two properties are required. -/
def TwoRequired (members : List (String × Json)) : Prop :=
  ∃ a b, a ≠ b ∧ ∀ name, Required members name ↔ name = a ∨ name = b

mutual

/-- No map of the picoschema has a wildcard beside exactly two required properties. -/
def Unpaired : Json → Prop
  | .obj members => ¬(Open members ∧ TwoRequired members) ∧ UnpairedMembers members
  | _ => True
termination_by structural p => p

def UnpairedMembers : List (String × Json) → Prop
  | [] => True
  | (_, p) :: rest => Unpaired p ∧ UnpairedMembers rest
termination_by structural members => members

end

end Colloquy.Pico
