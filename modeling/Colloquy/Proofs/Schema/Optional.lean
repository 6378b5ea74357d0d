import Colloquy.Proofs.Schema.Levels
import Colloquy.Proofs.Schema.Missing

/-!
# Optional properties

An optional property may be null, and it may be missing.  Where the value of its key says all there
is to say, null is accepted without further ado.  A schema known by name may say more than its kind:
such keywords are written as they are, and null has to pass them as well (`LetsNullPass`).
-/

namespace Colloquy

/-! ## Keywords that let null pass -/

namespace JsonSchema

/-- The keyword demands nothing of null, or null satisfies it. -/
def PassesNull (c : Checker) (keyword : String) (arg : Json) : Prop :=
  match keyword with
  | "type" => "null" ∈ admitted arg
  | "enum" => ∀ values, arg = .arr values → .null ∈ values
  | "const" => arg = .null
  | "anyOf" => ∀ schemas, arg = .arr schemas → ∃ schema ∈ schemas, check c schema .null = []
  | "$ref" => ∀ target, arg = .str target → c.follow target .null = []
  | _ => True

lemma someHolds_iff {c : Checker} {v : Json} {schemas : List Json} :
    someHolds c v schemas = true ↔ ∃ schema ∈ schemas, check c schema v = [] := by
  induction schemas with
  | nil => simp [someHolds]
  | cons schema rest ih =>
    rw [someHolds, Bool.or_eq_true, ih, List.isEmpty_iff]
    simp only [List.mem_cons, or_and_right, exists_or, exists_eq_left]

/-- What bounds a number demands nothing of null. -/
lemma checkBound_null (arg : Json) (within : Ordering → Bool) (relation : String) :
    checkBound arg .null within relation = [] := by
  cases arg <;> rfl

/-- What bounds a size from below demands nothing of null. -/
lemma checkLeast_null (arg : Json) (verb one many : String) :
    checkLeast arg .null verb one many = [] := by
  rw [checkLeast]
  cases count? arg <;> rfl

/-- What bounds a size from above demands nothing of null. -/
lemma checkMost_null (arg : Json) (verb one many : String) :
    checkMost arg .null verb one many = [] := by
  rw [checkMost]
  cases count? arg <;> rfl

/-- A keyword without subschemas finds nothing wrong with null if it lets null pass. -/
lemma checkAssertion_null {c : Checker} {keyword : String} (h : keyword ∉ composite) (arg : Json) :
    checkAssertion keyword arg .null = [] ↔ PassesNull c keyword arg := by
  have same {v : Json} : v.same .null = true ↔ v = .null := by
    cases v <;> simp [Json.same]
  rw [checkAssertion.eq_def]
  split
  · rw [checkType, demand_eq_nil]
    simp [PassesNull, hasType]
  · cases arg with
    | arr values => simp [PassesNull, same]
    | _ => simp [PassesNull]
  · rw [demand_eq_nil, same]
    rfl
  iterate 4 exact iff_of_true (checkBound_null arg _ _) trivial
  iterate 3
    exact iff_of_true (checkLeast_null arg _ _ _) trivial
    exact iff_of_true (checkMost_null arg _ _ _) trivial
  · refine iff_of_true ?_ trivial
    cases arg with
    | bool b => cases b <;> rfl
    | _ => rfl
  · -- No other keyword is known, and those that hold schemas are not among these.
    refine iff_of_true rfl ?_
    rw [PassesNull.eq_def]
    split <;> simp_all [composite]

lemma checkKeyword_null {c : Checker} {around : Surroundings} (keyword : String) (arg : Json) :
    checkKeywords c around .null [(keyword, arg)] = [] ↔ PassesNull c keyword arg := by
  by_cases hm : keyword ∈ composite
  · simp only [composite, List.mem_cons, List.not_mem_nil, or_false] at hm
    rcases hm with rfl | rfl | rfl | rfl | rfl | rfl
    · refine iff_of_true ?_ trivial
      cases arg with
      | obj schemas => exact (Schema.checkKeywords_properties schemas).mpr fun _ he => (by cases he)
      | _ => rfl
    · refine iff_of_true ((checkKeywords_unlisted arg).mpr fun m hm => ?_) trivial
      cases hm
    · exact iff_of_true ((checkKeywords_items arg).mpr fun _ he => (by cases he)) trivial
    · cases arg with
      | arr schemas =>
        rw [checkKeywords, checkKeywords, List.append_nil, demand_eq_nil, someHolds_iff]
        simp [PassesNull]
      | _ => simp [PassesNull, checkKeywords]
    · cases arg with
      | str target =>
        rw [checkKeywords, checkKeywords, List.append_nil]
        simp [PassesNull]
      | _ => simp [PassesNull, checkKeywords]
    · refine iff_of_true ?_ trivial
      rw [checkKeywords, checkKeywords, List.append_nil]
      have none : checkRequired arg .null = [] := by cases arg <;> rfl
      rw [none, ite_self]
  · rw [checkKeywords_assertion hm, checkAssertion_null hm]

end JsonSchema

namespace Schema

open JsonSchema

/-! ## What is written beside the kind -/

/-- What the schema says beside its kind lets null pass. -/
def LetsNullPass (s : Schema) : Prop :=
  ∀ keyword arg, Table.get? s.extensions keyword = some arg →
    Table.has s.modelled keyword = false →
      PassesNull (checker false s.toJson (referenceLimit s.toJson .null)) keyword arg

/-- What is written of a schema finds nothing wrong with null if every keyword lets null pass. -/
lemma check_null_iff (c : Checker) (s : Schema) : check c s.toJson .null = [] ↔
    (∀ m ∈ s.modelled, PassesNull c m.1 m.2) ∧
      ∀ keyword arg, Table.get? s.extensions keyword = some arg →
        Table.has s.modelled keyword = false → PassesNull c keyword arg := by
  rw [toJson_eq_addMissing, check, checkKeywords_eq_nil_iff]
  simp only [mem_addMissing_iff, or_imp, forall_and, Prod.forall, checkKeyword_null]
  refine and_congr_right fun _ => forall₂_congr fun keyword arg => ?_
  tauto

lemma typeKeyword_passesNull (c : Checker) {kind : SchemaKind} {nullable : Bool}
    (h : nullable = true ∨ kind.typeName? = none) :
    ∀ m ∈ typeKeyword kind nullable, PassesNull c m.1 m.2 := by
  rw [typeKeyword]
  split
  · simp
  · rename_i name hn
    obtain rfl : nullable = true := h.resolve_right (by simp [hn])
    by_cases null : name = "null" <;> simp [null, PassesNull, admitted, Json.asString?]

lemma keywords_passesNull (c : Checker) {kind : SchemaKind}
    (h : ∀ values, kind = .enumeration values → .null ∈ values) :
    ∀ m ∈ keywords kind, PassesNull c m.1 m.2 := by
  cases kind with
  | array items => simp [keywords, PassesNull]
  | object properties additional =>
    rw [keywords, List.cons_append, List.forall_mem_cons, List.forall_mem_append]
    refine ⟨trivial, ?_, ?_⟩
    · rw [requiredKeyword]
      split <;> simp [PassesNull]
    · cases additional <;> simp [additionalKeyword, PassesNull]
  | enumeration values => simpa [keywords, PassesNull] using h values rfl
  | _ => simp [keywords]

/-- What was made to accept null is nullable, unless its kind has no type. -/
lemma acceptNull_nullable (s : Schema) :
    s.acceptNull.nullable = true ∨ s.acceptNull.kind.typeName? = none := by
  obtain ⟨kind, description, nullable, extensions⟩ := s
  cases kind with
  | enumeration values =>
    rw [acceptNull]
    dsimp only
    split <;> exact .inr rfl
  | any => exact .inr rfl
  | _ => exact .inl rfl

lemma mem_acceptNull_enumeration {s : Schema} {values : List Json}
    (h : s.acceptNull.kind = .enumeration values) : .null ∈ values := by
  obtain ⟨kind, description, nullable, extensions⟩ := s
  cases kind with
  | enumeration own =>
    rw [acceptNull] at h
    dsimp only at h
    split at h
    · rename_i hv
      obtain rfl := SchemaKind.enumeration.inj h
      exact List.contains_iff_mem.mp hv
    · obtain rfl := SchemaKind.enumeration.inj h
      exact List.mem_append_right _ List.mem_cons_self
  | _ => cases h

/-- What the kind of an optional property says lets null pass. -/
lemma modelled_passesNull (c : Checker) (s : Schema) :
    ∀ m ∈ s.acceptNull.modelled, PassesNull c m.1 m.2 := by
  have described : ∀ m ∈ descriptionKeyword s.acceptNull.description, PassesNull c m.1 m.2 := by
    cases s.acceptNull.description <;> simp [descriptionKeyword, PassesNull]
  rw [modelled, List.forall_mem_append, List.forall_mem_append]
  exact ⟨⟨typeKeyword_passesNull c (acceptNull_nullable s),
    keywords_passesNull c fun _ => mem_acceptNull_enumeration⟩, described⟩

/-- **An optional property is written to accept null**, as far as what is said beside its kind does,
if it is written as a valid schema. -/
lemma accepts_null_iff (s : Schema) : accepts s.acceptNull.toJson .null = true ↔
    (isValid s.acceptNull.toJson = true → s.acceptNull.LetsNullPass) := by
  rw [accepts_iff, violationsOf]
  split
  · rename_i valid
    rw [forall_prop_of_true valid, check_null_iff]
    exact and_iff_right (modelled_passesNull _ s)
  · rename_i valid
    exact iff_of_true rfl fun h => absurd h valid

lemma letsNullPass_of_no_extensions {s : Schema} (h : s.extensions = []) : s.LetsNullPass := by
  intro keyword arg ha
  rw [h] at ha
  cases ha

/-! ## Optional properties of a picoschema -/

open Pico

/-- The value of a key is the name of a schema, perhaps with a description. -/
def Refers (resolve : Resolver) (value : Json) (r : Schema) : Prop :=
  ∃ source word, value = .str source ∧ Leads source.toList word ∧
    scalars.lookup word = none ∧ resolve word = some r

section

variable {resolve : Resolver} {path : String} {value : Json} {s r : Schema}

lemma Refers.unique {r' : Schema} (h : Refers resolve value r) (h' : Refers resolve value r') :
    r = r' := by
  obtain ⟨source, word, rfl, hl, _, hr⟩ := h
  obtain ⟨source', word', he, hl', _, hr'⟩ := h'
  obtain rfl := Json.str.inj he
  rw [leads_iff] at hl hl'
  rw [← hl, hl'] at hr
  exact Option.some.inj (hr.symm.trans hr')

lemma describedBy_same (s : Schema) (description : Option String) :
    (s.describedBy description).kind = s.kind ∧
      (s.describedBy description).extensions = s.extensions := by
  cases description <;> exact ⟨rfl, rfl⟩

lemma acceptNull_same (s : Schema) : s.acceptNull.kind.typeName? = s.kind.typeName? ∧
    s.acceptNull.extensions = s.extensions := by
  obtain ⟨kind, description, nullable, extensions⟩ := s
  cases kind with
  | enumeration values =>
    rw [acceptNull]
    dsimp only
    split <;> exact ⟨rfl, rfl⟩
  | _ => exact ⟨rfl, rfl⟩

/-- A key that asks for no list leaves the schema of its value as it is. -/
lemma wrapIn_eq {container : Option Container} {d : Schema} (hc : container ≠ some .array)
    (h : wrapIn container path s = .ok d) : d = s := by
  rw [wrapIn.eq_def] at h
  split at h
  · exact absurd rfl hc
  · split at h
    · exact (Except.ok.inj h).symm
    · cases h
  · exact (Except.ok.inj h).symm

/-- Only a schema known by name says anything beside its kind. -/
lemma compileAt_cases (h : compileAt resolve path value = .ok s) :
    (∃ r, Refers resolve value r ∧ s.kind = r.kind ∧ s.extensions = r.extensions) ∨
      (∀ r, ¬Refers resolve value r) ∧ s.extensions = [] := by
  cases value with
  | str source =>
    rw [compileAt, ofScalar.eq_def] at h
    have leads : Leads source.toList (splitDescription source.toList).1 := leads_iff.mpr rfl
    dsimp only at h
    split at h
    · rename_i kind hk
      obtain rfl := Except.ok.inj h
      refine .inr ⟨?_, rfl⟩
      rintro r ⟨source', word, he, hl, hn, _⟩
      obtain rfl := Json.str.inj he
      rw [leads_iff.mp hl, hn] at hk
      cases hk
    · rename_i hn
      split at h
      · rename_i r hr
        obtain rfl := Except.ok.inj h
        obtain ⟨kind, extensions⟩ := describedBy_same r (splitDescription source.toList).2
        exact .inl ⟨r, ⟨source, _, rfl, leads, hn, hr⟩, kind, extensions⟩
      · cases h
  | arr values =>
    obtain rfl := Except.ok.inj h
    refine .inr ⟨?_, rfl⟩
    rintro r ⟨_, _, he, _⟩
    cases he
  | obj members =>
    obtain ⟨c, _, rfl⟩ := exists_of_compileAt_obj h
    refine .inr ⟨?_, rfl⟩
    rintro r ⟨_, _, he, _⟩
    cases he
  | _ => cases h

/-- What an optional property says beside its kind is what the schema known by name says, if the key
refers to one and asks for no list of it. -/
lemma extensions_of_optional {container : Option Container} {d : Schema} {list : Bool}
    (description : Option String) (hlist : (container == some .array) = list)
    (h : compileAt resolve path value = .ok s) (hw : wrapIn container path s = .ok d) :
    ((list = true ∨ ∀ r, ¬Refers resolve value r) →
      (d.describedBy description).acceptNull.extensions = []) ∧
    (list = false → ∀ r, Refers resolve value r →
      (d.describedBy description).acceptNull.extensions = r.extensions ∧
        (d.describedBy description).acceptNull.kind.typeName? = r.kind.typeName?) := by
  obtain ⟨type, extensions⟩ := acceptNull_same (d.describedBy description)
  obtain ⟨kind', extensions'⟩ := describedBy_same d description
  rw [extensions, extensions', type, kind']
  by_cases ha : container = some .array
  · subst ha hlist
    obtain rfl := Except.ok.inj hw
    exact ⟨fun _ => rfl, fun single => by cases single⟩
  · obtain rfl : list = false := by
      rw [← hlist]
      simpa using ha
    obtain rfl : d = s := wrapIn_eq ha hw
    rcases compileAt_cases h with ⟨r, hr, kind, own⟩ | ⟨none, own⟩
    · refine ⟨fun free => absurd hr (free.resolve_left Bool.false_ne_true r), fun _ r' hr' => ?_⟩
      obtain rfl := hr.unique hr'
      exact ⟨own, by rw [kind]⟩
    · exact ⟨fun _ => own, fun _ r hr => absurd hr (none r)⟩

end

/-- What is known of an optional property of an object, from the value of its key and from whether
the key asks for lists. -/
structure IsOptional (resolve : Resolver) (value : Json) (list : Bool) (t : Schema)
    (q : Property) : Prop where
  optional : q.optional = true
  /-- Null is accepted, unless the key refers to a schema and asks for no list of it. -/
  null : (list = true ∨ ∀ r, ¬Refers resolve value r) → accepts q.schema.toJson .null = true
  /-- A schema that the key refers to says all that it says beside its kind of the property too, and
  null is accepted exactly if it passes. -/
  named : list = false → ∀ r, Refers resolve value r →
    q.schema.extensions = r.extensions ∧ q.schema.kind.typeName? = r.kind.typeName? ∧
      (accepts q.schema.toJson .null = true ↔
        (isValid q.schema.toJson = true → q.schema.LetsNullPass))
  /-- Objects without the property are accepted with any other schema for it, if no references lead
  there. -/
  missing : ∀ u o, o.get? q.name = none → isValid t.toJson = true →
    isValid (t.setProperty q.name u).toJson = true →
    Shuns (t.setProperty q.name any).toJson ["properties", q.name] →
      accepts (t.setProperty q.name u).toJson o = accepts t.toJson o

/-- A text or a number, and the schema that is read from this. -/
def textOrNumber : Json := .obj [("type", .arr [.str "string", .str "number"])]

def textOrNumberSchema : Schema :=
  { ofKind .any with extensions := [("type", .arr [.str "string", .str "number"])] }

/-- What is also the type of the property `id`. -/
def asId : Json :=
  .obj [("type", .arr [.str "string", .str "number"]), ("$ref", .str "#/properties/id")]

def asIdSchema : Schema :=
  { ofKind .any with extensions :=
      [("$ref", .str "#/properties/id"), ("type", .arr [.str "string", .str "number"])] }

/-- The resolver that knows these two. -/
def idNames : Resolver := fun name =>
  if name = "Id" then some textOrNumberSchema
  else if name = "AsId" then some asIdSchema
  else none

/-- Someone with an id, perhaps, and with others that are used as well. -/
def person : Json := .obj [("id?", .str "Id"), ("aliases?(array)", .str "Id")]

def personSchema : Schema := ofKind (.object
  [⟨"id", textOrNumberSchema, true⟩, ⟨"aliases", acceptNull (array textOrNumberSchema), true⟩]
  .disallowed)

end Schema

end Colloquy
