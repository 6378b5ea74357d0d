import Colloquy.Proofs.Schema.Checking
import Colloquy.Proofs.Schema.Meaning
import Colloquy.Proofs.Table

/-!
# Schemas written as JSON Schema

The JSON Schema that is written for a regular schema is a valid one, and a value satisfies it
exactly if the schema admits the value.  Its keywords are written in a row, so what each of them
demands is found separately, and only `additionalProperties` and `required` have to know of the
others.
-/

namespace Colloquy

namespace Schema

open JsonSchema

/-- The keyword `description`, left out when there is none. -/
def descriptionKeyword : Option String → Fields
  | some d => [("description", .str d)]
  | none => []

lemma toJson_eq (kind : SchemaKind) (description : Option String) (nullable : Bool) :
    toJson ⟨kind, description, nullable, []⟩ = .obj
      (typeKeyword kind nullable ++ keywords kind ++ descriptionKeyword description) := by
  cases description <;> rfl

lemma toJson_ne_bool (s : Schema) (b : Bool) : s.toJson ≠ .bool b := by
  obtain ⟨kind, description, nullable, extensions⟩ := s
  exact Json.noConfusion

lemma propertyMembers_eq_map (properties : List Property) :
    propertyMembers properties = properties.map fun p => (p.name, p.schema.toJson) := by
  induction properties with
  | nil => rfl
  | cons p rest ih =>
    obtain ⟨name, schema, optional⟩ := p
    rw [propertyMembers, List.map_cons, ih]

lemma propertyMembers_keys (properties : List Property) :
    Table.keys (propertyMembers properties) = properties.map Property.name := by
  rw [propertyMembers_eq_map, Table.keys, List.map_map]
  rfl

section

variable {c : Checker} {around : Surroundings} {v : Json}

/-- The keyword `type` demands a value of the type, or null if that will do as well. -/
lemma checkKeywords_type (kind : SchemaKind) (nullable : Bool) :
    checkKeywords c around v (typeKeyword kind nullable) = [] ↔
      ∀ name, kind.typeName? = some name →
        hasType name v = true ∨ nullable = true ∧ v = .null := by
  have admits (arg : Json) : checkKeywords c around v [("type", arg)] = [] ↔
      (admitted arg).any (fun n => hasType n v) = true := by
    rw [checkKeywords_assertion (by decide)]
    exact demand_eq_nil
  rw [typeKeyword]
  cases kind.typeName? with
  | none => simp [checkKeywords]
  | some name =>
    dsimp only
    split
    · rename_i hn
      rw [Bool.and_eq_true] at hn
      rw [admits]
      simp [admitted, hasType_null_iff, hn.1, Json.asString?]
    · rename_i hn
      have only : nullable = true ∧ v = .null → hasType name v = true := by
        rintro ⟨rfl, rfl⟩
        simpa [hasType] using hn
      rw [admits]
      simp [admitted]
      tauto

lemma checkKeywords_description (description : Option String) :
    checkKeywords c around v (descriptionKeyword description) = [] := by
  cases description with
  | none => rfl
  | some d =>
    rw [descriptionKeyword, checkKeywords_assertion (by decide)]
    rfl

/-- The keyword `required` demands the properties that are not optional. -/
lemma checkKeywords_required (hl : around.lenient = false) (properties : List Property) :
    checkKeywords c around v (requiredKeyword properties) = [] ↔
      ∀ fields : Fields, v = .obj fields →
        ∀ name ∈ requiredOf properties, fields.has name = true := by
  have demanded (names : List String) : checkRequired (.arr (names.map .str)) v = [] ↔
      ∀ fields : Fields, v = .obj fields → ∀ name ∈ names, fields.has name = true := by
    cases v with
    | obj fields => simp [checkRequired, List.filterMap_map, Json.asString?, Function.comp_def]
    | _ => simp [checkRequired]
  rw [requiredKeyword]
  cases hr : requiredOf properties with
  | nil => simp [checkKeywords]
  | cons name names =>
    rw [← demanded (name :: names), checkKeywords, checkKeywords, List.append_nil]
    show (if around.lenient = true then [] else checkRequired _ v) = [] ↔ _
    rw [hl]
    rfl

lemma checkKeywords_properties (schemas : Fields) :
    checkKeywords c around v [("properties", .obj schemas)] = [] ↔
      ∀ fields : Fields, v = .obj fields →
        ∀ m ∈ schemas, ∀ w, fields.get? m.1 = some w → check c m.2 w = [] := by
  rw [checkKeywords, checkKeywords, List.append_nil, checkMembers_eq_nil]
  cases v with
  | obj fields => simp [Json.get?]
  | _ => simp [Json.get?]

/-- The keyword `additionalProperties` demands something of the members that are not listed. -/
lemma checkKeywords_additional {listed : Fields} (hp : around.properties = some listed)
    (additional : Additional) (ih : ∀ schema, additional = .typed schema →
      ∀ w, check c schema.toJson w = [] ↔ schema.Admits w) :
    checkKeywords c around v (additionalKeyword additional) = [] ↔
      ∀ fields : Fields, v = .obj fields →
        additional.Admits (fields.filter fun m => !listed.has m.1) := by
  have others (P : Fields → Prop) (hn : P []) : P (unlisted (some listed) v) ↔
      ∀ fields : Fields, v = .obj fields → P (fields.filter fun m => !listed.has m.1) := by
    cases v with
    | obj fields =>
      rw [unlisted_obj]
      exact ⟨fun h _ hf => by rwa [← Json.obj.inj hf], fun h => h fields rfl⟩
    | _ => exact ⟨fun _ _ hf => (by cases hf), fun _ => hn⟩
  cases additional with
  | disallowed =>
    rw [additionalKeyword, checkKeywords, checkKeywords, List.append_nil, if_pos rfl, hp,
      checkClosed_eq_nil]
    exact others (· = []) rfl
  | allowed => simp [additionalKeyword, checkKeywords, Additional.Admits]
  | typed schema =>
    have demanded : checkKeywords c around v (additionalKeyword (.typed schema)) = [] ↔
        ∀ m ∈ unlisted (some listed) v, schema.Admits m.2 := by
      rw [additionalKeyword, checkKeywords, checkKeywords, List.append_nil,
        if_neg (toJson_ne_bool schema false), hp, List.flatMap_eq_nil_iff]
      simp only [List.map_eq_nil_iff, ih schema rfl]
    rw [demanded]
    exact others (fun os => ∀ m ∈ os, schema.Admits m.2) fun m hm => absurd hm List.not_mem_nil

/-! ## The keywords of an object -/

/-- The keywords of a kind are found among those of a schema. -/
lemma get?_keywords (kind : SchemaKind) (nullable : Bool) (description : Option String)
    {key : String} (ht : key ≠ "type") (hd : key ≠ "description") :
    Table.get? (typeKeyword kind nullable ++ keywords kind ++ descriptionKeyword description)
      key = Table.get? (keywords kind) key := by
  have before : Table.get? (typeKeyword kind nullable) key = none := by
    rw [typeKeyword]
    split
    · rfl
    · split <;> rw [Table.get?_cons, if_neg ht] <;> rfl
  have after : Table.get? (descriptionKeyword description) key = none := by
    cases description with
    | none => rfl
    | some d => rw [descriptionKeyword, Table.get?_cons, if_neg hd]; rfl
  rw [Table.get?_append, Table.get?_append, before, after, Option.none_or, Option.or_none]

variable {properties : List Property} {additional : Additional} {description : Option String}
  {nullable : Bool}

lemma surroundings_properties :
    (c.surroundings (typeKeyword (.object properties additional) nullable ++
      keywords (.object properties additional) ++ descriptionKeyword description)).properties =
      some (Table.ofList (propertyMembers properties)) := by
  rw [Checker.surroundings, get?_keywords _ _ _ (by decide) (by decide)]
  rfl

lemma get?_additional :
    Table.get? (keywords (.object properties additional)) "additionalProperties" =
      Table.get? (additionalKeyword additional) "additionalProperties" := by
  rw [keywords, List.cons_append, Table.get?_cons, if_neg (by decide), Table.get?_append,
    requiredKeyword]
  cases requiredOf properties with
  | nil => rfl
  | cons name names => rfl

lemma get?_required :
    Table.get? (keywords (.object properties additional)) "required" =
      Table.get? (requiredKeyword properties) "required" := by
  have others : Table.get? (additionalKeyword additional) "required" = none := by
    cases additional <;> rfl
  rw [keywords, List.cons_append, Table.get?_cons, if_neg (by decide), Table.get?_append, others,
    Option.or_none]

/-- The required names of an object are demanded unless it is paired. -/
lemma surroundings_lenient (h : c.strict = true ∨ ¬Paired properties additional) :
    (c.surroundings (typeKeyword (.object properties additional) nullable ++
      keywords (.object properties additional) ++ descriptionKeyword description)).lenient =
      false := by
  rcases h with hs | hp
  · rw [Checker.surroundings, hs]
    rfl
  · rw [Checker.surroundings]
    dsimp only
    rw [pairBesideSchema, get?_keywords _ _ _ (by decide) (by decide),
      get?_keywords _ _ _ (by decide) (by decide), get?_keywords _ _ _ (by decide) (by decide),
      get?_additional, get?_required]
    cases additional with
    | disallowed => simp [additionalKeyword, Table.get?, Json.isObject]
    | allowed => simp [additionalKeyword, Table.get?]
    | typed schema =>
      have length : (requiredOf properties).length ≠ 2 := fun hl => hp ⟨⟨schema, rfl⟩, hl⟩
      rw [requiredKeyword]
      cases hr : requiredOf properties with
      | nil => simp [Table.get?]
      | cons name names =>
        rw [hr] at length
        simp [Table.get?, Json.asArray?] at length ⊢
        simp [length]

end

/-! ## What is satisfied -/

/-- A value of a kind has the type of that name. -/
lemma hasType_of_admits {kind : SchemaKind} {v : Json} (h : kind.Admits v) {name : String}
    (hn : kind.typeName? = some name) : hasType name v = true := by
  cases kind with
  | any => cases hn
  | enumeration values => cases hn
  | string =>
    obtain ⟨s, rfl⟩ := h
    obtain rfl := Option.some.inj hn
    rfl
  | number =>
    obtain ⟨n, rfl⟩ := h
    obtain rfl := Option.some.inj hn
    simp [hasType]
  | integer =>
    obtain ⟨n, rfl, whole⟩ := h
    obtain rfl := Option.some.inj hn
    simp [hasType, whole]
  | boolean =>
    obtain ⟨b, rfl⟩ := h
    obtain rfl := Option.some.inj hn
    rfl
  | null =>
    obtain rfl := h
    obtain rfl := Option.some.inj hn
    rfl
  | array items =>
    obtain ⟨vs, rfl, _⟩ := h
    obtain rfl := Option.some.inj hn
    rfl
  | object properties additional =>
    obtain ⟨fields, rfl, _⟩ := h
    obtain rfl := Option.some.inj hn
    rfl

/-- Only the kind of null has the type of null. -/
lemma admits_null {kind : SchemaKind} {name : String} (hn : kind.typeName? = some name)
    (h : hasType name .null = true) : kind.Admits .null := by
  cases kind with
  | null => rfl
  | any => trivial
  | enumeration values => cases hn
  | _ =>
    obtain rfl := Option.some.inj hn
    exact absurd h (by decide)

/-- A schema is satisfied when the value is of its type and, in that case, of its kind. -/
lemma admits_iff {kind : SchemaKind} {description : Option String} {nullable : Bool}
    {extensions : Fields} {v : Json} :
    Schema.Admits ⟨kind, description, nullable, extensions⟩ v ↔
      (∀ name, kind.typeName? = some name →
        hasType name v = true ∨ nullable = true ∧ v = .null) ∧
      ((∀ name, kind.typeName? = some name → hasType name v = true) → kind.Admits v) := by
  rw [Schema.Admits]
  -- Only `type` lets null pass, so the other keywords come to bear on values of the type alone.
  constructor
  · rintro (⟨hn, hs, rfl⟩ | h)
    · refine ⟨fun _ _ => .inr ⟨hn, rfl⟩, fun typed => ?_⟩
      obtain ⟨name, hname⟩ := Option.isSome_iff_exists.mp hs
      exact admits_null hname (typed name hname)
    · exact ⟨fun name hname => .inl (hasType_of_admits h hname), fun _ => h⟩
  · rintro ⟨typed, admitted⟩
    cases hk : kind.typeName? with
    | none => exact .inr (admitted fun name hname => by cases hk.symm.trans hname)
    | some name =>
      rcases typed name hk with ht | ⟨hn, hv⟩
      · refine .inr (admitted fun name' hname => ?_)
        obtain rfl := Option.some.inj (hk.symm.trans hname)
        exact ht
      · exact .inl ⟨hn, rfl, hv⟩

/-- The members that no property names are those that the keyword `properties` does not list. -/
lemma filter_unlisted (properties : List Property) (fields : Fields) :
    (fields.filter fun m => !Table.has (propertyMembers properties) m.1) =
      fields.filter fun m => !(properties.map Property.name).contains m.1 := by
  refine List.filter_congr fun m _ => congrArg Bool.not (Bool.eq_iff_iff.mpr ?_)
  rw [Table.has_iff_mem_keys, propertyMembers_keys, List.contains_iff_mem]

/-- What the keywords of an object demand together, when those inside it demand what they should. -/
lemma checkKeywords_object {c : Checker} {around : Surroundings} {properties : List Property}
    {additional : Additional} (distinct : (properties.map Property.name).Nodup)
    (hp : around.properties = some (Table.ofList (propertyMembers properties)))
    (hl : around.lenient = false)
    (members : ∀ fields : Fields, (∀ m ∈ propertyMembers properties, ∀ w,
      fields.get? m.1 = some w → check c m.2 w = []) ↔ AdmitMembers properties fields)
    (others : ∀ schema, additional = .typed schema →
      ∀ w, check c schema.toJson w = [] ↔ schema.Admits w) (v : Json) :
    checkKeywords c around v (keywords (.object properties additional)) = [] ↔
      ∀ fields : Fields, v = .obj fields →
        SchemaKind.Admits (.object properties additional) (.obj fields) := by
  have own : Table.ofList (propertyMembers properties) = propertyMembers properties := by
    refine Table.ofList_eq_self ?_
    rwa [propertyMembers_keys]
  rw [own] at hp
  rw [keywords, own, List.cons_append, checkKeywords_cons, checkKeywords_append,
    List.append_eq_nil_iff, List.append_eq_nil_iff, checkKeywords_properties,
    checkKeywords_required hl, checkKeywords_additional hp additional others]
  constructor
  · rintro ⟨hm, hr, ha⟩ fields rfl
    have rest := ha fields rfl
    rw [filter_unlisted] at rest
    exact ⟨fields, rfl, hr fields rfl, (members fields).mp (hm fields rfl), rest⟩
  · intro h
    refine ⟨fun fields hv => ?_, fun fields hv => ?_, fun fields hv => ?_⟩
    all_goals
      obtain ⟨fields', he, hr, hm, ha⟩ := h fields hv
      obtain rfl := Json.obj.inj he
    · exact (members fields).mpr hm
    · exact hr
    · rwa [filter_unlisted]

mutual

/-- **The JSON Schema of a regular schema is satisfied by what the schema admits.** -/
theorem check_toJson (c : Checker) :
    (s : Schema) → s.Regular c.strict → ∀ v, check c s.toJson v = [] ↔ s.Admits v
  | ⟨kind, description, nullable, extensions⟩, h, v => by
    obtain ⟨rfl, regular⟩ := h
    have demanded := checkKeywords_kind c kind regular description nullable v
    rw [toJson_eq, check, checkKeywords_append, checkKeywords_append, checkKeywords_description,
      List.append_nil, List.append_eq_nil_iff, checkKeywords_type, demanded, admits_iff]

/-- A value of the type of a kind has to be of the kind. -/
theorem checkKeywords_kind (c : Checker) : (kind : SchemaKind) → kind.Regular c.strict →
    ∀ (description : Option String) (nullable : Bool) (v : Json),
    checkKeywords c (c.surroundings
      (typeKeyword kind nullable ++ keywords kind ++ descriptionKeyword description)) v
      (keywords kind) = [] ↔
    ((∀ name, kind.typeName? = some name → hasType name v = true) → kind.Admits v)
  | .any, _, _, _, _ => by simp [keywords, checkKeywords, SchemaKind.Admits]
  | .string, _, _, _, v => by
    cases v <;> simp [keywords, checkKeywords, SchemaKind.Admits, SchemaKind.typeName?, hasType]
  | .number, _, _, _, v => by
    cases v <;> simp [keywords, checkKeywords, SchemaKind.Admits, SchemaKind.typeName?, hasType]
  | .integer, _, _, _, v => by
    cases v <;> simp [keywords, checkKeywords, SchemaKind.Admits, SchemaKind.typeName?, hasType]
  | .boolean, _, _, _, v => by
    cases v <;> simp [keywords, checkKeywords, SchemaKind.Admits, SchemaKind.typeName?, hasType]
  | .null, _, _, _, v => by
    cases v <;> simp [keywords, checkKeywords, SchemaKind.Admits, SchemaKind.typeName?, hasType]
  | .enumeration values, _, _, _, v => by
    rw [keywords, checkKeywords_assertion (by decide)]
    show demand _ _ = [] ↔ _
    simp [SchemaKind.Admits, SchemaKind.typeName?]
  | .array items, h, _, _, v => by
    have each := check_toJson c items h
    rw [keywords, checkKeywords_items]
    cases v with
    | arr vs => simp [SchemaKind.Admits, SchemaKind.typeName?, hasType, each]
    | _ => simp [SchemaKind.Admits, SchemaKind.typeName?, hasType]
  | .object properties additional, h, description, nullable, v => by
    obtain ⟨distinct, unpaired, hp, ha⟩ := h
    have members := check_propertyMembers c properties hp
    have others := check_additional c additional ha
    rw [checkKeywords_object distinct surroundings_properties (surroundings_lenient unpaired)
      members others]
    cases v with
    | obj fields => simp [SchemaKind.typeName?, hasType]
    | _ => simp [SchemaKind.typeName?, hasType]

theorem check_propertyMembers (c : Checker) : (properties : List Property) →
    RegularProperties c.strict properties → ∀ fields : Fields,
    (∀ m ∈ propertyMembers properties, ∀ w, fields.get? m.1 = some w → check c m.2 w = []) ↔
      AdmitMembers properties fields
  | [], _, _ => by simp [propertyMembers, AdmitMembers]
  | ⟨name, schema, _⟩ :: rest, h, fields => by
    have first := check_toJson c schema h.1
    have others := check_propertyMembers c rest h.2 fields
    simp [propertyMembers, AdmitMembers, ← others, ← first]

theorem check_additional (c : Checker) : (additional : Additional) →
    additional.Regular c.strict → ∀ schema, additional = .typed schema →
    ∀ w, check c schema.toJson w = [] ↔ schema.Admits w
  | .typed schema, h, schema', he, w => by
    obtain rfl := Additional.typed.inj he
    exact check_toJson c schema h w

end

/-! ## Validity -/

lemma areKeywords_type (resolves : String → Bool) (kind : SchemaKind) (nullable : Bool) :
    areKeywords resolves (typeKeyword kind nullable) = true := by
  cases kind with
  | any => rfl
  | enumeration values => rfl
  | _ => cases nullable <;> rfl

lemma areKeywords_description (resolves : String → Bool) (description : Option String) :
    areKeywords resolves (descriptionKeyword description) = true := by
  cases description with
  | none => rfl
  | some d => rfl

lemma distinct_map_str {names : List String} :
    distinct (names.map .str) = true ↔ names.Nodup := by
  induction names with
  | nil => exact iff_of_true rfl List.nodup_nil
  | cons name names ih =>
    have again : (names.map Json.str).any (Json.same (.str name)) = true ↔ name ∈ names := by
      have same (other : String) : (Json.str name).same (.str other) = true ↔ name = other := by
        simp [Json.same]
      rw [List.any_map, List.any_eq_true]
      simp only [Function.comp_apply, same, exists_eq_right']
    rw [List.map_cons, distinct, Bool.and_eq_true, ih, List.nodup_cons, ← again,
      Bool.not_eq_true', Bool.not_eq_true]

lemma isNameList_map_str {names : List String} :
    isNameList (.arr (names.map .str)) = true ↔ names.Nodup := by
  simp [isNameList, Json.asString?, distinct_map_str]

lemma areKeywords_required (resolves : String → Bool) {properties : List Property}
    (h : (properties.map Property.name).Nodup) :
    areKeywords resolves (requiredKeyword properties) = true := by
  have names := requiredOf_nodup h
  rw [requiredKeyword]
  cases hr : requiredOf properties with
  | nil => rfl
  | cons name rest =>
    rw [hr] at names
    show (isNameList (.arr ((name :: rest).map .str)) && true) = true
    rw [isNameList_map_str.mpr names, Bool.and_true]

mutual

/-- **A regular schema is written as a valid JSON Schema.** -/
theorem isSchema_toJson (resolves : String → Bool) {strict : Bool} :
    (s : Schema) → s.Regular strict → isSchema resolves s.toJson = true
  | ⟨kind, description, nullable, extensions⟩, h => by
    obtain ⟨rfl, regular⟩ := h
    rw [toJson_eq, isSchema, areKeywords_append, areKeywords_append, areKeywords_type,
      areKeywords_kind resolves kind regular, areKeywords_description]
    rfl

theorem areKeywords_kind (resolves : String → Bool) {strict : Bool} :
    (kind : SchemaKind) → kind.Regular strict → areKeywords resolves (keywords kind) = true
  | .any, _ => rfl
  | .string, _ => rfl
  | .number, _ => rfl
  | .integer, _ => rfl
  | .boolean, _ => rfl
  | .null, _ => rfl
  | .enumeration values, _ => rfl
  | .array items, h => by
    have each := isSchema_toJson resolves items h
    show (isSchema resolves items.toJson && true) = true
    rw [each, Bool.and_true]
  | .object properties additional, h => by
    obtain ⟨distinct, _, hp, ha⟩ := h
    have own : Table.ofList (propertyMembers properties) = propertyMembers properties := by
      refine Table.ofList_eq_self ?_
      rwa [propertyMembers_keys]
    have members := areMemberSchemas_propertyMembers resolves properties hp
    have required := areKeywords_required resolves distinct
    have others := areKeywords_additional resolves additional ha
    rw [keywords, own, List.cons_append, areKeywords_cons, areKeywords_append, required, others,
      Bool.and_true, Bool.and_true]
    show (areMemberSchemas resolves (propertyMembers properties) && true) = true
    rw [members, Bool.and_true]

theorem areMemberSchemas_propertyMembers (resolves : String → Bool) {strict : Bool} :
    (properties : List Property) → RegularProperties strict properties →
    areMemberSchemas resolves (propertyMembers properties) = true
  | [], _ => rfl
  | ⟨name, schema, _⟩ :: rest, h => by
    have first := isSchema_toJson resolves schema h.1
    have others := areMemberSchemas_propertyMembers resolves rest h.2
    simp [propertyMembers, areMemberSchemas, first, others]

theorem areKeywords_additional (resolves : String → Bool) {strict : Bool} :
    (additional : Additional) → additional.Regular strict →
    areKeywords resolves (additionalKeyword additional) = true
  | .disallowed, _ => rfl
  | .allowed, _ => rfl
  | .typed schema, h => by
    have inside := isSchema_toJson resolves schema h
    show (isSchema resolves schema.toJson && true) = true
    rw [inside, Bool.and_true]

end

/-- What is wrong with a value under a regular schema is nothing exactly if the schema admits it. -/
theorem violationsOf_toJson {strict : Bool} {s : Schema} (h : s.Regular strict) (v : Json) :
    violationsOf strict s.toJson v = [] ↔ s.Admits v := by
  have valid : isValid s.toJson = true := isSchema_toJson _ s h
  have strictness : ∀ fuel, (checker strict s.toJson fuel).strict = strict := by
    intro fuel
    cases fuel <;> rfl
  rw [violationsOf, if_pos valid]
  exact check_toJson _ s (by rwa [strictness]) v

end Schema

end Colloquy
