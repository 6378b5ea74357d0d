import Colloquy.Proofs.Schema.Checking
import Colloquy.Proofs.Schema.Reading
import Mathlib.Data.Set.List

/-!
# Rows of keywords

A JSON Schema is a row of keywords, and so is what is written again of a schema that was read from
one.  Of the keywords that are not taken apart both rows hold the same, so they demand the same of a
value if they do as to its type and, where it is of this type, as to the keywords of the kind.
-/

namespace Colloquy.Schema

open JsonSchema

variable {c c' : Checker} {fields : Fields} {v : Json}

/-! ## Keywords of a row -/

/-- What the keyword demands, if it is there. -/
def Demands (c : Checker) (fields : Fields) (v : Json) (key : String) : Prop :=
  ∀ arg, fields.get? key = some arg → checkKeywords c (c.surroundings fields) v [(key, arg)] = []

lemma demands_of_none {key : String} (h : fields.get? key = none) : Demands c fields v key := by
  intro arg ha
  rw [h] at ha
  cases ha

lemma demands_iff_of_some {key : String} {arg : Json} (h : fields.get? key = some arg) :
    Demands c fields v key ↔ checkKeywords c (c.surroundings fields) v [(key, arg)] = [] := by
  constructor
  · intro demands
    exact demands arg h
  · intro hc arg' ha
    rwa [Option.some.inj (ha.symm.trans h)]

lemma demands_description : Demands c fields v "description" := by
  intro arg _
  rw [checkKeywords_assertion (by decide)]
  rfl

/-- A row demands what its keywords demand, those that are taken apart and the others. -/
lemma check_obj_iff (distinct : fields.keys.Nodup) :
    check c (.obj fields) v = [] ↔ (∀ key ∈ modelledKeywords, Demands c fields v key) ∧
      checkKeywords c (c.surroundings fields) v (unmodelled fields) = [] := by
  rw [check, checkKeywords_eq_nil_iff, checkKeywords_eq_nil_iff]
  constructor
  · intro h
    exact ⟨fun key _ arg ha => h _ (Table.mem_of_get? ha),
      fun m hm => h m (List.mem_of_mem_filter hm)⟩
  · rintro ⟨modelled, others⟩ m hm
    by_cases hk : m.1 ∈ modelledKeywords
    · exact modelled m.1 hk m.2 (Table.get?_of_mem distinct hm)
    · exact others m (List.mem_filter.mpr ⟨hm, by simpa using hk⟩)

/-- Only two keywords have to know of others. -/
lemma checkKeywords_around {keyword : String} (ha : keyword ≠ "additionalProperties")
    (hr : keyword ≠ "required") (around around' : Surroundings) (arg : Json) :
    checkKeywords c around v [(keyword, arg)] = checkKeywords c around' v [(keyword, arg)] := by
  by_cases hm : keyword ∈ composite
  · simp only [composite, List.mem_cons, List.not_mem_nil, or_false] at hm
    rcases hm with rfl | rfl | rfl | rfl | rfl | rfl
    · rfl
    · exact absurd rfl ha
    · rfl
    · rfl
    · rfl
    · exact absurd rfl hr
  · rw [checkKeywords_assertion hm, checkKeywords_assertion hm]

/-- Extensions demand the same in every row. -/
lemma checkKeywords_unmodelled (h : c.Agrees (references (.obj fields)) c')
    (around around' : Surroundings) :
    checkKeywords c' around' v (unmodelled fields) = [] ↔
      checkKeywords c around v (unmodelled fields) = [] := by
  have moved (c : Checker) : checkKeywords c around' v (unmodelled fields) = [] ↔
      checkKeywords c around v (unmodelled fields) = [] := by
    rw [checkKeywords_eq_nil_iff, checkKeywords_eq_nil_iff]
    refine forall₂_congr fun m hm => ?_
    have other : m.1 ∉ modelledKeywords := keys_unmodelled (List.mem_map_of_mem hm)
    have ha : m.1 ≠ "additionalProperties" := fun he => other (he ▸ by decide)
    have hr : m.1 ≠ "required" := fun he => other (he ▸ by decide)
    rw [checkKeywords_around ha hr around' around]
  have own : c.Agrees (references (.obj (unmodelled fields))) c' :=
    h.mono (references_subset (List.filter_subset_self _))
  rw [moved]
  exact ⟨checkKeywords_of_covers _ v (own.symm.covers _) ⟨rfl, id⟩,
    checkKeywords_of_covers _ v (own.covers _) ⟨rfl, id⟩⟩

/-! ## Rows that are written -/

variable {kind : SchemaKind} {nullable : Bool}

/-- The type that is kept for a kind without one. -/
lemma mem_keys_entry {key : String}
    (h : key ∈ (if kind.typeName?.isNone then typeEntry fields else [] : Fields).keys) :
    key = "type" := by
  split at h
  · exact eq_of_mem_typeEntry h
  · cases h

/-- What the kind says stands in the row, and nothing else under the same keywords. -/
lemma get?_written {key : String} (hk : key ∈ kindKeywords) :
    (written kind nullable fields).get? key = (keywords kind).get? key := by
  have apart : ∀ key ∈ kindKeywords,
      key ∈ modelledKeywords ∧ key ≠ "type" ∧ key ≠ "description" := by decide
  obtain ⟨modelled, ht, hd⟩ := apart key hk
  have others : (unmodelled fields).get? key = none :=
    Table.get?_eq_none fun h => keys_unmodelled h modelled
  have entry : (if kind.typeName?.isNone then typeEntry fields else [] : Fields).get? key =
      none := Table.get?_eq_none fun h => ht (mem_keys_entry h)
  rw [written, Table.get?_append, Table.get?_append (unmodelled fields), others, entry,
    Option.or_none, Option.or_none, get?_keywords kind nullable _ ht hd]

/-- Extensions stand in a row as they stood in the one that was read. -/
lemma get?_extension {key : String} (hk : key ∉ modelledKeywords) :
    (written kind nullable fields).get? key = fields.get? key := by
  have modelled : Table.get? (typeKeyword kind nullable ++ keywords kind ++
      descriptionKeyword ((fields.get? "description").bind Json.asString?)) key = none :=
    Table.get?_eq_none fun h => hk (keys_modelled h).1
  have entry : (if kind.typeName?.isNone then typeEntry fields else [] : Fields).get? key =
      none := by
    refine Table.get?_eq_none fun h => hk ?_
    rw [mem_keys_entry h]
    decide
  rw [written, Table.get?_append, Table.get?_append (unmodelled fields), modelled, entry,
    Option.none_or, Option.or_none, get?_unmodelled hk]

lemma surroundings_written :
    c.surroundings (written kind nullable fields) = c.surroundings (keywords kind) := by
  rw [Checker.surroundings, Checker.surroundings, pairBesideSchema, pairBesideSchema,
    get?_written (by decide), get?_written (by decide), get?_written (by decide)]

/-- The keyword `type` as it is written: from the kind, or as it stood for a kind that has none. -/
def writtenType (kind : SchemaKind) (nullable : Bool) (fields : Fields) : Fields :=
  typeKeyword kind nullable ++ if kind.typeName?.isNone then typeEntry fields else []

lemma check_written_iff : check c (.obj (written kind nullable fields)) v = [] ↔
    checkKeywords c (c.surroundings (keywords kind)) v (writtenType kind nullable fields) = [] ∧
      checkKeywords c (c.surroundings (keywords kind)) v (keywords kind) = [] ∧
      checkKeywords c (c.surroundings (keywords kind)) v (unmodelled fields) = [] := by
  rw [check, surroundings_written, written, writtenType]
  simp only [checkKeywords_append, checkKeywords_description, List.append_eq_nil_iff]
  tauto

/-- What is written demands the same as what was read, if the type does and if, for values of the
type, what the kind says does. -/
lemma check_written (distinct : fields.keys.Nodup)
    (agrees : c.Agrees (references (.obj fields)) c')
    (type : checkKeywords c' (c'.surroundings (keywords kind)) v
      (writtenType kind nullable fields) = [] ↔ Demands c fields v "type")
    (kinds : Demands c fields v "type" →
      (checkKeywords c' (c'.surroundings (keywords kind)) v (keywords kind) = [] ↔
        ∀ key ∈ kindKeywords, Demands c fields v key)) :
    check c' (.obj (written kind nullable fields)) v = [] ↔ check c (.obj fields) v = [] := by
  have modelled : (∀ key ∈ modelledKeywords, Demands c fields v key) ↔
      Demands c fields v "type" ∧ ∀ key ∈ kindKeywords, Demands c fields v key := by
    simp only [modelledKeywords, kindKeywords, List.forall_mem_cons, List.not_mem_nil,
      false_implies, implies_true, and_true, demands_description]
    tauto
  rw [check_written_iff, check_obj_iff distinct, modelled, type,
    checkKeywords_unmodelled agrees (c.surroundings fields), ← and_assoc]
  refine and_congr_left fun _ => ?_
  constructor
  · rintro ⟨ht, hk⟩
    exact ⟨ht, (kinds ht).mp hk⟩
  · rintro ⟨ht, hk⟩
    exact ⟨ht, (kinds ht).mpr hk⟩

/-! ## Rows that are written again -/

lemma unmodelled_append (first second : Fields) :
    unmodelled (first ++ second : Fields) = unmodelled first ++ unmodelled second :=
  List.filter_append ..

lemma unmodelled_eq_nil (h : ∀ key ∈ fields.keys, key ∈ modelledKeywords) :
    unmodelled fields = [] := by
  refine List.filter_eq_nil_iff.mpr fun m hm => ?_
  simpa using h m.1 (List.mem_map_of_mem hm)

lemma unmodelled_unmodelled : unmodelled (unmodelled fields) = unmodelled fields := by
  rw [unmodelled, unmodelled, List.filter_filter]
  simp

lemma unmodelled_written : unmodelled (written kind nullable fields) = unmodelled fields := by
  have entry : unmodelled (if kind.typeName?.isNone then typeEntry fields else []) = [] :=
    unmodelled_eq_nil fun key hk => by
      rw [mem_keys_entry hk]
      decide
  rw [written, unmodelled_append, unmodelled_eq_nil fun key hk => (keys_modelled hk).1,
    unmodelled_append, unmodelled_unmodelled, entry, List.append_nil, List.nil_append]

lemma get?_typeEntry : (typeEntry fields).get? "type" = fields.get? "type" := by
  rw [typeEntry]
  cases fields.get? "type" <;> rfl

lemma get?_entry_of_ne {key : String} (hk : key ≠ "type") :
    Table.get? (if kind.typeName?.isNone then typeEntry fields else []) key = none :=
  Table.get?_eq_none fun h => hk (mem_keys_entry h)

lemma get?_unmodelled_eq_none {key : String} (hk : key ∈ modelledKeywords) :
    (unmodelled fields).get? key = none :=
  Table.get?_eq_none fun h => keys_unmodelled h hk

/-- A kind without a type leaves the type as it stood. -/
lemma get?_type_written (hn : kind.typeName? = none) :
    (written kind nullable fields).get? "type" = fields.get? "type" := by
  have own : Table.get? (typeKeyword kind nullable ++ keywords kind ++
      descriptionKeyword ((fields.get? "description").bind Json.asString?)) "type" = none := by
    refine Table.get?_eq_none fun h => ?_
    have named := (keys_modelled h).2 rfl
    rw [hn] at named
    cases named
  rw [written, Table.get?_append, own, Table.get?_append, get?_unmodelled_eq_none (by decide), hn,
    Option.isNone_none, if_pos rfl, get?_typeEntry, Option.none_or, Option.none_or]

lemma get?_description_written : ((written kind nullable fields).get? "description").bind
    Json.asString? = (fields.get? "description").bind Json.asString? := by
  have type : (typeKeyword kind nullable).get? "description" = none := by
    rw [typeKeyword]
    split
    · rfl
    · split <;> rfl
  have inside : (keywords kind).get? "description" = none :=
    Table.get?_eq_none fun h => absurd (keys_keywords h) (by decide)
  rw [written, Table.get?_append, Table.get?_append, Table.get?_append, Table.get?_append, type,
    inside, get?_unmodelled_eq_none (by decide), get?_entry_of_ne (by decide)]
  cases (fields.get? "description").bind Json.asString? <;> rfl

lemma written_written {kind' : SchemaKind} {nullable' : Bool}
    (hn : kind'.typeName? = kind.typeName?)
    (ht : typeKeyword kind' nullable' = typeKeyword kind nullable)
    (hk : keywords kind' = keywords kind) :
    written kind' nullable' (written kind nullable fields) = written kind nullable fields := by
  have entry : (if kind.typeName?.isNone then typeEntry (written kind nullable fields) else []) =
      if kind.typeName?.isNone then typeEntry fields else [] := by
    split
    · rename_i none
      rw [typeEntry, get?_type_written (Option.isNone_iff_eq_none.mp none), typeEntry]
    · rfl
  rw [written, get?_description_written, unmodelled_written, hn, entry, ht, hk, ← written]

lemma typed_written {name : String} (hn : kind.typeName? = some name)
    (null : name = "null" → nullable = false) :
    Typed (written kind nullable fields) (some name) nullable := by
  intro path
  have type : (written kind nullable fields).get? "type" = some
      (if nullable && name != "null" then .arr [.str name, .str "null"] else .str name) := by
    rw [written, Table.get?_append, Table.get?_append, Table.get?_append, get?_typeKeyword hn]
    rfl
  rw [readType, type]
  by_cases h : name = "null"
  · subst h
    rw [null rfl]
    rfl
  · cases nullable with
    | false => rfl
    | true => simp [h, Json.asString?]

lemma typed_written_of_none {typeName : Option String} {nullable' : Bool}
    (hn : kind.typeName? = none) (typed : Typed fields typeName nullable') :
    Typed (written kind nullable fields) typeName nullable' := by
  intro path
  rw [← typed path, readType, readType, get?_type_written hn]

/-! ## Valid rows -/

/-- The keywords beside the type are valid as they stand in a valid row. -/
lemma argument_valid {resolves : String → Bool} (h : isSchema resolves (.obj fields) = true)
    {key : String} {arg : Json} (ha : fields.get? key = some arg) :
    areKeywords resolves [(key, arg)] = true :=
  areKeywords_iff.mp h _ (Table.mem_of_get? ha)

/-- What is written is valid if what the kind says is. -/
lemma isSchema_written {resolves resolves' : String → Bool}
    (h : ∀ r ∈ references (.obj fields), resolves r = true → resolves' r = true)
    (valid : isSchema resolves (.obj fields) = true)
    (kinds : areKeywords resolves' (keywords kind) = true) :
    isSchema resolves' (.obj (written kind nullable fields)) = true := by
  have again : areKeywords resolves' fields = true := isSchema_of_resolves (.obj fields) h valid
  have others : areKeywords resolves' (unmodelled fields) = true :=
    areKeywords_iff.mpr fun m hm => areKeywords_iff.mp again m (List.mem_of_mem_filter hm)
  have entry : areKeywords resolves' (if kind.typeName?.isNone then typeEntry fields else []) =
      true := by
    split
    · rw [typeEntry]
      split
      · rename_i ht
        exact argument_valid again ht
      · rfl
    · rfl
  rw [isSchema, written, areKeywords_append, areKeywords_append, areKeywords_append,
    areKeywords_append, areKeywords_type, areKeywords_description, kinds, others, entry]
  rfl

/-- The argument of `type` in a valid row. -/
lemma isTypeArgument_of_valid {resolves : String → Bool}
    (valid : isSchema resolves (.obj fields) = true)
    (arg : Json) (ha : fields.get? "type" = some arg) : isTypeArgument arg = true := by
  have h := argument_valid valid ha
  rwa [areKeywords_argument (by decide) (by decide) (by decide)] at h

/-- Properties are listed by an object under the keyword, or else there are none. -/
lemma listedProperties_cases (fields : Fields) :
    fields.get? "properties" = some (.obj (listedProperties fields)) ∨
      (fields.get? "properties").any Json.isObject = false ∧ listedProperties fields = [] := by
  rw [listedProperties]
  rcases fields.get? "properties" with _ | arg
  · exact .inr ⟨rfl, rfl⟩
  · cases arg with
    | obj schemas => exact .inl rfl
    | _ => exact .inr ⟨rfl, rfl⟩

lemma references_listedProperties (fields : Fields) :
    references (.obj (listedProperties fields)) ⊆ references (.obj fields) := by
  rcases listedProperties_cases fields with hp | ⟨_, none⟩
  · exact references_of_member (Table.mem_of_get? hp)
  · rw [none]
    exact List.nil_subset _

lemma listedProperties_valid {resolves : String → Bool}
    (valid : isSchema resolves (.obj fields) = true) :
    areMemberSchemas resolves (listedProperties fields) = true := by
  rcases listedProperties_cases fields with hp | ⟨_, none⟩
  · have argument := argument_valid valid hp
    rw [areKeywords_members (by decide)] at argument
    obtain ⟨schemas, hs, members⟩ := argument
    rwa [Json.obj.inj hs]
  · rw [none]
    rfl

/-- In a valid row each name is listed as required once, and nothing else is. -/
lemma listedRequired_of_valid {resolves : String → Bool}
    (valid : isSchema resolves (.obj fields) = true) :
    (listedRequired fields).Nodup ∧
      ((fields.get? "required").bind Json.asArray?).any (·.length == 2) =
        ((listedRequired fields).length == 2) := by
  rw [listedRequired]
  cases hr : fields.get? "required" with
  | none => exact ⟨List.nodup_nil, rfl⟩
  | some arg =>
    have argument := argument_valid valid hr
    rw [areKeywords_argument (by decide) (by decide) (by decide)] at argument
    change isNameList arg = true at argument
    cases arg with
    | arr items =>
      have strings := ((Bool.and_eq_true _ _).mp argument).1
      obtain ⟨names, rfl⟩ : items ∈ Set.range (List.map Json.str) := by
        rw [Set.range_list_map]
        intro n hn
        cases n with
        | str name => exact ⟨name, rfl⟩
        | _ => cases List.all_eq_true.mp strings _ hn
      have listed : (names.map Json.str).filterMap Json.asString? = names := by
        rw [List.filterMap_map]
        exact List.filterMap_some
      rw [Option.bind_some, Json.asArray?, Option.getD_some, listed, Option.any_some,
        List.length_map]
      exact ⟨isNameList_map_str.mp argument, rfl⟩
    | _ => cases argument

/-! ## Types -/

/-- Null aside, one of some types is one of those that are left, or null where that is among them. -/
lemma any_hasType (names : List String) (v : Json) :
    (names.any fun n => hasType n v) = true ↔
      ((names.filter (· != "null")).any fun n => hasType n v) = true ∨
        names.contains "null" = true ∧ v = .null := by
  rw [List.any_eq_true, List.any_eq_true, List.contains_iff_mem, ← hasType_null_iff]
  constructor
  · rintro ⟨n, hn, ht⟩
    by_cases he : n = "null"
    · subst he
      exact .inr ⟨hn, ht⟩
    · exact .inl ⟨n, List.mem_filter.mpr ⟨hn, by simpa using he⟩, ht⟩
  · rintro (⟨n, hn, ht⟩ | ⟨hn, ht⟩)
    · exact ⟨n, List.mem_of_mem_filter hn, ht⟩
    · exact ⟨"null", hn, ht⟩

lemma checkKeywords_typeArgument (around : Surroundings) (arg : Json) :
    checkKeywords c around v [("type", arg)] = [] ↔
      ((admitted arg).any fun n => hasType n v) = true := by
  rw [checkKeywords_assertion (by decide)]
  exact demand_eq_nil

/-- The keyword `type` demands a value of this type, or null if that will do as well. -/
def DemandsType (fields : Fields) (name : String) (nullable : Bool) : Prop :=
  ∀ (c : Checker) (v : Json),
    Demands c fields v "type" ↔ hasType name v = true ∨ nullable = true ∧ v = .null

/-- In a valid list of types there are names of types, and nothing else. -/
lemma names_of_isTypeArgument {types : List Json} (h : isTypeArgument (.arr types) = true) :
    types.filterMap Json.asString? ≠ [] ∧
      ∀ n ∈ types.filterMap Json.asString?, n ∈ typeNames := by
  rw [isTypeArgument, Bool.and_eq_true, Bool.and_eq_true, List.all_eq_true] at h
  obtain ⟨⟨nonempty, _⟩, known⟩ := h
  constructor
  · obtain ⟨t, rest, rfl⟩ := List.exists_cons_of_ne_nil (by simpa using nonempty)
    have string := known t List.mem_cons_self
    cases t with
    | str n => exact List.cons_ne_nil n _
    | _ => cases string
  · intro n hn
    obtain ⟨t, hm, hs⟩ := List.mem_filterMap.mp hn
    simpa [hs] using known t hm

/-- Where null aside nothing is left of some names, null is among them. -/
lemma contains_null {names : List String} (nonempty : names ≠ [])
    (none : names.filter (· != "null") = []) : names.contains "null" = true := by
  obtain ⟨n, hn⟩ := List.exists_mem_of_ne_nil names nonempty
  have null : n = "null" := by simpa using List.filter_eq_nil_iff.mp none n hn
  rwa [List.contains_iff_mem, ← null]

/-- A valid argument of `type` that is read as a single type is one of this type. -/
lemma demands_type {name : String} (typed : Typed fields (some name) nullable)
    (valid : ∀ arg, fields.get? "type" = some arg → isTypeArgument arg = true) :
    name ∈ typeNames ∧ DemandsType fields name nullable := by
  have read := typed ""
  rw [readType] at read
  cases ht : fields.get? "type" with
  | none =>
    rw [ht] at read
    cases read
  | some arg =>
    rw [ht] at read
    have argument := valid arg ht
    simp only [DemandsType, demands_iff_of_some ht, checkKeywords_typeArgument]
    cases arg with
    | str n =>
      obtain ⟨hn, rfl⟩ := Prod.mk.inj (Except.ok.inj read)
      obtain rfl := Option.some.inj hn
      exact ⟨by simpa [isTypeArgument] using argument, fun c v => by simp [admitted]⟩
    | arr types =>
      obtain ⟨nonempty, names⟩ := names_of_isTypeArgument argument
      have listed : admitted (.arr types) = types.filterMap Json.asString? := rfl
      dsimp only at read
      split at read
      · rename_i none
        obtain ⟨hn, rfl⟩ := Prod.mk.inj (Except.ok.inj read)
        obtain rfl := Option.some.inj hn
        refine ⟨by decide, fun c v => ?_⟩
        rw [listed, any_hasType, none, contains_null nonempty none, hasType_null_iff]
        simp
      · rename_i n single
        obtain ⟨hn, rfl⟩ := Prod.mk.inj (Except.ok.inj read)
        obtain rfl := Option.some.inj hn
        have member : n ∈ (types.filterMap Json.asString?).filter (· != "null") := by
          rw [single]
          exact List.mem_cons_self
        refine ⟨names n (List.mem_of_mem_filter member), fun c v => ?_⟩
        rw [listed, any_hasType, single]
        simp
      · cases read
    | _ => cases read

lemma ne_obj_of_hasType {name : String} (h : hasType name v = true ∨ nullable = true ∧ v = .null)
    (hn : name ≠ "object") (members : Fields) : v ≠ .obj members := by
  rintro rfl
  rcases h with h | ⟨_, h⟩
  · exact hn (by simpa [hasType] using h)
  · cases h

lemma ne_arr_of_hasType {name : String} (h : hasType name v = true ∨ nullable = true ∧ v = .null)
    (hn : name ≠ "array") (vs : List Json) : v ≠ .arr vs := by
  rintro rfl
  rcases h with h | ⟨_, h⟩
  · exact hn (by simpa [hasType] using h)
  · cases h

lemma writtenType_of_none (h : kind.typeName? = none) :
    writtenType kind nullable fields = typeEntry fields := by
  rw [writtenType, typeKeyword, h]
  rfl

lemma checkKeywords_typeEntry (around : Surroundings) :
    checkKeywords c around v (typeEntry fields) = [] ↔ Demands c' fields v "type" := by
  cases ht : fields.get? "type" with
  | none =>
    rw [typeEntry, ht]
    exact iff_of_true rfl (demands_of_none ht)
  | some arg =>
    rw [typeEntry, ht, demands_iff_of_some ht, checkKeywords_typeArgument,
      checkKeywords_typeArgument]

lemma checkKeywords_writtenType {name : String} (hn : kind.typeName? = some name)
    (around : Surroundings) :
    checkKeywords c around v (writtenType kind nullable fields) = [] ↔
      hasType name v = true ∨ nullable = true ∧ v = .null := by
  rw [writtenType, hn, Option.isNone_some, if_neg Bool.false_ne_true, List.append_nil,
    checkKeywords_type, hn]
  exact ⟨fun h => h name rfl, fun h name' he => by rwa [← Option.some.inj he]⟩

/-! ## Keywords for members and items -/

lemma unlisted_of_ne_obj (hv : ∀ members, v ≠ .obj members) (properties : Option Fields) :
    unlisted properties v = [] := by
  cases v with
  | obj members => exact absurd rfl (hv members)
  | _ => rfl

lemma demands_properties_of_ne_obj (hv : ∀ members, v ≠ .obj members) :
    Demands c fields v "properties" := by
  intro arg _
  cases arg with
  | obj schemas => exact (checkKeywords_properties schemas).mpr fun _ he => absurd he (hv _)
  | _ => rfl

lemma demands_required_of_ne_obj (hv : ∀ members, v ≠ .obj members) :
    Demands c fields v "required" := by
  intro arg _
  rw [checkKeywords, checkKeywords, List.append_nil]
  have none : checkRequired arg v = [] := by
    cases v with
    | obj members => exact absurd rfl (hv members)
    | _ => cases arg <;> rfl
  rw [none, ite_self]

lemma demands_additional_of_ne_obj (hv : ∀ members, v ≠ .obj members) :
    Demands c fields v "additionalProperties" := by
  intro arg _
  rw [checkKeywords_unlisted, unlisted_of_ne_obj hv]
  exact fun m hm => absurd hm List.not_mem_nil

lemma demands_items_of_ne_arr (hv : ∀ vs, v ≠ .arr vs) : Demands c fields v "items" := by
  intro arg _
  exact (checkKeywords_items arg).mpr fun vs he => absurd he (hv vs)

lemma demands_properties_iff : Demands c fields v "properties" ↔
    ∀ values : Fields, v = .obj values → ∀ m ∈ listedProperties fields, ∀ w,
      values.get? m.1 = some w → check c m.2 w = [] := by
  rw [listedProperties]
  cases hp : fields.get? "properties" with
  | none => exact iff_of_true (demands_of_none hp) fun _ _ m hm => absurd hm List.not_mem_nil
  | some arg =>
    rw [demands_iff_of_some hp]
    cases arg with
    | obj schemas => exact checkKeywords_properties schemas
    | _ => exact iff_of_true rfl fun _ _ m hm => absurd hm List.not_mem_nil

/-- The names in an argument of `required` are demanded of members. -/
lemma checkRequired_iff (arg : Json) : checkRequired arg v = [] ↔
    ∀ values : Fields, v = .obj values →
      ∀ name ∈ (arg.asArray?.getD []).filterMap Json.asString?, values.has name = true := by
  cases arg with
  | arr names =>
    cases v with
    | obj values => simp [checkRequired, Json.asArray?, List.flatMap_eq_nil_iff]
    | _ => simp [checkRequired]
  | _ => simp [checkRequired, Json.asArray?]

lemma demands_required_iff : Demands c fields v "required" ↔
    (c.surroundings fields).lenient = true ∨ ∀ values : Fields, v = .obj values →
      ∀ name ∈ listedRequired fields, values.has name = true := by
  rw [listedRequired]
  cases hr : fields.get? "required" with
  | none =>
    exact iff_of_true (demands_of_none hr) (.inr fun _ _ m hm => absurd hm List.not_mem_nil)
  | some arg =>
    rw [demands_iff_of_some hr, Option.bind_some, ← checkRequired_iff, checkKeywords,
      checkKeywords, List.append_nil]
    split
    · rename_i lenient
      exact iff_of_true rfl (.inl lenient)
    · rename_i lenient
      exact (or_iff_right lenient).symm

lemma checkKeywords_requiredKeyword (around : Surroundings) (properties : List Property) :
    checkKeywords c around v (requiredKeyword properties) = [] ↔
      around.lenient = true ∨ ∀ values : Fields, v = .obj values →
        ∀ name ∈ requiredOf properties, values.has name = true := by
  by_cases lenient : around.lenient = true
  · refine iff_of_true ?_ (.inl lenient)
    rw [requiredKeyword]
    split
    · rfl
    · rw [checkKeywords, checkKeywords, if_pos lenient]
      rfl
  · rw [checkKeywords_required (Bool.eq_false_iff.mpr lenient), or_iff_right lenient]

/-- Which members are not listed depends on the names that are. -/
lemma unlisted_congr {listed listed' : Option Fields}
    (h : (listed'.getD []).keys = (listed.getD []).keys) (v : Json) :
    unlisted listed' v = unlisted listed v := by
  rw [unlisted, unlisted]
  refine List.filter_congr fun m _ => congrArg Bool.not (Bool.eq_iff_iff.mpr ?_)
  rw [Table.has_iff_mem_keys, Table.has_iff_mem_keys, h]

lemma demands_kind_of_bare (bare : Bare fields) :
    (∀ key ∈ kindKeywords, Demands c fields v key) ↔ Demands c fields v "enum" := by
  constructor
  · intro h
    exact h "enum" (by decide)
  · intro h key hk
    have others : ∀ key ∈ kindKeywords, key ≠ "enum" →
        key ∈ ["properties", "required", "items", "additionalProperties"] := by decide
    by_cases he : key = "enum"
    · rwa [he]
    · exact demands_of_none (bare key (others key hk he))

end Colloquy.Schema
