import Colloquy.Proofs.Schema.Rows

/-!
# Kinds that are read

A JSON Schema of which nothing is lost when it is read says the same as what is written again of it.
This is shown for one kind after the other, by induction on the way in which it was read: what stands
inside it has been read and written itself.
-/

namespace Colloquy.Schema

open JsonSchema

variable {c c' : Checker} {fields : Fields} {v : Json} {kind : SchemaKind} {nullable : Bool}

/-- The second JSON Schema demands of values what the first one does, where references are followed
alike. -/
def Alike (a b : Json) : Prop :=
  ∀ {c c' : Checker}, c.Agrees (references a) c' → ∀ v, check c' b v = [] ↔ check c a v = []

lemma alike_refl (a : Json) : Alike a a := fun agrees v => check_of_agrees agrees v

/-- The schema says what the JSON Schema does that it was read from, it is written as a valid one, and
what stays in its place says the same as well. -/
structure Preserves (a : Json) (s : Schema) : Prop where
  alike : Alike a s.toJson
  valid : ∀ {resolves resolves' : String → Bool},
    (∀ r ∈ references a, resolves r = true → resolves' r = true) →
    isSchema resolves a = true → isSchema resolves' s.toJson = true
  leads : ∀ {segments : List String}, Stays a segments →
    Option.Rel Alike (descend a segments) (descend s.toJson segments)

/-- The kind carries all that the keywords say of values of their type. -/
structure Carries (kind : SchemaKind) (nullable : Bool) (fields : Fields) : Prop where
  type : ∀ (c c' : Checker) (around : Surroundings) (v : Json),
    checkKeywords c' around v (writtenType kind nullable fields) = [] ↔ Demands c fields v "type"
  parts : ∀ {c c' : Checker}, c.Agrees (references (.obj fields)) c' → ∀ v,
    Demands c fields v "type" →
      (checkKeywords c' (c'.surroundings (keywords kind)) v (keywords kind) = [] ↔
        ∀ key ∈ kindKeywords, Demands c fields v key)
  valid : ∀ {resolves resolves' : String → Bool},
    (∀ r ∈ references (.obj fields), resolves r = true → resolves' r = true) →
    isSchema resolves (.obj fields) = true → areKeywords resolves' (keywords kind) = true
  properties : ∀ name arg, (listedProperties fields).get? name = some arg →
    ∃ schemas s, (keywords kind).get? "properties" = some (.obj schemas) ∧
      Table.get? schemas name = some (toJson s) ∧ Preserves arg s
  items : ∀ nullable arg, Typed fields (some "array") nullable →
    fields.get? "items" = some arg →
    ∃ s, (keywords kind).get? "items" = some s.toJson ∧ Preserves arg s
  additional : ∀ nullable members, Typed fields (some "object") nullable →
    fields.get? "additionalProperties" = some (.obj members) →
    ∃ s, (keywords kind).get? "additionalProperties" = some s.toJson ∧ Preserves (.obj members) s

lemma Carries.alike (h : Carries kind nullable fields) (distinct : fields.keys.Nodup) :
    Alike (.obj fields) (.obj (written kind nullable fields)) :=
  fun agrees v => check_written distinct agrees (h.type _ _ _ v) (h.parts agrees v)

lemma Carries.leads (h : Carries kind nullable fields) (distinct : fields.keys.Nodup)
    {segments : List String} (stays : Stays (.obj fields) segments) :
    Option.Rel Alike (descend (.obj fields) segments)
      (descend (.obj (written kind nullable fields)) segments) := by
  cases stays with
  | self => exact .some (h.alike distinct)
  | @extension _ keyword rest hk =>
    rw [descend, descend, get?_extension hk]
    cases (fields.get? keyword).bind fun found => descend found rest with
    | none => exact .none
    | some found => exact .some (alike_refl found)
  | @property _ name rest arg listed inside =>
    obtain ⟨schemas, s, hp, hs, preserves⟩ := h.properties name arg listed
    have given : fields.get? "properties" = some (.obj (listedProperties fields)) := by
      rcases listedProperties_cases fields with hp | ⟨_, none⟩
      · exact hp
      · rw [none] at listed
        cases listed
    rw [descend, descend, get?_written (by decide), given, hp, Option.bind_some, Option.bind_some,
      descend, descend, listed, hs]
    exact preserves.leads inside
  | @items _ _ rest arg typed given inside =>
    obtain ⟨s, hs, preserves⟩ := h.items _ arg typed given
    rw [descend, descend, get?_written (by decide), given, hs]
    exact preserves.leads inside
  | @additional _ members _ rest typed given inside =>
    obtain ⟨s, hs, preserves⟩ := h.additional _ members typed given
    rw [descend, descend, get?_written (by decide), given, hs]
    exact preserves.leads inside

/-- What is written for a kind that carries all preserves it. -/
lemma Carries.preserves (h : Carries kind nullable fields) (distinct : fields.keys.Nodup)
    {s : Schema} (hw : s.toJson = .obj (written kind nullable fields)) :
    Preserves (.obj fields) s where
  alike := by
    rw [hw]
    exact h.alike distinct
  valid leads valid := by
    rw [hw]
    exact isSchema_written leads valid (h.valid leads valid)
  leads stays := by
    rw [hw]
    exact h.leads distinct stays

lemma not_listed_of_none (h : fields.get? "properties" = none) (name : String) (arg : Json) :
    (listedProperties fields).get? name ≠ some arg := by
  rw [listedProperties, h]
  exact Option.some_ne_none arg ∘ Eq.symm

section

variable {path : String} {resolves : String → Bool}

/-! ## Kinds without parts -/

/-- A kind without a type, of keywords that say nothing of members or items. -/
lemma carries_of_bare (bare : Bare fields) (hn : kind.typeName? = none)
    (valid : ∀ resolves, areKeywords resolves (keywords kind) = true)
    (options : ∀ (c c' : Checker) (around : Surroundings) (v : Json),
      checkKeywords c' around v (keywords kind) = [] ↔ Demands c fields v "enum") :
    Carries kind nullable fields where
  type c c' around v := by
    rw [writtenType_of_none hn]
    exact checkKeywords_typeEntry around
  parts _ v _ := by
    rw [demands_kind_of_bare bare]
    exact options _ _ _ v
  valid _ _ := valid _
  properties name arg h := absurd h (not_listed_of_none (bare "properties" (by decide)) name arg)
  items _ arg _ h := by
    rw [bare "items" (by decide)] at h
    cases h
  additional _ members _ h := by
    rw [bare "additionalProperties" (by decide)] at h
    cases h

lemma preserves_enumeration {typeName : Option String} {values : List Json}
    (distinct : fields.keys.Nodup) (typed : Typed fields typeName nullable)
    (options : fields.get? "enum" = some (.arr values)) (bare : Bare fields) :
    ∃ s, ofJsonAt path (.obj fields) = .ok s ∧ Preserves (.obj fields) s := by
  have hk : readKind path fields typeName
      ⟨readProperties path fields, readAdditional path fields, readItems path fields⟩ =
      .ok (.enumeration values) := by
    rw [readKind.eq_def, options]
    rfl
  obtain ⟨s, hs, hw⟩ := exists_written distinct typed hk rfl
  refine ⟨s, hs, Carries.preserves (carries_of_bare bare rfl (fun _ => rfl) ?_) distinct hw⟩
  intro c c' around v
  rw [demands_iff_of_some options, keywords, checkKeywords_assertion (by decide),
    checkKeywords_assertion (by decide)]

lemma preserves_untyped (distinct : fields.keys.Nodup) (typed : Typed fields none false)
    (options : fields.get? "enum" = none) (bare : Bare fields) :
    ∃ s, ofJsonAt path (.obj fields) = .ok s ∧ Preserves (.obj fields) s := by
  have hk : readKind path fields none
      ⟨readProperties path fields, readAdditional path fields, readItems path fields⟩ =
      .ok .any := by
    rw [readKind.eq_def, options, bare "properties" (by decide)]
    rfl
  obtain ⟨s, hs, hw⟩ := exists_written distinct typed hk rfl
  refine ⟨s, hs, Carries.preserves (carries_of_bare bare rfl (fun _ => rfl) ?_) distinct hw⟩
  intro c c' around v
  exact iff_of_true rfl (demands_of_none options)

/-- The kinds of values without parts, under the names of their types. -/
lemma exists_scalar {name : String} (known : name ∈ typeNames) (object : name ≠ "object")
    (array : name ≠ "array") (options : fields.get? "enum" = none)
    (properties : fields.get? "properties" = none) (parts : Parts) :
    ∃ kind, readKind path fields (some name) parts = .ok kind ∧ kind.typeName? = some name ∧
      isEnumeration kind = false ∧ keywords kind = [] := by
  simp only [typeNames, List.mem_cons, List.not_mem_nil, or_false] at known
  rcases known with rfl | rfl | rfl | rfl | rfl | rfl | rfl
  · exact absurd rfl array
  · exact ⟨.boolean, by rw [readKind, options, properties]; rfl, rfl, rfl, rfl⟩
  · exact ⟨.integer, by rw [readKind, options, properties]; rfl, rfl, rfl, rfl⟩
  · exact ⟨.null, by rw [readKind, options, properties]; rfl, rfl, rfl, rfl⟩
  · exact ⟨.number, by rw [readKind, options, properties]; rfl, rfl, rfl, rfl⟩
  · exact absurd rfl object
  · exact ⟨.string, by rw [readKind, options, properties]; rfl, rfl, rfl, rfl⟩

lemma carries_scalar {name : String} (typed : Typed fields (some name) nullable)
    (type : DemandsType fields name nullable) (hn : kind.typeName? = some name)
    (none : keywords kind = [])
    (options : fields.get? "enum" = Option.none)
    (properties : fields.get? "properties" = Option.none) (object : name ≠ "object")
    (array : name ≠ "array") : Carries kind nullable fields where
  type c c' around v := by
    rw [type c v]
    exact checkKeywords_writtenType hn around
  parts := by
    intro c c' _ v ht
    rw [type c v] at ht
    have members := ne_obj_of_hasType ht object
    have items := ne_arr_of_hasType ht array
    rw [none]
    refine iff_of_true rfl ?_
    simp only [kindKeywords, List.forall_mem_cons, List.not_mem_nil, false_implies,
      implies_true, and_true]
    exact ⟨demands_items_of_ne_arr items, demands_properties_of_ne_obj members,
      demands_required_of_ne_obj members, demands_additional_of_ne_obj members,
      demands_of_none options⟩
  valid _ _ := by
    rw [none]
    rfl
  properties name arg h := absurd h (not_listed_of_none properties name arg)
  items _ _ typed' _ := absurd (Option.some.inj (typed.unique typed')) array
  additional _ _ typed' _ := absurd (Option.some.inj (typed.unique typed')) object

lemma preserves_scalar {name : String} (valid : isSchema resolves (.obj fields) = true)
    (distinct : fields.keys.Nodup) (typed : Typed fields (some name) nullable)
    (options : fields.get? "enum" = none) (properties : fields.get? "properties" = none)
    (object : name ≠ "object") (array : name ≠ "array") :
    ∃ s, ofJsonAt path (.obj fields) = .ok s ∧ Preserves (.obj fields) s := by
  obtain ⟨known, type⟩ := demands_type typed (isTypeArgument_of_valid valid)
  obtain ⟨kind, hk, hn, he, none⟩ := exists_scalar known object array options properties
    ⟨readProperties path fields, readAdditional path fields, readItems path fields⟩
  obtain ⟨s, hs, hw⟩ := exists_written distinct typed hk (by rw [he, hn]; rfl)
  have carries := carries_scalar typed type hn none options properties object array
  exact ⟨s, hs, carries.preserves distinct hw⟩

/-! ## Arrays -/

/-- The schema of all values is written as one that demands nothing. -/
lemma check_any (v : Json) : check c any.toJson v = [] := rfl

/-- What holds for items, as the keyword `items` says it. -/
inductive ItemsOf : Option Json → Schema → Prop
  | absent : ItemsOf none any
  | given {arg : Json} {s : Schema} (h : Preserves arg s) : ItemsOf (some arg) s

lemma exists_readItems (path : String)
    (items : ∀ arg, fields.get? "items" = some arg →
      ∀ path, ∃ s, ofJsonAt path arg = .ok s ∧ Preserves arg s) :
    ∃ s, readItems path fields = .ok s ∧ ItemsOf (fields.get? "items") s := by
  rw [readItems_eq]
  cases ha : fields.get? "items" with
  | none => exact ⟨any, rfl, .absent⟩
  | some arg =>
    obtain ⟨s, hs, preserves⟩ := items arg ha (path ++ "[]")
    exact ⟨s, hs, .given preserves⟩

lemma ItemsOf.checkKeywords_iff {s : Schema} (h : ItemsOf (fields.get? "items") s)
    (agrees : c.Agrees (references (.obj fields)) c') (around : Surroundings) :
    checkKeywords c' around v [("items", s.toJson)] = [] ↔ Demands c fields v "items" := by
  rcases ha : fields.get? "items" with _ | arg
  · rw [ha] at h
    cases h with
    | absent =>
      refine iff_of_true ?_ (demands_of_none ha)
      exact (checkKeywords_items _).mpr fun vs _ w _ => check_any w
  · rw [ha] at h
    have own : references arg ⊆ references (.obj fields) :=
      references_of_member (Table.mem_of_get? ha)
    rw [demands_iff_of_some ha, checkKeywords_items, checkKeywords_items]
    cases h with
    | given preserves =>
      exact forall₂_congr fun vs _ => forall₂_congr fun w _ => preserves.alike (agrees.mono own) w

lemma ItemsOf.valid {s : Schema} (h : ItemsOf (fields.get? "items") s)
    {resolves resolves' : String → Bool}
    (leads : ∀ r ∈ references (.obj fields), resolves r = true → resolves' r = true)
    (valid : isSchema resolves (.obj fields) = true) : isSchema resolves' s.toJson = true := by
  rcases ha : fields.get? "items" with _ | arg
  · rw [ha] at h
    cases h with
    | absent => rfl
  · rw [ha] at h
    have own : references arg ⊆ references (.obj fields) :=
      references_of_member (Table.mem_of_get? ha)
    have argument := argument_valid valid ha
    rw [areKeywords_schema (by decide)] at argument
    cases h with
    | given preserves => exact preserves.valid (fun r hr => leads r (own hr)) argument

lemma carries_array {item : Schema} (typed : Typed fields (some "array") nullable)
    (type : DemandsType fields "array" nullable)
    (options : fields.get? "enum" = none) (properties : fields.get? "properties" = none)
    (given : ItemsOf (fields.get? "items") item) : Carries (.array item) nullable fields where
  type c c' around v := by
    rw [type c v]
    exact checkKeywords_writtenType rfl around
  parts := by
    intro c c' agrees v ht
    rw [type c v] at ht
    have members := ne_obj_of_hasType ht (by decide)
    rw [keywords, given.checkKeywords_iff agrees]
    simp only [kindKeywords, List.forall_mem_cons, List.not_mem_nil, false_implies,
      implies_true, and_true]
    exact ⟨fun h => ⟨h, demands_properties_of_ne_obj members,
      demands_required_of_ne_obj members, demands_additional_of_ne_obj members,
      demands_of_none options⟩, And.left⟩
  valid := by
    intro resolves resolves' leads valid
    rw [keywords, areKeywords_schema (by decide)]
    exact given.valid leads valid
  properties name arg h := absurd h (not_listed_of_none properties name arg)
  items := by
    intro _ arg _ ha
    rw [ha] at given
    cases given with
    | given preserves => exact ⟨item, rfl, preserves⟩
  additional _ _ typed' _ := absurd (Option.some.inj (typed.unique typed')) (by decide)

lemma preserves_array (valid : isSchema resolves (.obj fields) = true)
    (distinct : fields.keys.Nodup) (typed : Typed fields (some "array") nullable)
    (options : fields.get? "enum" = none) (properties : fields.get? "properties" = none)
    (items : ∀ arg, fields.get? "items" = some arg →
      ∀ path, ∃ s, ofJsonAt path arg = .ok s ∧ Preserves arg s) :
    ∃ s, ofJsonAt path (.obj fields) = .ok s ∧ Preserves (.obj fields) s := by
  obtain ⟨_, type⟩ := demands_type typed (isTypeArgument_of_valid valid)
  obtain ⟨item, hi, given⟩ := exists_readItems path items
  have hk : readKind path fields (some "array")
      ⟨readProperties path fields, readAdditional path fields, readItems path fields⟩ =
      .ok (.array item) := by
    rw [readKind, options, properties, hi]
    rfl
  obtain ⟨s, hs, hw⟩ := exists_written distinct typed hk rfl
  have carries := carries_array typed type options properties given
  exact ⟨s, hs, carries.preserves distinct hw⟩

/-! ## Objects -/

/-- The properties that are made of the schemas that were read. -/
def propertiesOf (required : List String) (schemas : List (String × Schema)) : List Property :=
  schemas.map fun (name, s) => ⟨name, s, !required.contains name⟩

/-- The required names are among those of the properties, in order. -/
lemma requiredOf_propertiesOf (required : List String) (schemas : List (String × Schema)) :
    requiredOf (propertiesOf required schemas) =
      (schemas.map Prod.fst).filter required.contains := by
  rw [requiredOf, propertiesOf, List.filter_map, List.map_map, List.filter_map]
  simp [Function.comp_def]

/-- Schemas in the order of some members and under their names, each preserving what it was read
from. -/
def Related (members : Fields) (schemas : List (String × Schema)) : Prop :=
  List.Forall₂ (fun m p => p.1 = m.1 ∧ Preserves m.2 p.2) members schemas

section

variable {members : Fields} {schemas : List (String × Schema)} {required : List String}

lemma Related.keys (h : Related members schemas) (required : List String) :
    (propertyMembers (propertiesOf required schemas)).keys = members.keys := by
  induction h with
  | nil => rfl
  | cons hm rest ih =>
    obtain ⟨name, _⟩ := hm
    rw [propertiesOf, List.map_cons, propertyMembers, ← propertiesOf]
    exact List.cons_eq_cons.mpr ⟨name, ih⟩

lemma Related.names (h : Related members schemas) (required : List String) :
    (propertiesOf required schemas).map Property.name = members.keys := by
  rw [← propertyMembers_keys, h.keys]

/-- Properties demand of the members of a value what the schemas demand that they were read from. -/
lemma Related.check_iff (h : Related members schemas)
    (agrees : c.Agrees (references (.obj members)) c') (values : Fields) :
    (∀ m ∈ propertyMembers (propertiesOf required schemas), ∀ w, values.get? m.1 = some w →
      check c' m.2 w = []) ↔
      ∀ m ∈ members, ∀ w, values.get? m.1 = some w → check c m.2 w = [] := by
  induction h with
  | nil =>
    exact iff_of_true (fun m hm => absurd hm List.not_mem_nil)
      (fun m hm => absurd hm List.not_mem_nil)
  | @cons m p members schemas hm rest ih =>
    obtain ⟨name, preserves⟩ := hm
    have own := agrees.mono (references_of_member (m := m) List.mem_cons_self)
    have others := ih (agrees.mono (references_subset (List.subset_cons_self _ _)))
    rw [propertiesOf, List.map_cons, propertyMembers, ← propertiesOf, List.forall_mem_cons,
      List.forall_mem_cons, others, name]
    exact and_congr_left fun _ => forall₂_congr fun w _ => preserves.alike own w

lemma Related.valid (h : Related members schemas) {resolves resolves' : String → Bool}
    (leads : ∀ r ∈ references (.obj members), resolves r = true → resolves' r = true)
    (valid : areMemberSchemas resolves members = true) :
    areMemberSchemas resolves' (propertyMembers (propertiesOf required schemas)) = true := by
  induction h with
  | nil => rfl
  | @cons m p members schemas hm rest ih =>
    obtain ⟨_, preserves⟩ := hm
    rw [areMemberSchemas.eq_def] at valid
    obtain ⟨first, others⟩ := (Bool.and_eq_true _ _).mp valid
    rw [propertiesOf, List.map_cons, propertyMembers, ← propertiesOf, areMemberSchemas,
      Bool.and_eq_true]
    have own := references_of_member (m := m) (List.mem_cons_self (l := members))
    exact ⟨preserves.valid (fun r hr => leads r (own hr)) first,
      ih (fun r hr => leads r (references_subset (List.subset_cons_self _ _) hr)) others⟩

lemma Related.get? (h : Related members schemas) {name : String} {arg : Json}
    (ha : members.get? name = some arg) :
    ∃ s, (propertyMembers (propertiesOf required schemas)).get? name = some s.toJson ∧
      Preserves arg s := by
  induction h with
  | nil => cases ha
  | @cons m p members schemas hm rest ih =>
    obtain ⟨key, value⟩ := m
    obtain ⟨rfl, preserves⟩ := hm
    rw [propertiesOf, List.map_cons, propertyMembers, ← propertiesOf, Table.get?_cons]
    rw [Table.get?_cons] at ha
    split at ha
    · obtain rfl := Option.some.inj ha
      rename_i same
      exact ⟨p.2, if_pos same, preserves⟩
    · rename_i other
      rw [if_neg other]
      exact ih ha

lemma Related.mem_requiredOf (h : Related members schemas) {name : String} :
    name ∈ requiredOf (propertiesOf required schemas) ↔ name ∈ members.keys ∧ name ∈ required := by
  have first : schemas.map Prod.fst = members.keys := by
    rw [← h.names required, propertiesOf, List.map_map]
    rfl
  rw [requiredOf_propertiesOf, first, List.mem_filter, List.contains_iff_mem]

end

/-- What holds for other members, as the keyword `additionalProperties` says it. -/
inductive AdditionalOf : Option Json → Additional → Prop
  | absent : AdditionalOf none .allowed
  | allowed : AdditionalOf (some (.bool true)) .allowed
  | disallowed : AdditionalOf (some (.bool false)) .disallowed
  | typed {members : Fields} {s : Schema} (h : Preserves (.obj members) s) :
      AdditionalOf (some (.obj members)) (.typed s)

lemma exists_readAdditional (path : String)
    (additional : ∀ arg, fields.get? "additionalProperties" = some arg → arg ≠ .bool false →
      ∀ path, ∃ s, ofJsonAt path arg = .ok s ∧ Preserves arg s) :
    ∃ a, readAdditional path fields = .ok a ∧
      AdditionalOf (fields.get? "additionalProperties") a := by
  rw [readAdditional_eq]
  cases ha : fields.get? "additionalProperties" with
  | none => exact ⟨.allowed, rfl, .absent⟩
  | some arg =>
    by_cases hf : arg = .bool false
    · subst hf
      exact ⟨.disallowed, rfl, .disallowed⟩
    · obtain ⟨s, hs, preserves⟩ := additional arg ha hf (path ++ ".additionalProperties")
      cases arg with
      | bool b =>
        cases b with
        | true => exact ⟨.allowed, rfl, .allowed⟩
        | false => exact absurd rfl hf
      | obj members =>
        refine ⟨.typed s, ?_, .typed preserves⟩
        show (ofJsonAt _ _).map _ = _
        rw [hs]
        rfl
      | _ => cases hs

lemma AdditionalOf.checkKeywords_iff {a : Additional}
    (h : AdditionalOf (fields.get? "additionalProperties") a)
    (agrees : c.Agrees (references (.obj fields)) c') {around' : Surroundings}
    (hu : unlisted around'.properties v = unlisted (c.surroundings fields).properties v) :
    checkKeywords c' around' v (additionalKeyword a) = [] ↔
      Demands c fields v "additionalProperties" := by
  rcases ha : fields.get? "additionalProperties" with _ | arg
  · rw [ha] at h
    cases h with
    | absent => exact iff_of_true rfl (demands_of_none ha)
  · rw [ha] at h
    have own : references arg ⊆ references (.obj fields) :=
      references_of_member (Table.mem_of_get? ha)
    rw [demands_iff_of_some ha, checkKeywords_unlisted, ← hu]
    cases h with
    | allowed => exact iff_of_true rfl fun m _ => rfl
    | disallowed =>
      rw [additionalKeyword, checkKeywords_unlisted]
      rfl
    | typed preserves =>
      rw [additionalKeyword, checkKeywords_unlisted]
      exact forall₂_congr fun m _ => preserves.alike (agrees.mono own) m.2

lemma AdditionalOf.valid {a : Additional} (h : AdditionalOf (fields.get? "additionalProperties") a)
    {resolves resolves' : String → Bool}
    (leads : ∀ r ∈ references (.obj fields), resolves r = true → resolves' r = true)
    (valid : isSchema resolves (.obj fields) = true) :
    areKeywords resolves' (additionalKeyword a) = true := by
  rcases ha : fields.get? "additionalProperties" with _ | arg
  · rw [ha] at h
    cases h with
    | absent => rfl
  · rw [ha] at h
    have own : references arg ⊆ references (.obj fields) :=
      references_of_member (Table.mem_of_get? ha)
    have argument := argument_valid valid ha
    rw [areKeywords_schema (by decide)] at argument
    cases h with
    | allowed => rfl
    | disallowed => rfl
    | typed preserves =>
      rw [additionalKeyword, areKeywords_schema (by decide)]
      exact preserves.valid (fun r hr => leads r (own hr)) argument

/-- What is said of other members is a schema on both sides or on neither. -/
lemma AdditionalOf.isObject {a : Additional} {arg? : Option Json} (h : AdditionalOf arg? a) :
    ((additionalKeyword a).get? "additionalProperties").any Json.isObject =
      arg?.any Json.isObject := by
  cases h with
  | @typed members s h =>
    obtain ⟨kind, description, nullable, extensions⟩ := s
    rfl
  | _ => rfl

/-- The required names that are written are as many as those that were read. -/
lemma Related.length_requiredOf {members : Fields} {schemas : List (String × Schema)}
    {required : List String} (h : Related members schemas) (names : members.keys.Nodup)
    (once : required.Nodup) (listed : ∀ name ∈ required, name ∈ members.keys) :
    (requiredOf (propertiesOf required schemas)).length = required.length := by
  have own : (requiredOf (propertiesOf required schemas)).Nodup := by
    refine requiredOf_nodup ?_
    rwa [h.names]
  have same : (requiredOf (propertiesOf required schemas)).Perm required := by
    rw [List.perm_ext_iff_of_nodup own once]
    intro name
    rw [h.mem_requiredOf]
    exact ⟨And.right, fun hn => ⟨listed name hn, hn⟩⟩
  exact same.length_eq

/-- The kind of an object that was read from some keywords. -/
def objectOf (fields : Fields) (schemas : List (String × Schema)) (a : Additional) : SchemaKind :=
  .object (propertiesOf (listedRequired fields) schemas) a

/-- An object was read, and all required names are those of properties. -/
structure ReadObject (fields : Fields) (schemas : List (String × Schema)) (a : Additional) :
    Prop where
  names : (listedProperties fields).keys.Nodup
  required : ∀ name ∈ listedRequired fields, name ∈ (listedProperties fields).keys
  related : Related (listedProperties fields) schemas
  additional : AdditionalOf (fields.get? "additionalProperties") a

section

variable {schemas : List (String × Schema)} {a : Additional} (h : ReadObject fields schemas a)
include h

/-- What is written of an object, keyword by keyword. -/
lemma keywords_objectOf : keywords (objectOf fields schemas a) =
    ("properties", .obj (propertyMembers (propertiesOf (listedRequired fields) schemas))) ::
      (requiredKeyword (propertiesOf (listedRequired fields) schemas) ++ additionalKeyword a) := by
  have own : (propertyMembers (propertiesOf (listedRequired fields) schemas)).keys.Nodup := by
    rw [h.related.keys]
    exact h.names
  rw [objectOf, keywords, Table.ofList_eq_self own]
  rfl

/-- Required names are let go on both sides or on neither. -/
lemma lenient_objectOf (valid : isSchema resolves (.obj fields) = true)
    (strict : c'.strict = c.strict) :
    (c'.surroundings (keywords (objectOf fields schemas a))).lenient =
      (c.surroundings fields).lenient := by
  obtain ⟨once, two⟩ := listedRequired_of_valid valid
  have length := h.related.length_requiredOf h.names once h.required
  have demanded (properties : List Property) :
      (((requiredKeyword properties).get? "required").bind Json.asArray?).any (·.length == 2) =
        ((requiredOf properties).length == 2) := by
    rw [requiredKeyword]
    cases requiredOf properties with
    | nil => rfl
    | cons name rest =>
      show (((name :: rest).map Json.str).length == 2) = _
      rw [List.length_map]
  have pair : pairBesideSchema (keywords (objectOf fields schemas a)) =
      pairBesideSchema fields := by
    rw [pairBesideSchema, pairBesideSchema, objectOf, get?_additional, get?_required,
      h.additional.isObject, demanded, length, two, ← objectOf, keywords_objectOf h,
      Table.get?_cons, if_pos rfl]
    rcases listedProperties_cases fields with hp | ⟨hp, none⟩
    · rw [hp]
      rfl
    · -- No properties are listed, so no names are required.
      have nothing : listedRequired fields = [] := by
        refine List.eq_nil_iff_forall_not_mem.mpr fun name hn => ?_
        have member := h.required name hn
        rw [none] at member
        cases member
      rw [nothing, hp]
      exact Bool.and_false _
  rw [Checker.surroundings, Checker.surroundings, pair, strict]

/-- The keywords that are written demand what those demand that the object was read from. -/
lemma checkKeywords_objectOf (valid : isSchema resolves (.obj fields) = true)
    (agrees : c.Agrees (references (.obj fields)) c') :
    checkKeywords c' (c'.surroundings (keywords (objectOf fields schemas a))) v
        (keywords (objectOf fields schemas a)) = [] ↔
      Demands c fields v "properties" ∧ Demands c fields v "required" ∧
        Demands c fields v "additionalProperties" := by
  have lenient := lenient_objectOf h valid agrees.strict
  have listed : (c'.surroundings (keywords (objectOf fields schemas a))).properties =
      some (propertyMembers (propertiesOf (listedRequired fields) schemas)) := by
    rw [keywords_objectOf h]
    rfl
  generalize c'.surroundings (keywords (objectOf fields schemas a)) = around at lenient listed
  have inside := agrees.mono (references_listedProperties fields)
  have members : checkKeywords c' around v [("properties",
      .obj (propertyMembers (propertiesOf (listedRequired fields) schemas)))] = [] ↔
      Demands c fields v "properties" := by
    rw [checkKeywords_properties, demands_properties_iff]
    exact forall₂_congr fun values _ => h.related.check_iff inside values
  have demanded : checkKeywords c' around v
      (requiredKeyword (propertiesOf (listedRequired fields) schemas)) = [] ↔
      Demands c fields v "required" := by
    rw [checkKeywords_requiredKeyword, lenient, demands_required_iff]
    refine or_congr_right (forall₂_congr fun values _ => forall_congr' fun name => ?_)
    rw [h.related.mem_requiredOf, and_iff_right_of_imp (h.required name)]
  have others : checkKeywords c' around v (additionalKeyword a) = [] ↔
      Demands c fields v "additionalProperties" := by
    refine h.additional.checkKeywords_iff agrees (unlisted_congr ?_ v)
    rw [listed, Option.getD_some, h.related.keys]
    rfl
  rw [keywords_objectOf h, checkKeywords_cons, checkKeywords_append,
    List.append_eq_nil_iff, List.append_eq_nil_iff, members, demanded, others]

lemma areKeywords_objectOf {resolves' : String → Bool}
    (leads : ∀ r ∈ references (.obj fields), resolves r = true → resolves' r = true)
    (valid : isSchema resolves (.obj fields) = true) :
    areKeywords resolves' (keywords (objectOf fields schemas a)) = true := by
  have members : areKeywords resolves' [("properties",
      .obj (propertyMembers (propertiesOf (listedRequired fields) schemas)))] = true := by
    rw [areKeywords_members (by decide)]
    have inside := fun r hr => leads r (references_listedProperties fields hr)
    exact ⟨_, rfl, h.related.valid inside (listedProperties_valid valid)⟩
  have own : ((propertiesOf (listedRequired fields) schemas).map Property.name).Nodup := by
    rw [h.related.names]
    exact h.names
  rw [keywords_objectOf h, areKeywords_cons, areKeywords_append, members,
    areKeywords_required resolves' own, h.additional.valid leads valid]
  rfl

lemma carries_objectOf (valid : isSchema resolves (.obj fields) = true)
    (typed : Typed fields (some "object") nullable) (type : DemandsType fields "object" nullable)
    (options : fields.get? "enum" = none) : Carries (objectOf fields schemas a) nullable fields where
  type c c' around v := by
    rw [type c v]
    exact checkKeywords_writtenType rfl around
  parts := by
    intro c c' agrees v ht
    rw [type c v] at ht
    have items := ne_arr_of_hasType ht (by decide)
    rw [checkKeywords_objectOf h valid agrees]
    simp only [kindKeywords, List.forall_mem_cons, List.not_mem_nil, false_implies,
      implies_true, and_true, demands_items_of_ne_arr items, demands_of_none options, true_and]
  valid leads valid := areKeywords_objectOf h leads valid
  properties := by
    intro name arg ha
    obtain ⟨s, hs, preserves⟩ := h.related.get? ha
    refine ⟨_, s, ?_, hs, preserves⟩
    rw [keywords_objectOf h]
    rfl
  items _ _ typed' _ := absurd (Option.some.inj (typed.unique typed')) (by decide)
  additional := by
    intro _ members _ ha
    have given := h.additional
    rw [ha] at given
    cases given with
    | @typed _ s preserves => exact ⟨s, get?_additional, preserves⟩

end

lemma preserves_object (valid : isSchema resolves (.obj fields) = true)
    (distinct : fields.keys.Nodup) (typed : Typed fields (some "object") nullable)
    (options : fields.get? "enum" = none) (names : (listedProperties fields).keys.Nodup)
    (required : ∀ name ∈ listedRequired fields, name ∈ (listedProperties fields).keys)
    (properties : ∀ m ∈ listedProperties fields,
      ∃ s, ofJsonAt (path ++ "." ++ m.1) m.2 = .ok s ∧ Preserves m.2 s)
    (additional : ∀ arg, fields.get? "additionalProperties" = some arg → arg ≠ .bool false →
      ∀ path, ∃ s, ofJsonAt path arg = .ok s ∧ Preserves arg s) :
    ∃ s, ofJsonAt path (.obj fields) = .ok s ∧ Preserves (.obj fields) s := by
  obtain ⟨_, type⟩ := demands_type typed (isTypeArgument_of_valid valid)
  obtain ⟨schemas, hp, related⟩ := exists_readMembers properties
  change Related _ schemas at related
  obtain ⟨a, ha, given⟩ := exists_readAdditional path additional
  have hk : readKind path fields (some "object")
      ⟨readProperties path fields, readAdditional path fields, readItems path fields⟩ =
      .ok (objectOf fields schemas a) := by
    have object : ((fields.get? "properties").any Json.isObject ||
        some "object" == some "object") = true := Bool.or_true _
    rw [readKind.eq_def, options, readProperties_eq, hp, ha]
    dsimp only
    rw [if_pos object]
    rfl
  obtain ⟨s, hs, hw⟩ := exists_written distinct typed hk rfl
  have carries := carries_objectOf ⟨names, required, related, given⟩ valid typed type options
  exact ⟨s, hs, carries.preserves distinct hw⟩

end

/-- **What is read of a JSON Schema says the same**, and can be read in the first place, if nothing
of it is lost. -/
theorem exists_preserves {a : Json} (kept : Kept a) : ∀ {resolves : String → Bool},
    isSchema resolves a = true → ∀ path, ∃ s, ofJsonAt path a = .ok s ∧ Preserves a s := by
  induction kept with
  | all =>
    intro _ _ path
    refine ⟨any, rfl, fun _ v => iff_of_true (check_any v) rfl, fun _ _ => rfl, fun stays => ?_⟩
    cases stays with
    | self => exact .some fun _ v => iff_of_true (check_any v) rfl
  | enumeration distinct typed options bare =>
    intro _ _ path
    exact preserves_enumeration distinct typed options bare
  | object distinct typed options names required _ _ properties additional =>
    intro resolves valid path
    refine preserves_object valid distinct typed options names required ?_ ?_
    · intro m hm
      exact properties m hm (areMemberSchemas_iff.mp (listedProperties_valid valid) m hm) _
    · intro arg ha hf path
      have argument := argument_valid valid ha
      rw [areKeywords_schema (by decide)] at argument
      exact additional arg ha hf argument path
  | array distinct typed options none _ items =>
    intro resolves valid path
    refine preserves_array valid distinct typed options none fun arg ha path => ?_
    have argument := argument_valid valid ha
    rw [areKeywords_schema (by decide)] at argument
    exact items arg ha argument path
  | scalar distinct typed options none object array =>
    intro resolves valid path
    exact preserves_scalar valid distinct typed options none object array
  | untyped distinct typed options bare =>
    intro _ _ path
    exact preserves_untyped distinct typed options bare

end Colloquy.Schema
