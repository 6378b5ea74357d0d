import Colloquy.Proofs.Failure
import Colloquy.Proofs.Json.Tidy
import Colloquy.Proofs.Schema.Emission
import Colloquy.Schema.Standard
import Mathlib.Data.List.Nodup

/-!
# JSON Schema that is read

A JSON Schema is read into a kind, and what is written again of the keywords that were taken apart
is what the kind models.  So a keyword is lost when it stands beside one that leads to a kind without
it: an enumeration goes before properties, and properties before the type.  `Kept` describes the
JSON Schemas in which this does not happen, one constructor for each way to be read, and `Stays` the
places in them at which the same is found again when they are written.

All other keywords are extensions, and stand after those of the kind when the schema is written.
-/

namespace Colloquy.Schema

open JsonSchema

/-! ## Taking keywords apart -/

/-- The schemas that the keyword `properties` lists. -/
def listedProperties (fields : Fields) : Fields :=
  ((fields.get? "properties").bind Json.asFields?).getD []

/-- The keywords that are not taken apart. -/
def unmodelled (fields : Fields) : Fields := fields.filter fun m => !modelledKeywords.contains m.1

/-- The keyword `type` as it stands. -/
def typeEntry (fields : Fields) : Fields :=
  match fields.get? "type" with
  | some t => [("type", t)]
  | none => []

lemma eq_of_mem_typeEntry {fields : Fields} {key : String} (h : key ∈ (typeEntry fields).keys) :
    key = "type" := by
  rw [typeEntry] at h
  split at h
  · exact List.mem_singleton.mp h
  · cases h

/-- The keyword `type` names a single type, if it does, and lets null pass as well, if it does. -/
def Typed (fields : Fields) (typeName : Option String) (nullable : Bool) : Prop :=
  ∀ path, readType path fields = .ok (typeName, nullable)

/-- No keyword says anything of members or items. -/
def Bare (fields : Fields) : Prop :=
  ∀ key ∈ ["properties", "required", "items", "additionalProperties"], fields.get? key = none

/-- The property holds of what has no keywords, and it passes on from the schemas inside a JSON Schema
to the whole. -/
structure Inherited (P : Json → Prop) : Prop where
  plain : ∀ a, a.isObject = false → P a
  obj : ∀ fields : Fields, fields.keys.Nodup → (listedProperties fields).keys.Nodup →
    (∀ key arg, fields.get? key = some arg → P arg) → (∀ m ∈ listedProperties fields, P m.2) →
    P (.obj fields)

mutual

/-- What is inherited holds of every tidy JSON Schema. -/
theorem Inherited.holds {P : Json → Prop} (h : Inherited P) : (a : Json) → a.Tidy → P a
  | .obj fields, tidy => by
    have inside := h.holds_fields fields tidy.2
    have listed : (listedProperties fields).keys.Nodup ∧
        ∀ m ∈ listedProperties fields, P m.2 := by
      rw [listedProperties]
      cases hp : Table.get? fields "properties" with
      | none => exact ⟨List.nodup_nil, fun m hm => absurd hm List.not_mem_nil⟩
      | some arg =>
        cases arg with
        | obj members => exact (inside _ (Table.mem_of_get? hp)).2 members rfl
        | _ => exact ⟨List.nodup_nil, fun m hm => absurd hm List.not_mem_nil⟩
    exact h.obj fields tidy.1 listed.1 (fun key arg ha => (inside _ (Table.mem_of_get? ha)).1)
      listed.2
  | .null, _ => h.plain _ rfl
  | .bool _, _ => h.plain _ rfl
  | .num _, _ => h.plain _ rfl
  | .str _, _ => h.plain _ rfl
  | .arr _, _ => h.plain _ rfl
termination_by structural a => a

theorem Inherited.holds_fields {P : Json → Prop} (h : Inherited P) :
    (fields : List (String × Json)) → Json.TidyFields fields →
    ∀ m ∈ fields, P m.2 ∧ ∀ members, m.2 = .obj members →
      (Table.keys members).Nodup ∧ ∀ n ∈ members, P n.2
  | [], _ => fun m hm => absurd hm List.not_mem_nil
  | (key, value) :: rest, tidy => by
    have first := h.holds value tidy.1
    have others := h.holds_fields rest tidy.2
    refine List.forall_mem_cons.mpr ⟨⟨first, fun members he => ?_⟩, others⟩
    cases value with
    | obj members' =>
      obtain rfl := Json.obj.inj he
      have inside := h.holds_fields members' tidy.1.2
      exact ⟨tidy.1.1, fun n hn => (inside n hn).1⟩
    | _ => cases he
termination_by structural fields => fields

end

lemma readProperties_eq (path : String) (fields : Fields) :
    readProperties path fields = readMembers path (listedProperties fields) := by
  induction fields with
  | nil => rfl
  | cons m rest ih =>
    obtain ⟨keyword, value⟩ := m
    rw [readProperties.eq_def, listedProperties, Table.get?_cons]
    by_cases hk : keyword = "properties"
    · subst hk
      cases value <;> rfl
    · dsimp only
      rw [if_neg hk, if_neg (Ne.symm hk), ih]
      rfl

lemma readAdditional_eq (path : String) (fields : Fields) :
    readAdditional path fields = match fields.get? "additionalProperties" with
      | none | some (.bool true) => .ok .allowed
      | some (.bool false) => .ok .disallowed
      | some arg => (ofJsonAt (path ++ ".additionalProperties") arg).map .typed := by
  induction fields with
  | nil => rfl
  | cons m rest ih =>
    obtain ⟨keyword, value⟩ := m
    rw [readAdditional.eq_def, Table.get?_cons]
    by_cases hk : keyword = "additionalProperties"
    · subst hk
      rcases value with _ | (_ | _) | _ | _ | _ | _ <;> rfl
    · dsimp only
      rw [if_neg hk, if_neg (Ne.symm hk), ih]

lemma readItems_eq (path : String) (fields : Fields) :
    readItems path fields = match fields.get? "items" with
      | none => .ok any
      | some arg => ofJsonAt (path ++ "[]") arg := by
  induction fields with
  | nil => rfl
  | cons m rest ih =>
    obtain ⟨keyword, value⟩ := m
    rw [readItems, Table.get?_cons]
    by_cases hk : keyword = "items"
    · subst hk
      rfl
    · rw [if_neg hk, if_neg (Ne.symm hk), ih]

/-- When all of some members can be read, the schemas come in their order and under their names. -/
lemma exists_readMembers {path : String} {P : Json → Schema → Prop} {members : Fields}
    (h : ∀ m ∈ members, ∃ s, ofJsonAt (path ++ "." ++ m.1) m.2 = .ok s ∧ P m.2 s) :
    ∃ schemas, readMembers path members = .ok schemas ∧
      List.Forall₂ (fun m p => p.1 = m.1 ∧ P m.2 p.2) members schemas := by
  induction members with
  | nil => exact ⟨[], rfl, .nil⟩
  | cons m rest ih =>
    obtain ⟨name, value⟩ := m
    obtain ⟨s, hs, hp⟩ := h _ List.mem_cons_self
    obtain ⟨schemas, hr, related⟩ := ih fun m hm => h m (List.mem_cons_of_mem _ hm)
    refine ⟨(name, s) :: schemas, ?_, .cons ⟨rfl, hp⟩ related⟩
    rw [readMembers, hs, hr]
    rfl

/-- The schemas of properties are read under the names that they are listed under. -/
lemma readMembers_spec {path : String} {members : Fields} {schemas : List (String × Schema)}
    (h : readMembers path members = .ok schemas) : schemas.map Prod.fst = members.keys ∧
      ∀ x ∈ schemas, ∃ m ∈ members, ∃ path, ofJsonAt path m.2 = .ok x.2 := by
  induction members generalizing schemas with
  | nil =>
    obtain rfl := Except.ok.inj h
    exact ⟨rfl, fun x hx => absurd hx List.not_mem_nil⟩
  | cons m rest ih =>
    obtain ⟨name, value⟩ := m
    rw [readMembers] at h
    obtain ⟨schema, hs, h⟩ := exists_of_bind_eq_ok h
    obtain ⟨others, ho, h⟩ := exists_of_bind_eq_ok h
    obtain rfl := Except.ok.inj h
    obtain ⟨names, inside⟩ := ih ho
    refine ⟨congrArg (name :: ·) names, fun x hx => ?_⟩
    rcases List.mem_cons.mp hx with rfl | hx
    · exact ⟨_, List.mem_cons_self, _, hs⟩
    · obtain ⟨m, hm, path, hp⟩ := inside x hx
      exact ⟨m, List.mem_cons_of_mem _ hm, path, hp⟩

/-- The schema of other members is read from what stands under the keyword. -/
lemma readAdditional_eq_typed {path : String} {fields : Fields} {s : Schema}
    (h : readAdditional path fields = .ok (.typed s)) :
    ∃ arg path', fields.get? "additionalProperties" = some arg ∧ ofJsonAt path' arg = .ok s := by
  rw [readAdditional_eq] at h
  split at h
  · cases h
  · cases h
  · cases h
  · rename_i arg _ _ ha
    obtain ⟨t, ht, he⟩ := exists_of_map_eq_ok h
    obtain rfl := Additional.typed.inj he
    exact ⟨arg, _, ha, ht⟩

/-- The schema of items is read from what stands under the keyword, if anything does. -/
lemma readItems_eq_ok {path : String} {fields : Fields} {s : Schema}
    (h : readItems path fields = .ok s) :
    s = any ∨ ∃ arg path', fields.get? "items" = some arg ∧ ofJsonAt path' arg = .ok s := by
  rw [readItems_eq] at h
  split at h
  · exact .inl (Except.ok.inj h).symm
  · rename_i arg ha
    exact .inr ⟨arg, _, ha, h⟩

/-- Of what has no keywords, only the schema of all values can be read. -/
lemma eq_any_of_ofJsonAt {a : Json} (plain : a.isObject = false) {path : String} {s : Schema}
    (h : ofJsonAt path a = .ok s) : s = any := by
  cases a with
  | obj fields => cases plain
  | bool b =>
    cases b with
    | true => exact (Except.ok.inj h).symm
    | false => cases h
  | _ => cases h

section

variable {path : String} {fields : Fields} {typeName : Option String} {nullable : Bool}
  {kind : SchemaKind}

/-- What the keyword `type` says does not depend on where the schema stands. -/
lemma typed_of_readType (h : readType path fields = .ok (typeName, nullable)) :
    Typed fields typeName nullable := by
  intro path'
  rw [readType] at h ⊢
  cases ht : fields.get? "type" with
  | none =>
    rw [ht] at h
    exact h
  | some arg =>
    rw [ht] at h
    cases arg <;> first | exact h | cases h

/-- Null is a type of its own, beside which null is not listed as well. -/
lemma Typed.null (h : Typed fields (some "null") nullable) : nullable = false := by
  have h := h ""
  rw [readType] at h
  split at h
  · cases h
  · exact (Prod.mk.inj (Except.ok.inj h)).2.symm
  · dsimp only at h
    split at h
    · exact (Prod.mk.inj (Except.ok.inj h)).2.symm
    · rename_i name single
      obtain ⟨rfl, -⟩ : name = "null" ∧ _ := by simpa using h
      have member := List.mem_filter.mp (single ▸ List.mem_singleton_self "null")
      simp at member
    · cases h
  · cases h

/-- The kind has no parts and names no values. -/
def Simple : SchemaKind → Prop
  | .array _ => False
  | .object _ _ => False
  | .enumeration _ => False
  | _ => True

/-- The ways in which a kind is read from some keywords. -/
inductive ReadAs (path : String) (fields : Fields) (typeName : Option String) : SchemaKind → Prop
  | enumeration {values : List Json} (options : fields.get? "enum" = some (.arr values)) :
      ReadAs path fields typeName (.enumeration values)
  | object {schemas : List (String × Schema)} {additional : Additional}
      (properties : readMembers path (listedProperties fields) = .ok schemas)
      (others : readAdditional path fields = .ok additional) :
      ReadAs path fields typeName (.object (schemas.map fun (name, s) =>
        ⟨name, s, !(listedRequired fields).contains name⟩) additional)
  | array {items : Schema} (type : typeName = some "array")
      (inside : readItems path fields = .ok items) : ReadAs path fields typeName (.array items)
  | simple {kind : SchemaKind} (type : typeName = kind.typeName?) (simple : Simple kind) :
      ReadAs path fields typeName kind

lemma readAs_of_readKind (h : readKind path fields typeName ⟨readProperties path fields, readAdditional path fields,
      readItems path fields⟩ = .ok kind) : ReadAs path fields typeName kind := by
  rw [readKind.eq_def] at h
  split at h
  · rename_i options
    obtain rfl := Except.ok.inj h
    exact .enumeration options
  split at h
  · obtain ⟨schemas, hs, h⟩ := exists_of_bind_eq_ok h
    obtain ⟨a, ha, h⟩ := exists_of_bind_eq_ok h
    obtain rfl := Except.ok.inj h
    rw [readProperties_eq] at hs
    exact .object hs ha
  split at h
  case h_7 =>
    obtain ⟨items, hi, h⟩ := exists_of_bind_eq_ok h
    obtain rfl := Except.ok.inj h
    exact .array rfl hi
  case h_8 => cases h
  all_goals
    obtain rfl := Except.ok.inj h
    exact .simple rfl trivial

lemma ReadAs.kept (h : ReadAs path fields typeName kind) (hn : kind.typeName? = none) : 
    (isEnumeration kind || typeName.isNone) = true := by
  cases h with
  | enumeration => rfl
  | object => cases hn
  | array => cases hn
  | simple type => rw [type, hn, Option.isNone_none, Bool.or_true]

lemma ofJsonAt_eq (typed : Typed fields typeName nullable)
    (hk : readKind path fields typeName
      ⟨readProperties path fields, readAdditional path fields, readItems path fields⟩ =
      .ok kind) :
    ofJsonAt path (.obj fields) = .ok ⟨kind, (fields.get? "description").bind Json.asString?,
      nullable, readExtensions fields kind typeName⟩ := by
  rw [ofJsonAt, ofParts, typed path]
  show (readKind _ _ _ _ >>= _) = _
  rw [hk]
  rfl

/-! ## Extensions -/

lemma keys_unmodelled {key : String} (h : key ∈ (unmodelled fields).keys) :
    key ∉ modelledKeywords := by
  obtain ⟨m, hm, rfl⟩ := List.mem_map.mp h
  simpa using (List.mem_filter.mp hm).2

lemma readExtensions_modelled (hk : isEnumeration kind = false) (ht : typeName.isNone = false) :
    readExtensions fields kind typeName = unmodelled fields := by
  rw [readExtensions, hk, ht]
  cases fields.get? "type" <;> rfl

lemma readExtensions_kept (h : (isEnumeration kind || typeName.isNone) = true) :
    readExtensions fields kind typeName = unmodelled fields ++ typeEntry fields := by
  have fresh : "type" ∉ (unmodelled fields).keys := fun ht => keys_unmodelled ht (by decide)
  rw [readExtensions, typeEntry]
  cases fields.get? "type" with
  | none => exact (List.append_nil _).symm
  | some t =>
    dsimp only
    rw [if_pos h]
    exact Table.set_eq_append fresh t

lemma nodup_unmodelled (h : fields.keys.Nodup) : (unmodelled fields).keys.Nodup :=
  h.sublist (List.filter_sublist.map _)

lemma get?_unmodelled {key : String} (h : key ∉ modelledKeywords) :
    (unmodelled fields).get? key = fields.get? key := by
  induction fields with
  | nil => rfl
  | cons m rest ih =>
    obtain ⟨k, v⟩ := m
    rw [Table.get?_cons, ← ih, unmodelled, List.filter_cons]
    by_cases hk : key = k
    · subst hk
      simp [h, Table.get?_cons]
    · split
      · rw [Table.get?_cons, if_neg hk]
        rfl
      · rfl

end

/-! ## Writing extensions -/

lemma addMissing_eq_append {base more : Fields} (fresh : ∀ key ∈ more.keys, key ∉ base.keys)
    (nodup : more.keys.Nodup) : addMissing base more = base ++ more := by
  induction more generalizing base with
  | nil => exact (List.append_nil base).symm
  | cons m rest ih =>
    have missing : base.has m.1 = false := by
      rw [Bool.eq_false_iff, ne_eq, Table.has_iff_mem_keys]
      exact fresh m.1 List.mem_cons_self
    obtain ⟨own, others⟩ := List.nodup_cons.mp nodup
    have rest' : addMissing (base ++ [m]) rest = base ++ [m] ++ rest := by
      refine ih (fun key hk => ?_) others
      rw [Table.keys, List.map_append, List.mem_append, not_or]
      refine ⟨fresh key (List.mem_cons_of_mem _ hk), fun he => own ?_⟩
      rwa [← List.mem_singleton.mp he]
    rw [addMissing, List.foldl_cons, missing, if_neg Bool.false_ne_true, ← addMissing, rest',
      List.append_assoc]
    rfl

lemma addMissing_append (base first second : Fields) :
    addMissing base (first ++ second) = addMissing (addMissing base first) second :=
  List.foldl_append

/-- The type as it stood is not written beside another one. -/
lemma addMissing_typeEntry {base : Fields} (h : base.has "type" = true) (fields : Fields) :
    addMissing base (typeEntry fields) = base := by
  rw [typeEntry]
  split
  · rw [addMissing, List.foldl_cons, if_pos h]
    rfl
  · rfl

/-- The keywords that are written for what a schema models. -/
def modelled (s : Schema) : Fields :=
  typeKeyword s.kind s.nullable ++ keywords s.kind ++ descriptionKeyword s.description

lemma toJson_eq_addMissing (s : Schema) : s.toJson = .obj (addMissing s.modelled s.extensions) := by
  obtain ⟨kind, description, nullable, extensions⟩ := s
  cases description <;> rfl

/-- Of several entries under a key only the first is added, and none where the key is there. -/
lemma mem_addMissing_iff {base more : Fields} {m : String × Json} :
    m ∈ addMissing base more ↔
      m ∈ base ∨ base.has m.1 = false ∧ Table.get? more m.1 = some m.2 := by
  induction more generalizing base with
  | nil => simp [addMissing]
  | cons n rest ih =>
    rw [addMissing, List.foldl_cons, ← addMissing, ih]
    obtain ⟨k, v⟩ := n
    obtain ⟨key, value⟩ := m
    rw [Table.get?_cons]
    by_cases hb : base.has k = true
    · rw [if_pos hb]
      refine or_congr_right (and_congr_right fun absent => ?_)
      have other : key ≠ k := by
        rintro rfl
        cases absent.symm.trans hb
      rw [if_neg other]
    · rw [if_neg hb]
      have keys : Table.has (base ++ [(k, v)]) key = (base.has key || decide (key = k)) := by
        rw [Bool.eq_iff_iff, Bool.or_eq_true, Table.has_iff_mem_keys, Table.has_iff_mem_keys]
        simp [Table.keys]
      rw [keys, List.mem_append, List.mem_singleton]
      by_cases hk : key = k
      · subst hk
        simp [hb, eq_comm]
      · simp [hk]

/-- Extensions are found where there is nothing else. -/
lemma get?_addMissing (base more : Fields) (key : String) :
    Table.get? (addMissing base more) key = (base.get? key).or (Table.get? more key) := by
  induction more generalizing base with
  | nil => simp [addMissing]
  | cons n rest ih =>
    obtain ⟨k, v⟩ := n
    rw [addMissing, List.foldl_cons, ← addMissing, ih, Table.get?_cons]
    by_cases hb : base.has k = true
    · rw [if_pos hb]
      split
      · rename_i hk
        obtain ⟨w, hw⟩ := Option.isSome_iff_exists.mp (hk ▸ hb : base.has key = true)
        rw [hw]
        rfl
      · rfl
    · rw [if_neg hb, Table.get?_append, Option.or_assoc, Table.get?_cons]
      split <;> rfl

/-- The keywords that are written for a kind, but for its type. -/
def kindKeywords : List String :=
  ["items", "properties", "required", "additionalProperties", "enum"]

lemma keys_keywords {kind : SchemaKind} {key : String} (h : key ∈ (keywords kind).keys) :
    key ∈ kindKeywords := by
  cases kind with
  | array items =>
    obtain rfl : key = "items" := List.mem_singleton.mp h
    decide
  | enumeration values =>
    obtain rfl : key = "enum" := List.mem_singleton.mp h
    decide
  | object properties additional =>
    rw [keywords, Table.keys, List.map_append, List.mem_append, List.map_cons, List.mem_cons] at h
    rcases h with (h | h) | h
    · obtain rfl : key = "properties" := h
      decide
    · rw [requiredKeyword] at h
      split at h
      · cases h
      · obtain rfl : key = "required" := List.mem_singleton.mp h
        decide
    · cases additional with
      | allowed => cases h
      | _ =>
        obtain rfl : key = "additionalProperties" := List.mem_singleton.mp h
        decide
  | _ => cases h

lemma get?_typeKeyword {kind : SchemaKind} {nullable : Bool} {name : String}
    (hn : kind.typeName? = some name) :
    Table.get? (typeKeyword kind nullable) "type" = some
      (if nullable && name != "null" then .arr [.str name, .str "null"] else .str name) := by
  rw [typeKeyword, hn]
  dsimp only
  split <;> rfl

/-- The keywords that are written for a kind are among those that are taken apart. -/
lemma keys_modelled {kind : SchemaKind} {nullable : Bool} {description : Option String}
    {key : String} (h : key ∈ Table.keys
      (typeKeyword kind nullable ++ keywords kind ++ descriptionKeyword description)) :
    key ∈ modelledKeywords ∧ (key = "type" → kind.typeName?.isSome) := by
  rw [Table.keys, List.map_append, List.map_append, List.mem_append, List.mem_append] at h
  rcases h with (h | h) | h
  · rw [typeKeyword] at h
    split at h
    · cases h
    · rename_i name hn
      obtain rfl : key = "type" := by
        split at h <;> exact List.mem_singleton.mp h
      exact ⟨by decide, fun _ => by rw [hn]; rfl⟩
  · have other : ∀ key ∈ kindKeywords, key ∈ modelledKeywords ∧ key ≠ "type" := by decide
    obtain ⟨modelled, ht⟩ := other key (keys_keywords h)
    exact ⟨modelled, fun he => absurd he ht⟩
  · cases description with
    | none => cases h
    | some d =>
      obtain rfl : key = "description" := List.mem_singleton.mp h
      exact ⟨by decide, fun he => absurd he (by decide)⟩

/-- Extensions stand after the keywords of the kind, unless one is among these. -/
lemma toJson_eq_append (kind : SchemaKind) (description : Option String) (nullable : Bool)
    {extensions : Fields} (nodup : extensions.keys.Nodup)
    (fresh : ∀ key ∈ extensions.keys,
      key ∉ modelledKeywords ∨ key = "type" ∧ kind.typeName? = none) :
    toJson ⟨kind, description, nullable, extensions⟩ = .obj
      (typeKeyword kind nullable ++ keywords kind ++ descriptionKeyword description ++
        extensions) := by
  rw [toJson_eq_addMissing, modelled, addMissing_eq_append _ nodup]
  intro key hk hm
  obtain ⟨modelled, own⟩ := keys_modelled hm
  rcases fresh key hk with hn | ⟨ht, hn⟩
  · exact hn modelled
  · have := own ht
    rw [hn] at this
    cases this

/-! ## Schemas that are kept -/

/-- **A JSON Schema of which nothing is lost when it is read**, with what is read of it. -/
inductive Kept : Json → Prop
  /-- The schema that every value satisfies. -/
  | all : Kept (.bool true)
  /-- An enumeration, beside which nothing is said of members or items. -/
  | enumeration {fields : Fields} {typeName : Option String} {nullable : Bool} {values : List Json}
      (distinct : fields.keys.Nodup) (typed : Typed fields typeName nullable)
      (options : fields.get? "enum" = some (.arr values)) (bare : Bare fields) :
      Kept (.obj fields)
  /-- The type is that of objects, and all required names are those of properties. -/
  | object {fields : Fields} {nullable : Bool} (distinct : fields.keys.Nodup)
      (typed : Typed fields (some "object") nullable) (options : fields.get? "enum" = none)
      (names : (listedProperties fields).keys.Nodup)
      (required : ∀ name ∈ listedRequired fields, name ∈ (listedProperties fields).keys)
      (properties : ∀ m ∈ listedProperties fields, Kept m.2)
      (additional : ∀ arg, fields.get? "additionalProperties" = some arg → arg ≠ .bool false →
        Kept arg) :
      Kept (.obj fields)
  /-- The type is that of arrays, and there are no properties. -/
  | array {fields : Fields} {nullable : Bool} (distinct : fields.keys.Nodup)
      (typed : Typed fields (some "array") nullable) (options : fields.get? "enum" = none)
      (properties : fields.get? "properties" = none)
      (items : ∀ arg, fields.get? "items" = some arg → Kept arg) :
      Kept (.obj fields)
  /-- The type is one of values without parts, and there are no properties. -/
  | scalar {fields : Fields} {name : String} {nullable : Bool} (distinct : fields.keys.Nodup)
      (typed : Typed fields (some name) nullable) (options : fields.get? "enum" = none)
      (properties : fields.get? "properties" = none) (object : name ≠ "object")
      (array : name ≠ "array") :
      Kept (.obj fields)
  /-- There is no type or there are several, and nothing is said of members or items. -/
  | untyped {fields : Fields} (distinct : fields.keys.Nodup) (typed : Typed fields none false)
      (options : fields.get? "enum" = none) (bare : Bare fields) :
      Kept (.obj fields)

/-- There is something at the end of some segments that is kept where it is, if the JSON Schema is:
the schema itself, something in an extension, or something in a schema inside that its kind has. -/
inductive Stays : Json → List String → Prop
  | self {a : Json} : Stays a []
  | extension {fields : Fields} {keyword : String} {rest : List String}
      (h : keyword ∉ modelledKeywords) : Stays (.obj fields) (keyword :: rest)
  | property {fields : Fields} {name : String} {rest : List String} {arg : Json}
      (h : (listedProperties fields).get? name = some arg) (inside : Stays arg rest) :
      Stays (.obj fields) ("properties" :: name :: rest)
  | items {fields : Fields} {nullable : Bool} {rest : List String} {arg : Json}
      (typed : Typed fields (some "array") nullable) (h : fields.get? "items" = some arg)
      (inside : Stays arg rest) : Stays (.obj fields) ("items" :: rest)
  | additional {fields members : Fields} {nullable : Bool} {rest : List String}
      (typed : Typed fields (some "object") nullable)
      (h : fields.get? "additionalProperties" = some (.obj members))
      (inside : Stays (.obj members) rest) : Stays (.obj fields) ("additionalProperties" :: rest)

lemma Typed.unique {fields : Fields} {name name' : Option String} {nullable nullable' : Bool}
    (h : Typed fields name nullable) (again : Typed fields name' nullable') : name = name' := by
  have same := Except.ok.inj ((h "").symm.trans (again ""))
  exact (Prod.mk.inj same).1

/-- What is written for a kind that was read from some keywords. -/
def written (kind : SchemaKind) (nullable : Bool) (fields : Fields) : Fields :=
  typeKeyword kind nullable ++ keywords kind ++
    descriptionKeyword ((fields.get? "description").bind Json.asString?) ++
    (unmodelled fields ++ if kind.typeName?.isNone then typeEntry fields else [])

/-- This is how a schema is written that was read from some keywords.  The keyword `type` has to be
kept for kinds that have none; beside that of another kind it is not written. -/
lemma toJson_read {fields : Fields} {typeName : Option String} {nullable : Bool} {kind : SchemaKind}
    (distinct : (unmodelled fields).keys.Nodup)
    (kept : kind.typeName? = none → (isEnumeration kind || typeName.isNone) = true) :
    toJson ⟨kind, (fields.get? "description").bind Json.asString?, nullable,
      readExtensions fields kind typeName⟩ = .obj (written kind nullable fields) := by
  have others : ∀ key ∈ (unmodelled fields).keys, key ∉ modelledKeywords :=
    fun key => keys_unmodelled
  cases hn : kind.typeName? with
  | none =>
    rw [readExtensions_kept (kept hn), written, hn, Option.isNone_none, if_pos rfl]
    have single : (typeEntry fields).keys.Nodup := by
      rw [typeEntry]
      split
      · exact List.nodup_singleton _
      · exact List.nodup_nil
    refine toJson_eq_append kind _ nullable ?_ fun key hk => ?_
    · rw [Table.keys, List.map_append]
      refine distinct.append single fun key hk ht => others key hk ?_
      rw [eq_of_mem_typeEntry ht]
      decide
    · rw [Table.keys, List.map_append, List.mem_append] at hk
      rcases hk with hk | hk
      · exact .inl (others key hk)
      · exact .inr ⟨eq_of_mem_typeEntry hk, hn⟩
  | some name =>
    have own := toJson_eq_append kind ((fields.get? "description").bind Json.asString?) nullable
      distinct fun key hk => .inl (others key hk)
    rw [written, hn, Option.isNone_some, if_neg Bool.false_ne_true, List.append_nil, ← own]
    by_cases hk : (isEnumeration kind || typeName.isNone) = true
    · rw [readExtensions_kept hk, toJson_eq_addMissing, toJson_eq_addMissing]
      dsimp only
      rw [addMissing_append, addMissing_typeEntry]
      · rfl
      · rw [Table.has, get?_addMissing, modelled, Table.get?_append, Table.get?_append,
          get?_typeKeyword hn]
        rfl
    · obtain ⟨hk, ht⟩ := Bool.or_eq_false_iff.mp (Bool.eq_false_iff.mpr hk)
      rw [readExtensions_modelled hk ht]

/-- A schema whose kind could be read is read, and written as it should be. -/
lemma exists_written {path : String} {fields : Fields} {typeName : Option String} {nullable : Bool}
    {kind : SchemaKind} (distinct : fields.keys.Nodup) (typed : Typed fields typeName nullable)
    (hk : readKind path fields typeName
      ⟨readProperties path fields, readAdditional path fields, readItems path fields⟩ =
      .ok kind)
    (ht : (isEnumeration kind || typeName.isNone) = kind.typeName?.isNone) :
    ∃ s, ofJsonAt path (.obj fields) = .ok s ∧ s.toJson = .obj (written kind nullable fields) := by
  refine ⟨_, ofJsonAt_eq typed hk, toJson_read (nodup_unmodelled distinct) fun none => ?_⟩
  rw [ht, none, Option.isNone_none]

end Colloquy.Schema
