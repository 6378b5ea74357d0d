import Colloquy.Proofs.Json.Tidy
import Colloquy.Proofs.Schema.Levels
import Colloquy.Proofs.Schema.Pico
import Colloquy.Proofs.Schema.Reading

/-!
# Properties by name

An object that is written lists each property under its name, so properties of one name would get
into each other's way: only the last would be listed, and a name could be required twice, which makes
the schema invalid.  Schemas that are read have one property per name.  Those of a picoschema have
exactly where its keys name different properties (`Clear`).
-/

namespace Colloquy

namespace Pico

/-- No two keys of a map name the same property. -/
def Clear (members : List (String × Json)) : Prop :=
  members.Pairwise fun a b => ∀ name optional list optional' list',
    Spells a.1 (.property name optional list) → ¬Spells b.1 (.property name optional' list')

end Pico

namespace Schema

open JsonSchema

/-! ## Objects with one property per name -/

/-- Among some keywords each property is listed under its name with its schema, and the names are
required, each once, of the properties that are not optional. -/
structure Lists (properties : List Property) (fields : Fields) : Prop where
  own : ∀ q ∈ properties, (listedProperties fields).get? q.name = some q.schema.toJson
  required : ∀ q ∈ properties,
    (listedRequired fields).count q.name = if q.optional then 0 else 1
  /-- The names that are required are no reason for the schema to be invalid. -/
  names : ∀ arg, fields.get? "required" = some arg → isNameList arg = true

lemma mem_propertyMembers {properties : List Property} {q : Property} (h : q ∈ properties) :
    (q.name, q.schema.toJson) ∈ propertyMembers properties := by
  rw [propertyMembers_eq_map]
  exact List.mem_map_of_mem h

lemma mem_names_of_mem_requiredOf {properties : List Property} {name : String}
    (h : name ∈ requiredOf properties) : name ∈ properties.map Property.name :=
  (List.filter_sublist.map _).subset h

lemma count_requiredOf {properties : List Property}
    (nodup : (properties.map Property.name).Nodup) {q : Property} (h : q ∈ properties) :
    (requiredOf properties).count q.name = if q.optional then 0 else 1 := by
  induction properties with
  | nil => cases h
  | cons p rest ih =>
    obtain ⟨own, others⟩ := List.nodup_cons.mp nodup
    have absent : p.name ∉ requiredOf rest := fun hr => own (mem_names_of_mem_requiredOf hr)
    obtain ⟨name, schema, optional⟩ := p
    rw [requiredOf_cons]
    rcases List.mem_cons.mp h with rfl | h
    · cases optional with
      | true => exact List.count_eq_zero_of_not_mem absent
      | false => simpa [List.count_eq_zero] using absent
    · have member : q.name ∈ rest.map Property.name := List.mem_map_of_mem h
      have other : q.name ≠ name := fun he => own (he ▸ member)
      rw [← ih others h]
      split
      · rfl
      · rw [List.count_cons_of_ne other.symm]

/-- **An object with one property per name is written as it should be**, if it has no keyword
`required` of its own. -/
lemma exists_lists {t : Schema} {properties : List Property} {additional : Additional}
    (hk : t.kind = .object properties additional) (nodup : (properties.map Property.name).Nodup)
    (free : "required" ∉ Table.keys t.extensions) :
    ∃ fields, t.toJson = .obj fields ∧ Lists properties fields := by
  obtain ⟨kind, description, nullable, extensions⟩ := t
  subst hk
  refine ⟨_, toJson_eq_addMissing _, ?_⟩
  have listed : Table.get? (addMissing (modelled ⟨.object properties additional, description,
      nullable, extensions⟩) extensions) "properties" =
        some (.obj (propertyMembers properties)) := by
    rw [get?_addMissing, modelled, get?_keywords _ _ _ (by decide) (by decide), keywords,
      List.cons_append, Table.get?_cons, if_pos rfl, Table.ofList_eq_self]
    · rfl
    · rwa [propertyMembers_keys]
  have required : Table.get? (addMissing (modelled ⟨.object properties additional, description,
      nullable, extensions⟩) extensions) "required" =
        Table.get? (requiredKeyword properties) "required" := by
    rw [get?_addMissing, Table.get?_eq_none free, Option.or_none, modelled,
      get?_keywords _ _ _ (by decide) (by decide), get?_required]
  have names := isNameList_map_str.mpr (requiredOf_nodup nodup)
  refine ⟨fun q hq => ?_, fun q hq => ?_, fun arg ha => ?_⟩
  · rw [listedProperties, listed]
    have keys : Table.keys (propertyMembers properties) = _ := propertyMembers_keys properties
    exact Table.get?_of_mem (keys ▸ nodup) (mem_propertyMembers hq)
  · rw [← count_requiredOf nodup hq, listedRequired, required, requiredKeyword]
    cases requiredOf properties with
    | nil => rfl
    | cons name rest => simp [Table.get?, Json.asArray?, Json.asString?, Function.comp_def]
  · rw [required, requiredKeyword] at ha
    cases hr : requiredOf properties with
    | nil =>
      rw [hr] at ha
      cases ha
    | cons name rest =>
      rw [hr] at ha names
      obtain rfl := Option.some.inj ha
      exact names

/-! ## Regular schemas -/

/-- Nothing is said beside the kind, and the properties of an object have different names. -/
def Plain (t : Schema) : Prop :=
  t.extensions = [] ∧ ∀ properties additional, t.kind = .object properties additional →
    (properties.map Property.name).Nodup

mutual

/-- A schema is regular if all that stands in it is plain. -/
theorem regular_of_parts : (s : Schema) → (∀ t, Part t s → Plain t) → s.Regular true
  | ⟨kind, description, nullable, extensions⟩, h =>
    ⟨(h _ .self).1, kind_regular_of_parts kind ⟨kind, description, nullable, extensions⟩ rfl h⟩
termination_by structural s => s

theorem kind_regular_of_parts : (kind : SchemaKind) → ∀ s : Schema, s.kind = kind →
    (∀ t, Part t s → Plain t) → kind.Regular true
  | .array items, _, hk, h => regular_of_parts items fun t ht => h t (.item hk ht)
  | .object properties additional, s, hk, h => by
    have inside := properties_regular_of_parts properties fun q hq t ht => h t (.property hk hq ht)
    have others := additional_regular_of_parts additional fun u hu t ht =>
      h t (.other (hu ▸ hk) ht)
    exact ⟨(h s .self).2 properties additional hk, .inl rfl, inside, others⟩
  | .any, _, _, _ => trivial
  | .string, _, _, _ => trivial
  | .number, _, _, _ => trivial
  | .integer, _, _, _ => trivial
  | .boolean, _, _, _ => trivial
  | .null, _, _, _ => trivial
  | .enumeration _, _, _, _ => trivial
termination_by structural kind => kind

theorem properties_regular_of_parts : (properties : List Property) →
    (∀ q ∈ properties, ∀ t, Part t q.schema → Plain t) → RegularProperties true properties
  | [], _ => trivial
  | ⟨_, schema, _⟩ :: rest, h =>
    ⟨regular_of_parts schema (h _ List.mem_cons_self),
      properties_regular_of_parts rest fun q hq => h q (List.mem_cons_of_mem _ hq)⟩
termination_by structural properties => properties

theorem additional_regular_of_parts : (additional : Additional) →
    (∀ u, additional = .typed u → ∀ t, Part t u → Plain t) → additional.Regular true
  | .typed schema, h => regular_of_parts schema (h schema rfl)
  | .allowed, _ => trivial
  | .disallowed, _ => trivial
termination_by structural additional => additional

end

/-! ## Objects of a JSON Schema -/

/-- The properties of an object have different names, and it has no keyword `required` of its
own. -/
def OneEach (t : Schema) : Prop :=
  (∀ properties additional, t.kind = .object properties additional →
    (properties.map Property.name).Nodup) ∧ "required" ∉ Table.keys t.extensions

/-- All that stands in what is read of a JSON Schema has one property per name. -/
def ReadsOneEach (a : Json) : Prop :=
  ∀ path s t, ofJsonAt path a = .ok s → Part t s → OneEach t

lemma required_not_mem_readExtensions (fields : Fields) (kind : SchemaKind)
    (typeName : Option String) : "required" ∉ Table.keys (readExtensions fields kind typeName) := by
  have others : "required" ∉ Table.keys (unmodelled fields) := fun h =>
    keys_unmodelled h (by decide)
  by_cases hk : (isEnumeration kind || typeName.isNone) = true
  · rw [readExtensions_kept hk, Table.keys, List.map_append, List.mem_append, not_or]
    exact ⟨others, fun h => absurd (eq_of_mem_typeEntry h) (by decide)⟩
  · obtain ⟨hk, ht⟩ := Bool.or_eq_false_iff.mp (Bool.eq_false_iff.mpr hk)
    rwa [readExtensions_modelled hk ht]

section

variable {fields : Fields} {path : String} {t s : Schema}

lemma oneEach_any (part : Part t any) : OneEach t := by
  have leaf : any.Leaf :=
    ⟨fun _ => SchemaKind.noConfusion, fun _ _ => SchemaKind.noConfusion⟩
  obtain rfl := part.eq_of_leaf leaf
  exact ⟨fun _ _ he => absurd he (leaf.2 _ _), List.not_mem_nil⟩

/-- The kind of a JSON Schema, if what is read of its parts has one property per name. -/
lemma readKind_oneEach {typeName : Option String} {kind : SchemaKind}
    (distinct : (listedProperties fields).keys.Nodup)
    (properties : ∀ m ∈ listedProperties fields, ReadsOneEach m.2)
    (value : ∀ key arg, fields.get? key = some arg → ReadsOneEach arg)
    (h : ReadAs path fields typeName kind) (hk : s.kind = kind)
    (free : "required" ∉ Table.keys s.extensions) (part : Part t s) : OneEach t := by
  have leaf (hl : s.Leaf) : OneEach t := by
    obtain rfl := part.eq_of_leaf hl
    exact ⟨fun properties additional ho => absurd ho (hl.2 _ _), free⟩
  cases h with
  | enumeration => exact leaf (leaf_of_enumeration hk)
  | @object schemas a hs ha =>
    obtain ⟨names, inside⟩ := readMembers_spec hs
    cases part with
    | self =>
      refine ⟨fun properties additional ho => ?_, free⟩
      obtain ⟨rfl, _⟩ := SchemaKind.object.inj (hk.symm.trans ho)
      have own : (schemas.map fun m : String × Schema =>
          (⟨m.1, m.2, !(listedRequired fields).contains m.1⟩ : Property)).map Property.name =
            (listedProperties fields).keys := by
        rw [List.map_map, ← names]
        rfl
      exact own ▸ distinct
    | item ho _ => cases hk.symm.trans ho
    | property ho hp part =>
      obtain ⟨rfl, _⟩ := SchemaKind.object.inj (hk.symm.trans ho)
      obtain ⟨x, hx, rfl⟩ := List.mem_map.mp hp
      obtain ⟨m, hm, path', hr⟩ := inside x hx
      exact properties m hm path' _ t hr part
    | other ho part =>
      obtain ⟨_, rfl⟩ := SchemaKind.object.inj (hk.symm.trans ho)
      obtain ⟨arg, path', harg, hu⟩ := readAdditional_eq_typed ha
      exact value _ arg harg path' _ t hu part
  | @array items _ hi =>
    cases part with
    | self =>
      refine ⟨fun properties additional ho => ?_, free⟩
      cases hk.symm.trans ho
    | item ho part =>
      obtain rfl := SchemaKind.array.inj (hk.symm.trans ho)
      rcases readItems_eq_ok hi with rfl | ⟨arg, path', harg, hu⟩
      · exact oneEach_any part
      · exact value _ arg harg path' _ t hu part
    | property ho _ _ => cases hk.symm.trans ho
    | other ho _ => cases hk.symm.trans ho
  | simple _ simple =>
    refine leaf ⟨fun items he => ?_, fun properties additional he => ?_⟩
    · obtain rfl := hk.symm.trans he
      exact simple
    · obtain rfl := hk.symm.trans he
      exact simple

/-- **All that is read of a JSON Schema has one property per name**, as its keys are different. -/
theorem readsOneEach (a : Json) (tidy : a.Tidy) : ReadsOneEach a := by
  refine Inherited.holds ⟨fun a plain path s t h part => ?_,
    fun fields _ distinct value properties path s t h part => ?_⟩ a tidy
  · obtain rfl := eq_any_of_ofJsonAt plain h
    exact oneEach_any part
  · rw [ofJsonAt, ofParts] at h
    obtain ⟨⟨typeName, nullable⟩, _, h⟩ := exists_of_bind_eq_ok h
    obtain ⟨kind, hk, h⟩ := exists_of_bind_eq_ok h
    obtain rfl := Except.ok.inj h
    exact readKind_oneEach distinct properties value (readAs_of_readKind hk) rfl
      (required_not_mem_readExtensions fields kind typeName) part

end

/-! ## Objects of a picoschema -/

section

variable {resolve : Resolver} {path : String}

/-- The properties of a map have different names exactly if its keys say so. -/
lemma nodup_names_iff {members : List (String × Json)} {c : Compiled}
    (h : compileMembers resolve path members = .ok c) :
    (c.properties.map Property.name).Nodup ↔ Pico.Clear members := by
  induction members generalizing c with
  | nil =>
    obtain rfl := Except.ok.inj h
    simp [Pico.Clear]
  | cons m rest ih =>
    obtain ⟨key, p⟩ := m
    obtain ⟨k, s, e, before, hk, _, he, hb, rfl⟩ := exists_of_compileMembers_cons h
    rw [Pico.Clear, List.pairwise_cons, ← Pico.Clear, ← ih hb]
    rcases entry_spells hk he with ⟨u, rfl, spells⟩ | ⟨q, list, rfl, spells⟩
    · refine (and_iff_right ?_).symm
      intro a _ name optional list optional' list' hs
      cases (spells _).mp hs
    · rw [Compiled.push, List.map_cons, List.nodup_cons, mem_names_iff hb]
      refine and_congr_left fun _ => ?_
      constructor
      · intro hn a ha name optional list optional' list' hs hs'
        obtain ⟨rfl, _, _⟩ := Pico.Meaning.property.inj ((spells _).mp hs)
        exact hn ⟨a, ha, optional', list', hs'⟩
      · rintro h ⟨a, ha, optional', list', hs'⟩
        exact h a ha _ _ _ _ _ ((spells _).mpr rfl) hs'

/-- The objects in a compiled picoschema are plain if the keys of its maps name different
properties. -/
lemma plain_of_fromMaps {p : Json} {t : Schema} (h : FromMaps (Pico.Level true p) t)
    (clear : ∀ level, Pico.Level true p level → Pico.Clear level) : Plain t := by
  refine ⟨h.1, fun properties additional hk => ?_⟩
  obtain ⟨level, hl, _, path, c, hc, hkind⟩ := h.2 properties additional hk
  obtain ⟨rfl, _⟩ := SchemaKind.object.inj (hk.symm.trans hkind)
  exact (nodup_names_iff hc).mpr (clear level hl)

/-- **Compiled objects have one property per name**, exactly where no two keys of their map name the
same property: they list each under its name and require it once if it is not optional, and if this is
so everywhere they are valid.  Those of a JSON Schema always do. -/
theorem compile_properties {p : Json} {s : Schema} (h : compile noNames p = .ok s) :
    (isStandard p = false →
      (∀ t properties additional, Part t s → t.kind = .object properties additional →
        ∃ level, Pico.Level true p level ∧ IsLevel noNames level t ∧
          ((properties.map Property.name).Nodup ↔ Pico.Clear level) ∧
          (Pico.Clear level → ∃ fields, t.toJson = .obj fields ∧ Lists properties fields)) ∧
      ((∀ level, Pico.Level true p level → Pico.Clear level) → isValid s.toJson = true)) ∧
    (isStandard p = true → p.Tidy →
      ∀ t properties additional, Part t s → t.kind = .object properties additional →
        (properties.map Property.name).Nodup ∧
          ∃ fields, t.toJson = .obj fields ∧ Lists properties fields) := by
  rw [compile] at h
  constructor
  · intro standard
    rw [standard, if_neg Bool.false_ne_true] at h
    refine ⟨fun t properties additional part hk => ?_, fun clear => ?_⟩
    · obtain ⟨extensions, levels⟩ := part_fromMaps p h part
      obtain ⟨level, hl, ht⟩ := levels properties additional hk
      refine ⟨level, hl, ht, ?_⟩
      obtain ⟨_, path, c, hc, hkind⟩ := ht
      obtain ⟨rfl, _⟩ := SchemaKind.object.inj (hk.symm.trans hkind)
      have nodup := nodup_names_iff hc
      refine ⟨nodup, fun clear => exists_lists hk (nodup.mpr clear) ?_⟩
      rw [extensions]
      exact List.not_mem_nil
    · have regular := regular_of_parts s fun t part => plain_of_fromMaps (part_fromMaps p h part) clear
      exact isSchema_toJson _ s regular
  · intro standard tidy t properties additional part hk
    rw [if_pos standard] at h
    obtain ⟨names, free⟩ := readsOneEach p tidy _ s t h part
    have nodup := names properties additional hk
    exact ⟨nodup, exists_lists hk nodup free⟩

end

/-- Someone with a name, and perhaps with an age. -/
def human : Json := .obj [("name", .str "string"), ("age?", .str "number")]

def humanSchema : Schema := ofKind (.object
  [⟨"name", ofKind .string, false⟩, ⟨"age", acceptNull (ofKind .number), true⟩] .disallowed)

/-- Humans have one name and one age. -/
theorem compile_properties_human :
    compile noNames human = .ok humanSchema ∧ isStandard human = false ∧
    isValid humanSchema.toJson = true ∧
    ∃ fields, humanSchema.toJson = .obj fields ∧ Lists humanSchema.properties fields := by
  have compiled : compile noNames human = .ok humanSchema := by rfl
  have standard : isStandard human = false := by decide
  have clear : ∀ level, Pico.Level true human level → Pico.Clear level := by
    have name : Key.read "$" "name" = .ok (.property "name" false none none) := by rfl
    have age : Key.read "$" "age?" = .ok (.property "age" true none none) := by rfl
    rintro level (rfl | ⟨none, _⟩ | ⟨none, _⟩ | none)
    · simpa [Pico.Clear] using (Pico.apart_of_read name age (by decide)).names
    all_goals exact none.elim
  obtain ⟨own, valid⟩ := (compile_properties compiled).1 standard
  obtain ⟨level, hl, _, _, lists⟩ := own humanSchema _ _ .self rfl
  exact ⟨compiled, standard, valid clear, lists (clear level hl)⟩

/-- Keys that differ may name the same property.  It may be required twice, so that the schema is not
valid and accepts everything, or be required although it is optional. -/
theorem compile_repeats :
    (∃ s, compile noNames (.obj [("a", .str "string"), ("a(object)", .str "number")]) = .ok s ∧
      s.properties.map Property.name = ["a", "a"] ∧ s.required = ["a", "a"] ∧
      isValid s.toJson = false ∧ accepts s.toJson (.obj []) = true ∧
      accepts s.toJson (.str "anything") = true) ∧
    ∃ s, compile noNames (.obj [("a", .str "string"), ("a?", .str "number")]) = .ok s ∧
      s.properties.map Property.name = ["a", "a"] ∧
      s.properties.map Property.optional = [false, true] ∧ s.required = ["a"] ∧
      accepts s.toJson (.obj [("a", .str "text")]) = false := by
  refine ⟨⟨_, rfl, rfl, rfl, ?_, ?_, ?_⟩, _, rfl, rfl, rfl, rfl, ?_⟩
  all_goals decide +kernel

end Schema

end Colloquy
