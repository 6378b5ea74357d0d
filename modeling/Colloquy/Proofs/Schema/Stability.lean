import Colloquy.Proofs.Schema.Inference
import Colloquy.Proofs.Schema.Kinds

/-!
# JSON Schema that is written again

Reading sorts the keywords of a JSON Schema, and writing puts them in an order of its own, so what
is written need not be what was read.  But it stays as it is from then on: a schema is steady if
what is written of it can be read, and is written again key by key as it stands.

Steadiness passes from the schemas inside a kind to the row of keywords that is written for it
(`steady_of_written`).  What is read of a JSON Schema is written as such a row, and so is what is
inferred from an example, and both are steady all the way down.
-/

namespace Colloquy.Schema

/-- Wherever the schema stands as it is written, it can be read, and what is read is written in the
same way. -/
def Steady (s : Schema) : Prop :=
  ∀ path, ∃ t, ofJsonAt path s.toJson = .ok t ∧ t.toJson = s.toJson

/-- The schemas inside a kind are steady, and an object has one property per name. -/
def SteadyInside : SchemaKind → Prop
  | .array items => Steady items
  | .object properties additional => (properties.map Property.name).Nodup ∧
      (∀ p ∈ properties, Steady p.schema) ∧ ∀ s, additional = .typed s → Steady s
  | _ => True

/-! ## Kinds that are read again -/

/-- What is written for the first kind is read as the second one, which is written in the same
way. -/
structure ReadBack (path : String) (fields : Fields) (kind : SchemaKind) (nullable : Bool)
    (kind' : SchemaKind) (typeName : Option String) (nullable' : Bool) : Prop where
  typed : Typed (written kind nullable fields) typeName nullable'
  read : readKind path (written kind nullable fields) typeName
    ⟨readProperties path (written kind nullable fields),
      readAdditional path (written kind nullable fields),
      readItems path (written kind nullable fields)⟩ = .ok kind'
  name : kind'.typeName? = kind.typeName?
  type : typeKeyword kind' nullable' = typeKeyword kind nullable
  parts : keywords kind' = keywords kind

/-- Whatever stands around a kind, it is read back. -/
def ReadAgain (kind : SchemaKind) (nullable : Bool) (fields : Fields) : Prop :=
  ∀ path, ∃ kind' typeName nullable', ReadBack path fields kind nullable kind' typeName nullable'

section

variable {path : String} {fields : Fields} {nullable : Bool} {kind : SchemaKind}

lemma ReadAgain.steady (h : ReadAgain kind nullable fields)
    (distinct : (unmodelled fields).keys.Nodup) {s : Schema}
    (row : s.toJson = .obj (written kind nullable fields)) : Steady s := by
  intro path
  obtain ⟨kind', typeName, nullable', back⟩ := h path
  rw [row]
  refine ⟨_, ofJsonAt_eq back.typed back.read, ?_⟩
  have kept := (readAs_of_readKind back.read).kept
  rw [toJson_read (by rwa [unmodelled_written]) kept,
    written_written back.name back.type back.parts]

lemma readAgain_simple (simple : Simple kind) (null : kind = .null → nullable = false)
    (untyped : kind = .any → Typed fields none nullable) : ReadAgain kind nullable fields := by
  intro path
  have none (key : String) (hk : key ∈ kindKeywords) :
      (written kind nullable fields).get? key = none := by
    rw [get?_written hk]
    cases kind <;> first | rfl | exact simple.elim
  refine ⟨kind, kind.typeName?, nullable, ?_, ?_, rfl, rfl, rfl⟩
  · cases kind with
    | any => exact typed_written_of_none rfl (untyped rfl)
    | null => exact typed_written rfl fun _ => null rfl
    | array => exact simple.elim
    | object => exact simple.elim
    | enumeration => exact simple.elim
    | _ => exact typed_written rfl fun h => absurd h (by decide)
  · rw [readKind.eq_def, none "enum" (by decide), none "properties" (by decide)]
    cases kind <;> first | rfl | exact simple.elim

lemma readAgain_enumeration {values : List Json} {typeName : Option String} {nullable' : Bool}
    (typed : Typed fields typeName nullable') :
    ReadAgain (.enumeration values) nullable fields := by
  intro path
  refine ⟨.enumeration values, typeName, nullable', typed_written_of_none rfl typed, ?_, rfl, rfl,
    rfl⟩
  rw [readKind.eq_def, get?_written (by decide)]
  rfl

lemma readAgain_array {items : Schema} (inside : Steady items) :
    ReadAgain (.array items) nullable fields := by
  intro path
  obtain ⟨t, ht, same⟩ := inside (path ++ "[]")
  refine ⟨.array t, some "array", nullable, typed_written rfl fun h => absurd h (by decide), ?_,
    rfl, rfl, ?_⟩
  · rw [readKind.eq_def, readItems_eq, get?_written (by decide), get?_written (by decide),
      get?_written (by decide)]
    show (ofJsonAt _ items.toJson >>= _) = _
    rw [ht]
    rfl
  · rw [keywords, keywords, same]

/-! ## Objects that are read again -/

/-- Names that stand in a list without repetitions, in its order, are found by going through it. -/
lemma filter_contains_of_sublist {names listed : List String} (nodup : names.Nodup)
    (h : listed.Sublist names) : names.filter listed.contains = listed := by
  induction h with
  | slnil => rfl
  | @cons listed names name h ih =>
    obtain ⟨own, others⟩ := List.nodup_cons.mp nodup
    have absent : listed.contains name = false := by simpa using fun hn => own (h.subset hn)
    rw [List.filter_cons, absent, if_neg Bool.false_ne_true, ih others]
  | @cons_cons listed names name h ih =>
    obtain ⟨own, others⟩ := List.nodup_cons.mp nodup
    have rest : names.filter (name :: listed).contains = names.filter listed.contains := by
      refine List.filter_congr fun other ho => ?_
      have ne : other ≠ name := fun he => own (he ▸ ho)
      rw [List.contains_cons, beq_eq_false_iff_ne.mpr ne, Bool.false_or]
    rw [List.filter_cons, List.contains_cons, beq_self_eq_true, Bool.true_or, if_pos rfl, rest,
      ih others]

variable {properties : List Property} {additional : Additional}

lemma listedProperties_written (names : (properties.map Property.name).Nodup) :
    listedProperties (written (.object properties additional) nullable fields) =
      propertyMembers properties := by
  have own : (propertyMembers properties).keys.Nodup := by rwa [propertyMembers_keys]
  rw [listedProperties, get?_written (by decide), keywords, List.cons_append, Table.get?_cons,
    if_pos rfl, Table.ofList_eq_self own]
  rfl

lemma listedRequired_written :
    listedRequired (written (.object properties additional) nullable fields) =
      requiredOf properties := by
  rw [listedRequired, get?_written (by decide), get?_required, requiredKeyword]
  cases requiredOf properties with
  | nil => rfl
  | cons name rest => simp [Table.get?, Json.asArray?, Json.asString?, Function.comp_def]

lemma get?_enum_object : Table.get? (keywords (.object properties additional)) "enum" = none := by
  rw [keywords, List.cons_append, Table.get?_cons, if_neg (by decide), Table.get?_append,
    requiredKeyword]
  cases requiredOf properties <;> cases additional <;> rfl

lemma exists_readAdditional_written (path : String) (properties : List Property) (nullable : Bool)
    (fields : Fields) (inside : ∀ s, additional = .typed s → Steady s) :
    ∃ additional',
      readAdditional path (written (.object properties additional) nullable fields) =
        .ok additional' ∧
      additionalKeyword additional' = additionalKeyword additional := by
  rw [readAdditional_eq, get?_written (by decide), get?_additional]
  cases additional with
  | disallowed => exact ⟨.disallowed, rfl, rfl⟩
  | allowed => exact ⟨.allowed, rfl, rfl⟩
  | typed s =>
    obtain ⟨t, ht, same⟩ := inside s rfl (path ++ ".additionalProperties")
    refine ⟨.typed t, ?_, ?_⟩
    · obtain ⟨kind, description, nullable, extensions⟩ := s
      show (ofJsonAt _ (toJson _)).map _ = _
      rw [ht]
      rfl
    · rw [additionalKeyword, additionalKeyword, same]

lemma readAgain_object (names : (properties.map Property.name).Nodup)
    (own : ∀ p ∈ properties, Steady p.schema) (others : ∀ s, additional = .typed s → Steady s) :
    ReadAgain (.object properties additional) nullable fields := by
  intro path
  obtain ⟨additional', ha, otherwise⟩ :=
    exists_readAdditional_written path properties nullable fields others
  have again : ∀ m ∈ propertyMembers properties,
      ∃ s, ofJsonAt (path ++ "." ++ m.1) m.2 = .ok s ∧ s.toJson = m.2 := by
    rw [propertyMembers_eq_map, List.forall_mem_map]
    exact fun p hp => own p hp _
  obtain ⟨schemas, hs, related⟩ := exists_readMembers (P := fun v s => s.toJson = v) again
  -- The schemas that are read stand under the same names and are written in the same way.
  have members : schemas.map (fun p => (p.1, p.2.toJson)) = propertyMembers properties := by
    rw [← List.forall₂_eq_eq_eq, List.forall₂_map_left_iff]
    exact related.flip.imp fun _ _ hm => Prod.ext hm.1 hm.2
  have listed : propertyMembers (propertiesOf (requiredOf properties) schemas) =
      propertyMembers properties := by
    rw [← members, propertyMembers_eq_map, propertiesOf, List.map_map]
    rfl
  have first : schemas.map Prod.fst = properties.map Property.name := by
    rw [← propertyMembers_keys, ← members, Table.keys, List.map_map]
    rfl
  have required : requiredOf (propertiesOf (requiredOf properties) schemas) =
      requiredOf properties := by
    rw [requiredOf_propertiesOf, first]
    exact filter_contains_of_sublist names (List.filter_sublist.map _)
  refine ⟨.object (propertiesOf (requiredOf properties) schemas) additional', some "object",
    nullable, typed_written rfl fun h => absurd h (by decide), ?_, rfl, rfl, ?_⟩
  · rw [readKind.eq_def, get?_written (by decide), get?_enum_object, readProperties_eq,
      listedProperties_written names, hs, ha, listedRequired_written]
    exact if_pos (Bool.or_true _)
  · rw [keywords, keywords, listed, otherwise, requiredKeyword, required, ← requiredKeyword]

end

/-! ## Steady schemas -/

section

variable {path : String} {fields : Fields} {s : Schema}

/-- A schema is steady if it is written from its kind and the keywords around it, and the schemas
inside the kind are. -/
lemma steady_of_written (distinct : (unmodelled fields).keys.Nodup)
    (row : s.toJson = .obj (written s.kind s.nullable fields)) (inside : SteadyInside s.kind)
    {typeName : Option String} (typed : Typed fields typeName s.nullable)
    (untyped : s.kind = .any → typeName = none) (null : s.kind = .null → s.nullable = false) :
    Steady s := by
  refine ReadAgain.steady ?_ distinct row
  obtain ⟨kind, description, nullable, extensions⟩ := s
  cases kind with
  | enumeration values => exact readAgain_enumeration typed
  | array items => exact readAgain_array inside
  | object properties additional => exact readAgain_object inside.1 inside.2.1 inside.2.2
  | any =>
    obtain rfl := untyped rfl
    exact readAgain_simple trivial null fun _ => typed
  | _ => exact readAgain_simple trivial null fun h => by cases h

lemma steady_ofKind {kind : SchemaKind} (inside : SteadyInside kind) : Steady (ofKind kind) := by
  have row : (ofKind kind).toJson = .obj (written kind false []) := by
    have none : (if kind.typeName?.isNone then typeEntry [] else []) = [] := ite_self []
    rw [ofKind, toJson_eq, written, none]
    exact congrArg Json.obj (List.append_nil _).symm
  have distinct : (unmodelled []).keys.Nodup := List.nodup_nil
  exact steady_of_written distinct row inside (fun _ => rfl) (fun _ => rfl) fun _ => rfl

lemma steady_any : Steady any := steady_ofKind trivial

/-- All that can be read of the JSON Schema is steady. -/
def ReadsSteady (a : Json) : Prop := ∀ path s, ofJsonAt path a = .ok s → Steady s

/-- The schemas inside a kind that was read are steady if all that is read inside is. -/
lemma steadyInside_of_read {typeName : Option String} {kind : SchemaKind}
    (names : (listedProperties fields).keys.Nodup)
    (value : ∀ key arg, fields.get? key = some arg → ReadsSteady arg)
    (properties : ∀ m ∈ listedProperties fields, ReadsSteady m.2)
    (h : ReadAs path fields typeName kind) : SteadyInside kind := by
  cases h with
  | enumeration => trivial
  | @object schemas additional hs ha =>
    obtain ⟨keys, inside⟩ := readMembers_spec hs
    refine ⟨?_, ?_, ?_⟩
    · rw [List.map_map]
      exact (keys ▸ names : (schemas.map Prod.fst).Nodup)
    · rw [List.forall_mem_map]
      intro p hp
      obtain ⟨m, hm, path', hr⟩ := inside p hp
      exact properties m hm path' _ hr
    · rintro u rfl
      obtain ⟨arg, path', harg, hu⟩ := readAdditional_eq_typed ha
      exact value _ arg harg path' _ hu
  | @array items _ hi =>
    rcases readItems_eq_ok hi with rfl | ⟨arg, path', harg, hu⟩
    · exact steady_any
    · exact value _ arg harg path' _ hu
  | simple _ simple => cases kind <;> trivial

/-- **What is read of a JSON Schema is steady.** -/
theorem readsSteady (a : Json) (tidy : a.Tidy) : ReadsSteady a := by
  refine Inherited.holds ⟨fun a plain path s h => ?_,
    fun fields distinct names value properties path s h => ?_⟩ a tidy
  · obtain rfl := eq_any_of_ofJsonAt plain h
    exact steady_any
  · rw [ofJsonAt, ofParts] at h
    obtain ⟨⟨typeName, nullable⟩, ht, h⟩ := exists_of_bind_eq_ok h
    obtain ⟨kind, hk, h⟩ := exists_of_bind_eq_ok h
    obtain rfl := Except.ok.inj h
    have typed := typed_of_readType ht
    have way := readAs_of_readKind hk
    have distinct' := nodup_unmodelled distinct
    refine steady_of_written distinct' (toJson_read distinct' way.kept)
      (steadyInside_of_read names value properties way) typed ?_ ?_
    · rintro rfl
      cases way with
      | simple type => exact type
    · rintro rfl
      cases way with
      | simple type =>
        subst type
        exact typed.null

end

mutual

/-- What is inferred from an example is steady. -/
theorem steady_infer : (x : Json) → x.Tidy → Steady (infer x)
  | .null, _ => steady_ofKind trivial
  | .bool _, _ => steady_ofKind trivial
  | .num _, _ => steady_ofKind trivial
  | .str _, _ => steady_ofKind trivial
  | .arr [], _ => steady_ofKind steady_any
  | .arr (item :: _), tidy => steady_ofKind (steady_infer item tidy.1)
  | .obj fields, tidy => by
    have names : ((inferProperties fields).map Property.name).Nodup := by
      rw [inferProperties_names]
      exact tidy.1
    exact steady_ofKind ⟨names, steady_inferProperties fields tidy.2, fun s h => by cases h⟩
termination_by structural x => x

theorem steady_inferProperties : (members : List (String × Json)) → Json.TidyFields members →
    ∀ p ∈ inferProperties members, Steady p.schema
  | [], _ => fun _ hp => absurd hp List.not_mem_nil
  | (_, x) :: rest, tidy =>
    List.forall_mem_cons.mpr ⟨steady_infer x tidy.1, steady_inferProperties rest tidy.2⟩
termination_by structural members => members

end

/-- **JSON Schema that was written once stays as it is.**  What is written of a schema that was read
from JSON Schema, or inferred from an example, can be read, and is then written again with the same
keys in the same order at every level. -/
theorem toJson_stays :
    (∀ a s, a.Tidy → ofJson a = .ok s → ∃ t, ofJson s.toJson = .ok t ∧ t.toJson = s.toJson) ∧
    ∀ x, x.Tidy → ∃ t, ofJson (infer x).toJson = .ok t ∧ t.toJson = (infer x).toJson :=
  ⟨fun a s tidy h => readsSteady a tidy _ s h "$", fun x tidy => steady_infer x tidy "$"⟩

/-- Goods, described in an unusual order: a union of types beside properties, one of which has a
type beside its values, and required names before the properties that they are those of. -/
def goods : Json := .obj [
  ("required", .arr [.str "kind", .str "colour", .str "maker"]),
  ("minProperties", .num (.int 1)),
  ("properties", .obj [
    ("colour", .obj [("type", .arr [.str "null", .str "string"]),
      ("enum", .arr [.str "red", .null])]),
    ("kind", .obj [("type", .arr [.str "string", .str "number"]), ("description", .str "which")]),
    ("sizes", .obj [("items", .bool true), ("type", .arr [.str "array"])])]),
  ("type", .arr [.str "object", .str "string"]),
  ("additionalProperties", .obj [("maximum", .num (.int 9)),
    ("type", .arr [.str "null", .str "integer"])])]

/-- How they are written. -/
def goodsWritten : Json := .obj [
  ("type", .str "object"),
  ("properties", .obj [
    ("colour", .obj [("enum", .arr [.str "red", .null]),
      ("type", .arr [.str "null", .str "string"])]),
    ("kind", .obj [("description", .str "which"), ("type", .arr [.str "string", .str "number"])]),
    ("sizes", .obj [("type", .str "array"), ("items", .obj [])])]),
  ("required", .arr [.str "colour", .str "kind"]),
  ("additionalProperties", .obj [("type", .arr [.str "integer", .str "null"]),
    ("maximum", .num (.int 9))]),
  ("minProperties", .num (.int 1))]

theorem toJson_stays_goods :
    goods.Tidy ∧ (∃ s, ofJson goods = .ok s ∧ s.toJson = goodsWritten ∧
      ∃ t, ofJson goodsWritten = .ok t ∧ t.toJson = goodsWritten) ∧
    ∃ t, ofJson (infer goods).toJson = .ok t ∧ t.toJson = (infer goods).toJson := by
  have tidy : goods.Tidy := by
    simp [goods, Json.Tidy, Json.TidyFields, Json.TidyItems, Table.keys]
  obtain ⟨s, hs, hw⟩ : ∃ s, ofJson goods = .ok s ∧ s.toJson = goodsWritten := ⟨_, rfl, rfl⟩
  obtain ⟨t, ht, same⟩ := toJson_stays.1 goods s tidy hs
  rw [hw] at ht same
  exact ⟨tidy, ⟨s, hs, hw, t, ht, same⟩, toJson_stays.2 goods tidy⟩

end Colloquy.Schema
