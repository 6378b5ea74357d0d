import Colloquy.Proofs.Failure
import Colloquy.Proofs.Schema.Dialect
import Colloquy.Proofs.Schema.Emission
import Mathlib.Data.List.Basic

/-!
# Compiled picoschemas

A picoschema is compiled to a schema that admits exactly the values that conform to it.  The proof
follows the source: a scalar and a list are compiled on their own, and the members of a map one
after the other, where `Compiled.Agrees` says that the properties and the wildcard that were
compiled so far agree with the keys.
-/

namespace Colloquy.Schema

open Pico

variable {strict : Bool}

/-! ## Scalars -/

/-- A scalar type is compiled to the schema of its values. -/
lemma ofScalar_spec {path source : String} {s : Schema} (h : ofScalar noNames path source = .ok s) :
    s.Regular strict ∧ ∀ v, s.Admits v ↔ Conforms (.str source) v := by
  rcases hs : splitDescription source.toList with ⟨name, description⟩
  have leads : ∀ word, Leads source.toList word ↔ name = word := fun word => by
    rw [leads_iff, hs]
  have conforms : ∀ v, Conforms (.str source) v ↔ OfScalar name v := by
    intro v
    simp only [Conforms, leads, exists_eq_left']
  rw [ofScalar, hs] at h
  dsimp only at h
  cases hk : scalars.lookup name with
  | none =>
    rw [hk] at h
    cases h
  | some kind =>
    rw [hk] at h
    obtain rfl := Except.ok.inj h
    simp only [conforms]
    have listed : (name, kind) ∈ scalars := Table.mem_of_get? hk
    simp only [scalars, List.mem_cons, List.not_mem_nil, or_false, Prod.mk.injEq] at listed
    rcases listed with ⟨rfl, rfl⟩ | ⟨rfl, rfl⟩ | ⟨rfl, rfl⟩ | ⟨rfl, rfl⟩ | ⟨rfl, rfl⟩ | ⟨rfl, rfl⟩
    all_goals
      refine ⟨⟨rfl, trivial⟩, fun v => ?_⟩
      simp only [Schema.Admits, ofKind, SchemaKind.Admits, Bool.false_eq_true, false_and, false_or]
      rfl

/-! ## Members -/

/-- An entry agrees with its key, when the value of the key says some property of values. -/
inductive Entry.Agrees (strict : Bool) (m : Meaning) (P : Json → Prop) : Entry → Prop
  | property {name schema optional list} (hm : m = .property name optional list)
      (regular : schema.Regular strict)
      (admits : ∀ v, schema.Admits v ↔ OfMember optional list P (some v)) :
      Agrees strict m P (.property ⟨name, schema, optional⟩)
  | others {schema} (hm : m = .wildcard) (regular : schema.Regular strict)
      (admits : ∀ v, schema.Admits v ↔ P v) : Agrees strict m P (.others schema)

/-- A container is put around the schema of the value if the key asks for a list. -/
lemma wrapIn_spec {container : Option Container} {path : String} {s wrapped : Schema}
    {P : Json → Prop} (h : wrapIn container path s = .ok wrapped) (regular : s.Regular strict)
    (hs : ∀ v, s.Admits v ↔ P v) :
    wrapped.Regular strict ∧ ∀ v, wrapped.Admits v ↔ Elements (container == some .array) P v := by
  rw [wrapIn.eq_def] at h
  split at h
  · obtain rfl := Except.ok.inj h
    refine ⟨regular.array, fun v => ?_⟩
    rw [array_admits]
    simp only [hs]
    rfl
  · split at h
    · obtain rfl := Except.ok.inj h
      exact ⟨regular, hs⟩
    · cases h
  · rename_i hne _
    obtain rfl := Except.ok.inj h
    have : (container == some .array) = false := by simpa using hne
    rw [this]
    exact ⟨regular, hs⟩

/-- What a member of a map adds to it agrees with its key. -/
lemma entry_agrees {k : Key} {path : String} {s : Schema} {e : Entry} {P : Json → Prop}
    (h : k.entry path s = .ok e) (regular : s.Regular strict) (hs : ∀ v, s.Admits v ↔ P v) :
    e.Agrees strict (.ofKey k) P := by
  cases k with
  | wildcard description =>
    obtain rfl := Except.ok.inj h
    exact .others rfl (regular.describedBy description) fun v => by rw [describedBy_admits, hs]
  | property name optional container description =>
    obtain ⟨wrapped, hw, h⟩ := exists_of_bind_eq_ok h
    obtain rfl := Except.ok.inj h
    obtain ⟨hr, ha⟩ := wrapIn_spec hw regular hs
    have described := hr.describedBy description
    cases optional with
    | false =>
      refine .property rfl described fun v => ?_
      show (wrapped.describedBy description).Admits v ↔ _
      rw [describedBy_admits, ha, OfMember]
      simp
    | true =>
      refine .property rfl described.acceptNull fun v => ?_
      show (wrapped.describedBy description).acceptNull.Admits v ↔ _
      rw [acceptNull_admits, describedBy_admits, ha, OfMember]
      simp

/-- A map that was compiled agrees with its keys and values. -/
structure Compiled.Agrees (strict : Bool) (c : Compiled) (members : List (String × Json)) :
    Prop where
  /-- The properties are those that keys name. -/
  names : ∀ name, name ∈ c.properties.map Property.name ↔ Named members name
  /-- No name comes twice. -/
  distinct : (c.properties.map Property.name).Nodup
  required : ∀ name, name ∈ requiredOf c.properties ↔ Required members name
  /-- There is a schema for other members when there is a wildcard. -/
  others : c.others.isSome = true ↔ Open members
  regular : RegularProperties strict c.properties
  regularOthers : ∀ s, c.others = some s → s.Regular strict
  /-- Its properties and its wildcard demand together what the members demand. -/
  admits : ∀ (named : String → Prop) (fields : Fields), ConformMembers named fields members ↔
    AdmitMembers c.properties fields ∧
    (∀ name ∈ requiredOf c.properties, fields.has name = true) ∧
    ∀ s, c.others = some s → ∀ m ∈ fields, ¬named m.1 → s.Admits m.2

lemma Compiled.agrees_nil : (⟨[], none⟩ : Compiled).Agrees strict [] where
  names := by simp [Named]
  distinct := List.nodup_nil
  required := by simp [requiredOf, Required]
  others := by simp [Open]
  regular := trivial
  regularOthers := by simp
  admits := by simp [ConformMembers, AdmitMembers, requiredOf]

lemma requiredOf_cons (name : String) (schema : Schema) (optional : Bool) (rest : List Property) :
    requiredOf (⟨name, schema, optional⟩ :: rest) =
      if optional then requiredOf rest else name :: requiredOf rest := by
  cases optional <;> rfl

/-- A member is as its property demands when it is of the schema, and there if it has to be. -/
lemma ofMember_iff {schema : Schema} {optional list : Bool} {P : Json → Prop}
    (admits : ∀ v, schema.Admits v ↔ OfMember optional list P (some v)) (fields : Fields)
    (name : String) : OfMember optional list P (fields.get? name) ↔
      (∀ v, fields.get? name = some v → schema.Admits v) ∧
        (optional = false → fields.has name = true) := by
  rw [Table.has]
  cases fields.get? name with
  | none => simp [OfMember]
  | some v => simp [admits]

section Push

variable {key : String} {p : Json} {rest : List (String × Json)}

/-- A key that names one property names no other. -/
lemma exists_spells_iff {name n : String} {optional list : Bool}
    (spells : ∀ m, Spells key m ↔ m = .property name optional list) :
    (∃ o l, Spells key (.property n o l)) ↔ n = name := by
  constructor
  · rintro ⟨o, l, hs⟩
    exact (Meaning.property.inj ((spells _).mp hs)).1
  · rintro rfl
    exact ⟨optional, list, (spells _).mpr rfl⟩

/-- A property adds what its key says to a map whose other keys say something else. -/
lemma Compiled.Agrees.push_property {c : Compiled} {name : String} {schema : Schema}
    {optional list : Bool} (h : c.Agrees strict rest)
    (spells : ∀ m, Spells key m ↔ m = .property name optional list)
    (apart : ∀ a ∈ rest, Apart key a.1) (regular : schema.Regular strict)
    (admits : ∀ v, schema.Admits v ↔ OfMember optional list (Conforms p) (some v)) :
    (c.push (.property ⟨name, schema, optional⟩)).Agrees strict ((key, p) :: rest) where
  names n := by
    rw [push, List.map_cons, List.mem_cons, h.names, named_cons, exists_spells_iff spells]
  distinct := by
    rw [push, List.map_cons, List.nodup_cons, h.names]
    refine ⟨?_, h.distinct⟩
    rintro ⟨m, hm, optional', list', hs⟩
    exact (apart m hm).names name optional list optional' list' ((spells _).mpr rfl) hs
  required n := by
    rw [push, requiredOf_cons, required_cons]
    cases optional with
    | false =>
      have own : (∃ l, Spells key (.property n false l)) ↔ n = name := by
        constructor
        · rintro ⟨l, hs⟩
          exact (exists_spells_iff spells).mp ⟨false, l, hs⟩
        · rintro rfl
          exact ⟨list, (spells _).mpr rfl⟩
      rw [if_neg Bool.false_ne_true, List.mem_cons, h.required, own]
    | true =>
      have own : ¬∃ l, Spells key (.property n false l) := by
        rintro ⟨l, hs⟩
        cases (spells _).mp hs
      rw [if_pos rfl, h.required, or_iff_right own]
  others := by
    have star : ¬Spells key .wildcard := fun hs => by cases (spells _).mp hs
    rw [push, h.others, open_cons, or_iff_right star]
  regular := ⟨regular, h.regular⟩
  regularOthers := h.regularOthers
  admits named fields := by
    have own : (∀ n o l, Spells key (.property n o l) →
        OfMember o l (Conforms p) (fields.get? n)) ↔
        OfMember optional list (Conforms p) (fields.get? name) := by
      constructor
      · intro hs
        exact hs name optional list ((spells _).mpr rfl)
      · intro hm n o l hs
        obtain ⟨rfl, rfl, rfl⟩ := Meaning.property.inj ((spells _).mp hs)
        exact hm
    have star : Spells key .wildcard → ∀ m ∈ fields, ¬named m.1 → Conforms p m.2 := by
      intro hs
      cases (spells _).mp hs
    rw [ConformMembers, own, ofMember_iff admits, h.admits, push, AdmitMembers, requiredOf_cons]
    cases optional with
    | false =>
      rw [if_neg Bool.false_ne_true, List.forall_mem_cons]
      tauto
    | true =>
      rw [if_pos rfl]
      have free : true = false → fields.has name = true := fun he => by cases he
      tauto

/-- A wildcard adds what it says to a map that has no other. -/
lemma Compiled.Agrees.push_others {c : Compiled} {schema : Schema} (h : c.Agrees strict rest)
    (spells : ∀ m, Spells key m ↔ m = .wildcard) (apart : ∀ a ∈ rest, Apart key a.1)
    (regular : schema.Regular strict) (admits : ∀ v, schema.Admits v ↔ Conforms p v) :
    (c.push (.others schema)).Agrees strict ((key, p) :: rest) := by
  -- Of two wildcards one would count for nothing, so this has to be the only one.
  have none : c.others = none := by
    rw [← Option.not_isSome_iff_eq_none, h.others]
    rintro ⟨m, hm, hs⟩
    exact (apart m hm).wildcards ((spells _).mpr rfl) hs
  have own : (c.push (.others schema)).others = some schema := by
    rw [push, none]
    rfl
  have unnamed : ∀ n, ¬∃ o l, Spells key (.property n o l) := by
    rintro n ⟨o, l, hs⟩
    cases (spells _).mp hs
  have optional : ∀ n, ¬∃ l, Spells key (.property n false l) := by
    rintro n ⟨l, hs⟩
    exact unnamed n ⟨false, l, hs⟩
  refine ⟨fun n => ?_, h.distinct, fun n => ?_, ?_, h.regular, ?_, fun named fields => ?_⟩
  · rw [named_cons, or_iff_right (unnamed n)]
    exact h.names n
  · rw [required_cons, or_iff_right (optional n)]
    exact h.required n
  · rw [own, open_cons]
    exact ⟨fun _ => .inl ((spells _).mpr rfl), fun _ => rfl⟩
  · rw [own]
    rintro s ⟨⟩
    exact regular
  · rw [ConformMembers, h.admits, own]
    have others : (∀ s, some schema = some s → ∀ m ∈ fields, ¬named m.1 → s.Admits m.2) ↔
        ∀ m ∈ fields, ¬named m.1 → Conforms p m.2 := by
      simp only [Option.some.injEq, forall_eq', admits]
    have before : ∀ s, c.others = some s → ∀ m ∈ fields, ¬named m.1 → s.Admits m.2 := by
      rw [none]
      intro s he
      cases he
    have star := (spells .wildcard).mpr rfl
    rw [others]
    constructor
    · rintro ⟨-, hw, ha, hr, -⟩
      exact ⟨ha, hr, hw star⟩
    · rintro ⟨ha, hr, hw⟩
      exact ⟨fun n o l hs => absurd ⟨o, l, hs⟩ (unnamed n), fun _ => hw, ha, hr, before⟩

/-- A member whose key was read and whose value was compiled adds what it says. -/
lemma Compiled.Agrees.push {c : Compiled} {k : Key} {path keyPath : String} {s : Schema}
    {e : Entry} (h : c.Agrees strict rest) (hk : Key.read path key = .ok k)
    (he : k.entry keyPath s = .ok e) (apart : ∀ a ∈ rest, Apart key a.1)
    (regular : s.Regular strict) (admits : ∀ v, s.Admits v ↔ Conforms p v) :
    (c.push e).Agrees strict ((key, p) :: rest) := by
  have spells : ∀ m, Spells key m ↔ m = .ofKey k := fun m => spells_iff hk
  cases entry_agrees he regular admits with
  | property hm regular admits =>
    rw [hm] at spells
    exact h.push_property spells apart regular admits
  | others hm regular admits =>
    rw [hm] at spells
    exact h.push_others spells apart regular admits

end Push

/-! ## Maps -/

section Map

variable {c : Compiled} {members : List (String × Json)}

/-- No schema of a map with a wildcard is paired, unless two of its properties are required. -/
lemma Compiled.Agrees.not_paired (h : c.Agrees strict members)
    (unpaired : ¬(Open members ∧ TwoRequired members)) (opened : Open members)
    (additional : Additional) : ¬Paired c.properties additional := by
  rintro ⟨-, two⟩
  obtain ⟨a, b, hab⟩ := List.length_eq_two.mp two
  have distinct := requiredOf_nodup h.distinct
  rw [hab, List.nodup_cons, List.mem_singleton] at distinct
  refine unpaired ⟨opened, a, b, distinct.1, fun name => ?_⟩
  rw [← h.required, hab]
  simp

/-- The schema of a map that was compiled is for the values that conform to the map. -/
lemma Compiled.Agrees.schema_spec (h : c.Agrees strict members)
    (unpaired : strict = true ∨ ¬(Open members ∧ TwoRequired members)) :
    c.schema.Regular strict ∧ ∀ v, c.schema.Admits v ↔ Conforms (.obj members) v := by
  have listed : ∀ name, (c.properties.map Property.name).contains name = true ↔
      Named members name := fun name => by rw [List.contains_iff_mem, h.names]
  have admits := h.admits (Named members)
  obtain ⟨properties, others⟩ := c
  cases others with
  | none =>
    have closed : ¬Open members := fun ho => by cases h.others.mpr ho
    have paired : strict = true ∨ ¬Paired properties .disallowed := by
      refine .inr ?_
      rintro ⟨⟨s, he⟩, -⟩
      cases he
    have unnamed : ∀ fields : Fields,
        (fields.filter fun m => !(properties.map Property.name).contains m.1) = [] ↔
          ∀ m ∈ fields, Named members m.1 ∨ Open members := by
      intro fields
      simp only [List.filter_eq_nil_iff, Bool.not_eq_true', Bool.not_eq_false, listed, closed,
        or_false]
    refine ⟨⟨rfl, h.distinct, paired, h.regular, trivial⟩, fun v => ?_⟩
    simp only [Compiled.schema, ofKind, Schema.Admits, SchemaKind.Admits, Additional.Admits,
      Conforms, unnamed, admits, Bool.false_eq_true, false_and, false_or]
    refine exists_congr fun fields => and_congr_right fun _ => ?_
    have none : ∀ s : Schema, Option.none = some s →
        ∀ m ∈ fields, ¬Named members m.1 → s.Admits m.2 := fun s he => by cases he
    tauto
  | some s =>
    have opened : Open members := h.others.mp rfl
    have paired : strict = true ∨ ¬Paired properties (.typed s) :=
      unpaired.imp_right fun hu => h.not_paired hu opened _
    have unnamed : ∀ fields : Fields,
        (∀ m ∈ fields.filter fun m => !(properties.map Property.name).contains m.1,
          s.Admits m.2) ↔ ∀ m ∈ fields, ¬Named members m.1 → s.Admits m.2 := by
      intro fields
      simp only [List.mem_filter, Bool.not_eq_true', ← Bool.not_eq_true, listed, and_imp]
    refine ⟨⟨rfl, h.distinct, paired, h.regular, h.regularOthers s rfl⟩, fun v => ?_⟩
    simp only [Compiled.schema, ofKind, Schema.Admits, SchemaKind.Admits, Additional.Admits,
      Conforms, unnamed, admits, Bool.false_eq_true, false_and, false_or, Option.some.injEq,
      forall_eq']
    refine exists_congr fun fields => and_congr_right fun _ => ?_
    have free : ∀ m ∈ fields, Named members m.1 ∨ Open members := fun m _ => .inr opened
    tauto

end Map

/-! ## Picoschemas -/

mutual

/-- **A picoschema without conflicts is compiled to the schema of the values that conform to
it.** -/
theorem compileAt_spec {path : String} : (p : Json) → {s : Schema} →
    compileAt noNames path p = .ok s → Distinct p → (strict = true ∨ Unpaired p) →
    s.Regular strict ∧ ∀ v, s.Admits v ↔ Conforms p v
  | .str source, s, h, _, _ => ofScalar_spec h
  | .arr values, s, h, _, _ => by
    obtain rfl := Except.ok.inj h
    refine ⟨⟨rfl, trivial⟩, fun v => ?_⟩
    rw [ofKind, enumeration_admits, Conforms]
  | .obj members, s, h, distinct, unpaired => by
    rw [compileAt] at h
    cases hc : compileMembers noNames path members with
    | error e =>
      rw [hc] at h
      cases h
    | ok c =>
      rw [hc] at h
      obtain rfl := Except.ok.inj h
      have agrees := compileMembers_spec members hc distinct.1 distinct.2
        (unpaired.imp_right And.right)
      exact agrees.schema_spec (unpaired.imp_right And.left)

theorem compileMembers_spec {path : String} : (members : List (String × Json)) →
    {c : Compiled} → compileMembers noNames path members = .ok c →
    members.Pairwise (fun a b => Apart a.1 b.1) → DistinctMembers members →
    (strict = true ∨ UnpairedMembers members) → c.Agrees strict members
  | [], c, h, _, _, _ => by
    obtain rfl := Except.ok.inj h
    exact Compiled.agrees_nil
  | (key, p) :: rest, c, h, apart, distinct, unpaired => by
    rw [compileMembers] at h
    obtain ⟨k, hk, h⟩ := exists_of_bind_eq_ok h
    obtain ⟨s, hs, h⟩ := exists_of_bind_eq_ok h
    obtain ⟨e, he, h⟩ := exists_of_bind_eq_ok h
    obtain ⟨before, hb, h⟩ := exists_of_bind_eq_ok h
    obtain rfl := Except.ok.inj h
    obtain ⟨regular, admits⟩ := compileAt_spec p hs distinct.1 (unpaired.imp_right And.left)
    have agrees := compileMembers_spec rest hb (List.pairwise_cons.mp apart).2 distinct.2
      (unpaired.imp_right And.right)
    exact agrees.push hk he (List.pairwise_cons.mp apart).1 regular admits

end

/-- **A compiled picoschema validates the values that conform to the picoschema**, and no others.
A checker that is not strict finds nothing wrong with these either; others it lets pass only where a
map has a wildcard beside exactly two required properties. -/
theorem compile_validates {p : Json} {s : Schema} (standard : isStandard p = false)
    (h : compile noNames p = .ok s) (distinct : Distinct p) (v : Json) :
    (JsonSchema.conforms s.toJson v = true ↔ Conforms p v) ∧
    (Conforms p v → JsonSchema.accepts s.toJson v = true) ∧
    (Unpaired p → (JsonSchema.accepts s.toJson v = true ↔ Conforms p v)) := by
  rw [compile, standard, if_neg Bool.false_ne_true] at h
  have strictly : JsonSchema.conforms s.toJson v = true ↔ Conforms p v := by
    obtain ⟨regular, admits⟩ := compileAt_spec p h distinct (.inl rfl)
    rw [JsonSchema.conforms_iff, violationsOf_toJson regular, admits]
  refine ⟨strictly, fun hv => JsonSchema.accepts_of_conforms (strictly.mpr hv), fun unpaired => ?_⟩
  obtain ⟨regular, admits⟩ := compileAt_spec p h distinct (.inr unpaired)
  rw [JsonSchema.accepts_iff, violationsOf_toJson regular, admits]

/-- A dog with a name, perhaps with tags, and with numbers for everything else. -/
def dog : Json :=
  .obj [("name", .str "string"), ("tags?(array)", .str "string"), ("(*)", .str "number, a size")]

/-- What is compiled from it. -/
def dogSchema : Schema :=
  ofKind (.object
    [⟨"name", ofKind .string, false⟩, ⟨"tags", acceptNull (Schema.array (ofKind .string)), true⟩]
    (.typed { ofKind .number with description := some "a size" }))

/-- A dog without tags conforms, and one without a name does not. -/
theorem compile_validates_dog :
    isStandard dog = false ∧ compile noNames dog = .ok dogSchema ∧ Distinct dog ∧
    Conforms dog (.obj [("name", .str "Rex"), ("tags", .null), ("height", .num (.int 40))]) ∧
    ¬Conforms dog (.obj [("tags", .arr [.str "brown"])]) := by
  have standard : isStandard dog = false := by decide
  have compiled : compile noNames dog = .ok dogSchema := by rfl
  have distinct : Distinct dog := by
    have name : Key.read "$" "name" = .ok (.property "name" false none none) := by rfl
    have tags : Key.read "$" "tags?(array)" = .ok (.property "tags" true (some .array) none) := by
      rfl
    have others : Key.read "$" "(*)" = .ok (.wildcard none) := by rfl
    refine ⟨?_, trivial, trivial, trivial, trivial⟩
    have second := apart_of_read name tags (by decide)
    have third := apart_of_read name others (by decide)
    have last := apart_of_read tags others (by decide)
    simp [second, third, last]
  have validates := compile_validates standard compiled distinct
  refine ⟨standard, compiled, distinct, (validates _).1.mp (by decide +kernel), fun h => ?_⟩
  exact absurd ((validates _).1.mpr h) (by decide +kernel)

end Colloquy.Schema
