import Colloquy.Schema.Pico
import Mathlib.Tactic.Common

/-!
# What a schema means

`Admits` says which values a schema is for, on the schema itself and without a detour through JSON
Schema.  Two steps meet here: a compiled picoschema admits what its source means, and the JSON
Schema that is written for a schema is satisfied by what the schema admits.
-/

namespace Colloquy

/-! ## The values of a schema -/

mutual

/-- The schema is for the value: it is of the kind, or null if that will do as well. -/
def Schema.Admits : Schema → Json → Prop
  | ⟨kind, _, nullable, _⟩, v =>
    (nullable = true ∧ kind.typeName?.isSome ∧ v = .null) ∨ kind.Admits v
termination_by structural s => s

/-- The value is of the kind. -/
def SchemaKind.Admits : SchemaKind → Json → Prop
  | .any, _ => True
  | .string, v => ∃ s, v = .str s
  | .number, v => ∃ n, v = .num n
  | .integer, v => ∃ n, v = .num n ∧ n.isWhole = true
  | .boolean, v => ∃ b, v = .bool b
  | .null, v => v = .null
  | .array items, v => ∃ vs, v = .arr vs ∧ ∀ w ∈ vs, items.Admits w
  | .object properties additional, v => ∃ fields : Fields, v = .obj fields ∧
    (∀ name ∈ Schema.requiredOf properties, fields.has name = true) ∧
    Schema.AdmitMembers properties fields ∧
    additional.Admits
      (fields.filter fun m => !(properties.map Property.name).contains m.1)
  | .enumeration values, v => ∃ w ∈ values, w.same v = true
termination_by structural kind => kind

/-- The members under the names of some properties are what the schemas of these are for. -/
def Schema.AdmitMembers : List Property → Fields → Prop
  | [], _ => True
  | ⟨name, schema, _⟩ :: rest, fields =>
    (∀ v, fields.get? name = some v → schema.Admits v) ∧ Schema.AdmitMembers rest fields
termination_by structural properties => properties

/-- The members that are no properties may be there. -/
def Additional.Admits : Additional → Fields → Prop
  | .disallowed, others => others = []
  | .allowed, _ => True
  | .typed schema, others => ∀ m ∈ others, schema.Admits m.2
termination_by structural additional => additional

end

/-! ## Regular schemas -/

/-- An object with two required properties and a schema for all other members. -/
def Schema.Paired (properties : List Property) (additional : Additional) : Prop :=
  (∃ schema, additional = .typed schema) ∧ (Schema.requiredOf properties).length = 2

mutual

/-- Nothing is said beside what the kinds model, and no object names a property twice.  Under a
checker that is not strict, no object is paired either. -/
def Schema.Regular (strict : Bool) : Schema → Prop
  | ⟨kind, _, _, extensions⟩ => extensions = [] ∧ kind.Regular strict
termination_by structural s => s

def SchemaKind.Regular (strict : Bool) : SchemaKind → Prop
  | .array items => items.Regular strict
  | .object properties additional => (properties.map Property.name).Nodup ∧
    (strict = true ∨ ¬Schema.Paired properties additional) ∧
    Schema.RegularProperties strict properties ∧ additional.Regular strict
  | _ => True
termination_by structural kind => kind

def Schema.RegularProperties (strict : Bool) : List Property → Prop
  | [] => True
  | ⟨_, schema, _⟩ :: rest => schema.Regular strict ∧ Schema.RegularProperties strict rest
termination_by structural properties => properties

def Additional.Regular (strict : Bool) : Additional → Prop
  | .typed schema => schema.Regular strict
  | _ => True
termination_by structural additional => additional

end

namespace Schema

lemma requiredOf_nodup {properties : List Property} (h : (properties.map Property.name).Nodup) :
    (requiredOf properties).Nodup :=
  h.sublist (List.filter_sublist.map Property.name)

variable {strict : Bool} {s : Schema}

/-! ## Changes to a schema -/

lemma describedBy_admits (s : Schema) (description : Option String) (v : Json) :
    (s.describedBy description).Admits v ↔ s.Admits v := by
  obtain ⟨kind, d, nullable, extensions⟩ := s
  cases description <;> rfl

lemma Regular.describedBy (h : s.Regular strict) (description : Option String) :
    (s.describedBy description).Regular strict := by
  obtain ⟨kind, d, nullable, extensions⟩ := s
  cases description <;> exact h

lemma array_admits (items : Schema) (v : Json) :
    (array items).Admits v ↔ ∃ vs, v = .arr vs ∧ ∀ w ∈ vs, items.Admits w := by
  simp [array, ofKind, Schema.Admits, SchemaKind.Admits]

lemma Regular.array (h : s.Regular strict) : (array s).Regular strict := ⟨rfl, h⟩

/-- Nothing but null is the same as null. -/
lemma same_null_iff {v : Json} : Json.same .null v = true ↔ v = .null := by
  cases v <;> simp [Json.same]

lemma enumeration_admits {values : List Json} {description : Option String} {nullable : Bool}
    {extensions : List (String × Json)} {v : Json} :
    Schema.Admits ⟨.enumeration values, description, nullable, extensions⟩ v ↔
      ∃ w ∈ values, w.same v = true := by
  simp [Schema.Admits, SchemaKind.Admits, SchemaKind.typeName?]

/-- A schema that accepts null is for null, and for what it was for before. -/
lemma acceptNull_admits (s : Schema) (v : Json) :
    (acceptNull s).Admits v ↔ v = .null ∨ s.Admits v := by
  obtain ⟨kind, description, nullable, extensions⟩ := s
  cases kind with
  | any => simp [acceptNull, Schema.Admits, SchemaKind.Admits]
  | enumeration values =>
    rw [acceptNull]
    dsimp only
    by_cases h : values.contains .null = true
    · have hn : v = .null → ∃ w ∈ values, w.same v = true := by
        rintro rfl
        exact ⟨.null, List.contains_iff_mem.mp h, rfl⟩
      rw [if_pos h, enumeration_admits]
      exact ⟨.inr, fun hv => hv.elim hn id⟩
    · rw [if_neg h, enumeration_admits, enumeration_admits]
      simp only [List.mem_append, List.mem_singleton, or_and_right, exists_or, exists_eq_left,
        same_null_iff]
      exact or_comm
  | _ =>
    simp only [acceptNull, Schema.Admits, SchemaKind.typeName?, Option.isSome_some, true_and]
    tauto

lemma Regular.acceptNull (h : s.Regular strict) : (acceptNull s).Regular strict := by
  obtain ⟨kind, description, nullable, extensions⟩ := s
  cases kind with
  | enumeration values =>
    rw [Schema.acceptNull]
    dsimp only
    split
    · exact h
    · exact h
  | _ => exact h

end Schema

end Colloquy
