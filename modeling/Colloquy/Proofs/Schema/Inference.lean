import Colloquy.Proofs.Json.Tidy
import Colloquy.Proofs.Schema.Emission

/-!
# Schemas of examples

The schema of an example is for the values that are like it.  Of an array only the first item counts,
so an example need not be like itself: its arrays may have items of which some are unlike the first.
`Uniform` says that they do not.
-/

namespace Colloquy

/-! ## Values like an example -/

mutual

/-- The value is built like the example: it is of the same type, all its items are like the first item
of the example, and it has all members of the example, each like it was there. -/
def Like : Json → Json → Prop
  | .null, v => v = .null
  | .bool _, v => ∃ b, v = .bool b
  | .num _, v => ∃ n, v = .num n
  | .str _, v => ∃ s, v = .str s
  | .arr [], v => ∃ vs, v = .arr vs
  | .arr (item :: _), v => ∃ vs, v = .arr vs ∧ ∀ w ∈ vs, Like item w
  | .obj fields, v => ∃ values : Fields, v = .obj values ∧ LikeMembers fields values
termination_by structural x => x

def LikeMembers : List (String × Json) → Fields → Prop
  | [], _ => True
  | (key, x) :: rest, values =>
    (∃ w, values.get? key = some w ∧ Like x w) ∧ LikeMembers rest values
termination_by structural members => members

end

mutual

/-- The items of each array are like the first of them, inside which it is the same. -/
def Uniform : Json → Prop
  | .arr (item :: rest) => Uniform item ∧ ∀ w ∈ rest, Like item w
  | .obj fields => UniformMembers fields
  | _ => True
termination_by structural v => v

def UniformMembers : List (String × Json) → Prop
  | [] => True
  | (_, v) :: rest => Uniform v ∧ UniformMembers rest
termination_by structural members => members

end

lemma likeMembers_iff {members : List (String × Json)} {values : Fields} :
    LikeMembers members values ↔ ∀ m ∈ members, ∃ w, values.get? m.1 = some w ∧ Like m.2 w := by
  induction members with
  | nil => simp [LikeMembers]
  | cons m rest ih => rw [LikeMembers, ih, List.forall_mem_cons]

mutual

/-- **A value is like itself exactly if it is uniform.** -/
theorem like_self_iff : (x : Json) → x.Tidy → (Like x x ↔ Uniform x)
  | .arr [], _ => iff_of_true ⟨[], rfl⟩ trivial
  | .arr (item :: rest), tidy => by
    rw [Like, Uniform, ← like_self_iff item tidy.1]
    simp
  | .obj fields, tidy => by
    rw [Like, Uniform, ← like_self_members_iff fields tidy.2]
    simp only [Json.obj.injEq, exists_eq_left', likeMembers_iff]
    refine forall₂_congr fun m hm => ?_
    rw [Table.get?_of_mem tidy.1 hm]
    simp
  | .null, _ => iff_of_true rfl trivial
  | .bool b, _ => iff_of_true ⟨b, rfl⟩ trivial
  | .num n, _ => iff_of_true ⟨n, rfl⟩ trivial
  | .str s, _ => iff_of_true ⟨s, rfl⟩ trivial
termination_by structural x => x

theorem like_self_members_iff : (members : List (String × Json)) → Json.TidyFields members →
    ((∀ m ∈ members, Like m.2 m.2) ↔ UniformMembers members)
  | [], _ => iff_of_true (fun m hm => absurd hm List.not_mem_nil) trivial
  | (_, v) :: rest, tidy => by
    rw [List.forall_mem_cons, UniformMembers, like_self_iff v tidy.1,
      like_self_members_iff rest tidy.2]
termination_by structural members => members

end

/-! ## What is inferred -/

namespace Schema

lemma inferProperties_names (members : List (String × Json)) :
    (inferProperties members).map Property.name = Table.keys members := by
  induction members with
  | nil => rfl
  | cons m rest ih => exact congrArg (m.1 :: ·) ih

mutual

/-- **The schema of an example admits the values that are like it.** -/
theorem infer_admits : (x v : Json) → (infer x).Admits v ↔ Like x v
  | .null, v => by simp [infer, ofKind, Schema.Admits, SchemaKind.Admits, Like]
  | .bool _, v => by simp [infer, ofKind, Schema.Admits, SchemaKind.Admits, Like]
  | .num _, v => by simp [infer, ofKind, Schema.Admits, SchemaKind.Admits, Like]
  | .str _, v => by simp [infer, ofKind, Schema.Admits, SchemaKind.Admits, Like]
  | .arr [], v => by
    rw [infer, array_admits, Like]
    simp [any, ofKind, Schema.Admits, SchemaKind.Admits]
  | .arr (item :: _), v => by
    rw [infer, array_admits, Like]
    simp only [infer_admits item]
  | .obj fields, v => by
    have members := inferProperties_admits fields
    simp only [infer, ofKind, Schema.Admits, SchemaKind.Admits, Additional.Admits, and_true,
      Bool.false_eq_true, false_and, false_or, Like, members]
termination_by structural x => x

/-- All members of an example are required, and have to be like those of the example. -/
theorem inferProperties_admits : (members : List (String × Json)) → ∀ values : Fields,
    ((∀ name ∈ requiredOf (inferProperties members), values.has name = true) ∧
      AdmitMembers (inferProperties members) values) ↔ LikeMembers members values
  | [], values => by simp [inferProperties, requiredOf, AdmitMembers, LikeMembers]
  | (key, x) :: rest, values => by
    have others := inferProperties_admits rest values
    have first := infer_admits x
    have required : requiredOf (inferProperties ((key, x) :: rest)) =
        key :: requiredOf (inferProperties rest) := rfl
    rw [required, List.forall_mem_cons, inferProperties, AdmitMembers, LikeMembers, ← others,
      Table.has]
    simp only [first]
    cases Table.get? values key with
    | none => simp
    | some w =>
      simp
      tauto
termination_by structural members => members

end

mutual

/-- What is inferred is regular, as the keys of the example are different. -/
theorem infer_regular : (x : Json) → x.Tidy → (infer x).Regular false
  | .null, _ => ⟨rfl, trivial⟩
  | .bool _, _ => ⟨rfl, trivial⟩
  | .num _, _ => ⟨rfl, trivial⟩
  | .str _, _ => ⟨rfl, trivial⟩
  | .arr [], _ => ⟨rfl, rfl, trivial⟩
  | .arr (item :: _), tidy => ⟨rfl, infer_regular item tidy.1⟩
  | .obj fields, tidy => by
    have unpaired : ¬Paired (inferProperties fields) .allowed := by
      rintro ⟨⟨s, he⟩, -⟩
      cases he
    refine ⟨rfl, ?_, .inr unpaired, inferProperties_regular fields tidy.2, trivial⟩
    rw [inferProperties_names]
    exact tidy.1
termination_by structural x => x

theorem inferProperties_regular : (members : List (String × Json)) → Json.TidyFields members →
    RegularProperties false (inferProperties members)
  | [], _ => trivial
  | (_, x) :: rest, tidy => ⟨infer_regular x tidy.1, inferProperties_regular rest tidy.2⟩
termination_by structural members => members

end

/-- **The schema of an example accepts the values that are like it**, and it is a valid one. -/
theorem accepts_infer {x : Json} (tidy : x.Tidy) (v : Json) :
    JsonSchema.isValid (infer x).toJson = true ∧
      (JsonSchema.accepts (infer x).toJson v = true ↔ Like x v) := by
  have regular := infer_regular x tidy
  refine ⟨isSchema_toJson _ _ regular, ?_⟩
  rw [JsonSchema.accepts_iff, violationsOf_toJson regular, infer_admits]

end Schema

end Colloquy
