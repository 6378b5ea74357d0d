import Colloquy.Proofs.Schema.Kinds
import Colloquy.Proofs.Schema.Limit

/-!
# JSON Schema that passes through

A JSON Schema that is read and written again finds the same values right as before, if nothing of it
is lost and if its references lead to what stays in its place.  References are followed into the
document that was written, so they are followed alike only if it says the same; the two are shown
together by induction on the number of references that may still be followed.
-/

namespace Colloquy.Schema

open JsonSchema

/-- The segments of a reference into a document. -/
def segments? (reference : String) : Option (List String) :=
  match reference.toList with
  | ['#'] => some []
  | '#' :: '/' :: pointer =>
    some ((Text.pieces (· == '/') pointer).map fun s => String.ofList (unescapeSegment s))
  | _ => none

lemma target?_eq (root : Json) (reference : String) :
    target? root reference = (segments? reference).bind (descend root) := by
  rw [target?]
  fun_cases segments? reference with
  | case1 h =>
    rw [h]
    rfl
  | case2 pointer h =>
    rw [h]
    rfl
  | case3 whole inside =>
    split
    · rename_i h
      exact absurd h whole
    · rename_i pointer h
      exact absurd h (inside pointer)
    · rfl

/-- The references in a JSON Schema lead to what stays in its place. -/
def Anchored (a : Json) : Prop :=
  ∀ r ∈ references a, ∀ segments, segments? r = some segments → Stays a segments

section

variable {a : Json} {s : Schema} (preserves : Preserves a s) (anchored : Anchored a)
include preserves anchored

lemma target_alike {r : String} (hr : r ∈ references a) :
    Option.Rel Alike (target? a r) (target? s.toJson r) := by
  rw [target?_eq, target?_eq]
  cases hs : segments? r with
  | none => exact .none
  | some segments => exact preserves.leads (anchored r hr segments hs)

/-- References are followed alike in what is written. -/
lemma checker_agrees (strict : Bool) (n : Nat) :
    (checker strict a n).Agrees (references a) (checker strict s.toJson n) := by
  induction n with
  | zero => exact ⟨rfl, fun _ _ _ => Iff.rfl⟩
  | succ n ih =>
    refine ⟨rfl, fun r hr v => ?_⟩
    have related := target_alike preserves anchored hr
    cases ht : target? a r with
    | none =>
      cases ht' : target? s.toJson r with
      | none => rw [follow_of_no_target ht, follow_of_no_target ht']
      | some found =>
        rw [ht, ht'] at related
        cases related
    | some found =>
      cases ht' : target? s.toJson r with
      | none =>
        rw [ht, ht'] at related
        cases related
      | some found' =>
        rw [ht, ht'] at related
        cases related with
        | some alike =>
          rw [follow_of_target ht, follow_of_target ht']
          exact alike (ih.mono (references_target ht)) v

lemma isValid_toJson (valid : isValid a = true) : isValid s.toJson = true := by
  refine preserves.valid (fun r hr resolves => ?_) valid
  have related := target_alike preserves anchored hr
  cases ht : target? a r with
  | none =>
    rw [ht] at resolves
    cases resolves
  | some found =>
    rw [ht] at related
    cases ht' : target? s.toJson r with
    | none =>
      rw [ht'] at related
      cases related
    | some found' => rfl

lemma violationsOf_toJson_iff (valid : isValid a = true) (strict : Bool) (v : Json) :
    violationsOf strict s.toJson v = [] ↔ violationsOf strict a v = [] := by
  rw [violationsOf, violationsOf, if_pos valid,
    if_pos (isValid_toJson preserves anchored valid)]
  -- Both limits are enough, so both documents may be checked with the larger one.
  have enough := le_max_left (referenceLimit a v) (referenceLimit s.toJson v)
  have enough' := le_max_right (referenceLimit a v) (referenceLimit s.toJson v)
  rw [← check_checker_of_le enough, ← check_checker_of_le enough']
  exact preserves.alike (checker_agrees preserves anchored strict _) v

end

/-- A reference that stands alone is kept. -/
lemma kept_reference (r : String) : Kept (.obj [("$ref", .str r)]) := by
  have bare : Bare [("$ref", .str r)] := by
    intro key hk
    refine Table.get?_eq_none fun h => ?_
    have other : "$ref" ∉ ["properties", "required", "items", "additionalProperties"] := by decide
    obtain rfl : key = "$ref" := List.mem_singleton.mp h
    exact other hk
  exact .untyped (List.nodup_singleton _) (fun _ => rfl) rfl bare

/-- What a parcel may have: a number, a note, a weight, and parcels inside it. -/
def parcelParts : Fields :=
  [("number", .obj [("type", .str "integer"), ("minimum", .num (.int 1))]),
   ("note", .obj [("type", .arr [.str "string", .str "null"])]),
   ("weight", .obj [("$ref", .str "#/$defs/weight")]),
   ("inside", .obj [("type", .str "array"), ("items", .obj [("$ref", .str "#")])])]

/-- A parcel has a number, and nothing but its parts. -/
def parcel : Json := .obj
  [("type", .str "object"), ("properties", .obj parcelParts), ("required", .arr [.str "number"]),
   ("additionalProperties", .bool false),
   ("$defs", .obj [("weight", .obj [("type", .str "number"), ("maximum", .num (.int 30))])])]

/-- Objects with a name, which is not listed among properties. -/
def named : Json := .obj [("type", .str "object"), ("required", .arr [.str "name"])]

/-- Texts and objects, where nothing is said of properties. -/
def textOrObject : Json :=
  .obj [("type", .arr [.str "object", .str "string"]), ("properties", .obj [])]

end Colloquy.Schema
