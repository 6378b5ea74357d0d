import Colloquy.Proofs.Table
import Colloquy.Schema.Validation

/-!
# What checking can come to

Checking goes into the value, and it leaves the schema along references only.  So all that it can
come to are the parts of the value that was given and the references that stand in the document.
There are finitely many of both, and not more than the document and the value have values in them.
-/

namespace Colloquy.JsonSchema

/-! ## The parts of a value -/

mutual

/-- The values in a value, of which it is one itself. -/
def parts : Json → List Json
  | .arr items => .arr items :: partsOfItems items
  | .obj fields => .obj fields :: partsOfFields fields
  | v => [v]
termination_by structural v => v

def partsOfItems : List Json → List Json
  | [] => []
  | item :: rest => parts item ++ partsOfItems rest
termination_by structural items => items

def partsOfFields : List (String × Json) → List Json
  | [] => []
  | (_, value) :: rest => parts value ++ partsOfFields rest
termination_by structural fields => fields

end

lemma self_mem_parts (v : Json) : v ∈ parts v := by
  cases v <;> simp [parts]

lemma partsOfItems_eq (items : List Json) : partsOfItems items = items.flatMap parts := by
  induction items with
  | nil => rfl
  | cons item rest ih => rw [partsOfItems, ih, List.flatMap_cons]

lemma partsOfFields_eq (fields : List (String × Json)) :
    partsOfFields fields = fields.flatMap fun m => parts m.2 := by
  induction fields with
  | nil => rfl
  | cons m rest ih => rw [partsOfFields, ih, List.flatMap_cons]

lemma parts_of_item {items : List Json} {item : Json} (h : item ∈ items) :
    parts item ⊆ parts (.arr items) := by
  rw [parts, partsOfItems_eq]
  exact fun w hw => List.mem_cons_of_mem _ (List.mem_flatMap.mpr ⟨item, h, hw⟩)

lemma parts_of_member {fields : List (String × Json)} {m : String × Json} (h : m ∈ fields) :
    parts m.2 ⊆ parts (.obj fields) := by
  rw [parts, partsOfFields_eq]
  exact fun w hw => List.mem_cons_of_mem _ (List.mem_flatMap.mpr ⟨m, h, hw⟩)

lemma parts_of_get? {v w : Json} {key : String} (h : v.get? key = some w) : parts w ⊆ parts v := by
  cases v with
  | obj fields => exact parts_of_member (Table.mem_of_get? h)
  | _ => cases h

lemma parts_of_unlisted {properties : Option Fields} {v : Json} {m : String × Json}
    (h : m ∈ unlisted properties v) : parts m.2 ⊆ parts v := by
  have member := (List.mem_filter.mp h).1
  cases v with
  | obj fields => exact parts_of_member member
  | _ => cases member

mutual

/-- What is a part of a part is a part. -/
lemma parts_subset : (v : Json) → ∀ w ∈ parts v, parts w ⊆ parts v
  | .arr items, w, hw => by
    rw [parts, List.mem_cons] at hw
    rcases hw with rfl | hw
    · exact List.Subset.refl _
    · exact List.subset_cons_of_subset _ (partsOfItems_subset items w hw)
  | .obj fields, w, hw => by
    rw [parts, List.mem_cons] at hw
    rcases hw with rfl | hw
    · exact List.Subset.refl _
    · exact List.subset_cons_of_subset _ (partsOfFields_subset fields w hw)
  | .null, w, hw => by rw [List.mem_singleton.mp hw]; exact List.Subset.refl _
  | .bool _, w, hw => by rw [List.mem_singleton.mp hw]; exact List.Subset.refl _
  | .num _, w, hw => by rw [List.mem_singleton.mp hw]; exact List.Subset.refl _
  | .str _, w, hw => by rw [List.mem_singleton.mp hw]; exact List.Subset.refl _
termination_by structural v => v

lemma partsOfItems_subset : (items : List Json) → ∀ w ∈ partsOfItems items,
    parts w ⊆ partsOfItems items
  | [], w, hw => absurd hw List.not_mem_nil
  | item :: rest, w, hw => by
    rw [partsOfItems, List.mem_append] at hw
    rw [partsOfItems]
    rcases hw with hw | hw
    · exact List.subset_append_of_subset_left _ (parts_subset item w hw)
    · exact List.subset_append_of_subset_right _ (partsOfItems_subset rest w hw)
termination_by structural items => items

lemma partsOfFields_subset : (fields : List (String × Json)) → ∀ w ∈ partsOfFields fields,
    parts w ⊆ partsOfFields fields
  | [], w, hw => absurd hw List.not_mem_nil
  | (_, value) :: rest, w, hw => by
    rw [partsOfFields, List.mem_append] at hw
    rw [partsOfFields]
    rcases hw with hw | hw
    · exact List.subset_append_of_subset_left _ (parts_subset value w hw)
    · exact List.subset_append_of_subset_right _ (partsOfFields_subset rest w hw)
termination_by structural fields => fields

end

mutual

/-- The weight of a value is the number of its parts. -/
lemma length_parts : (v : Json) → (parts v).length = weight v
  | .arr items => by rw [parts, weight, List.length_cons, length_partsOfItems items]
  | .obj fields => by rw [parts, weight, List.length_cons, length_partsOfFields fields]
  | .null => rfl
  | .bool _ => rfl
  | .num _ => rfl
  | .str _ => rfl
termination_by structural v => v

lemma length_partsOfItems : (items : List Json) → (partsOfItems items).length = weightItems items
  | [] => rfl
  | item :: rest => by
    rw [partsOfItems, weightItems, List.length_append, length_parts item,
      length_partsOfItems rest]
termination_by structural items => items

lemma length_partsOfFields : (fields : List (String × Json)) →
    (partsOfFields fields).length = weightFields fields
  | [] => rfl
  | (_, value) :: rest => by
    rw [partsOfFields, weightFields, List.length_append, length_parts value,
      length_partsOfFields rest]
termination_by structural fields => fields

end

/-! ## The references in a document -/

private lemma flatMap_subset {α β : Type} {some all : List α} (h : some ⊆ all) (f : α → List β) :
    some.flatMap f ⊆ all.flatMap f := by
  intro b hb
  obtain ⟨a, ha, hf⟩ := List.mem_flatMap.mp hb
  exact List.mem_flatMap.mpr ⟨a, h ha, hf⟩

/-- The reference that a member is, if it is one. -/
def referenceOf : String × Json → List String
  | ("$ref", .str target) => [target]
  | _ => []

mutual

/-- The references that stand anywhere in a value. -/
def references : Json → List String
  | .arr items => referencesOfItems items
  | .obj fields => referencesOfFields fields
  | _ => []
termination_by structural v => v

def referencesOfItems : List Json → List String
  | [] => []
  | item :: rest => references item ++ referencesOfItems rest
termination_by structural items => items

def referencesOfFields : List (String × Json) → List String
  | [] => []
  | (key, value) :: rest => referenceOf (key, value) ++ references value ++ referencesOfFields rest
termination_by structural fields => fields

end

lemma referencesOfItems_eq (items : List Json) :
    referencesOfItems items = items.flatMap references := by
  induction items with
  | nil => rfl
  | cons item rest ih => rw [referencesOfItems, ih, List.flatMap_cons]

lemma referencesOfFields_eq (fields : List (String × Json)) :
    referencesOfFields fields = fields.flatMap fun m => referenceOf m ++ references m.2 := by
  induction fields with
  | nil => rfl
  | cons m rest ih => rw [referencesOfFields, ih, List.flatMap_cons]

lemma references_of_item {items : List Json} {item : Json} (h : item ∈ items) :
    references item ⊆ references (.arr items) := by
  rw [references, referencesOfItems_eq]
  exact fun r hr => List.mem_flatMap.mpr ⟨item, h, hr⟩

lemma references_of_member {fields : List (String × Json)} {m : String × Json} (h : m ∈ fields) :
    references m.2 ⊆ references (.obj fields) := by
  rw [references, referencesOfFields_eq]
  exact fun r hr => List.mem_flatMap.mpr ⟨m, h, List.mem_append_right _ hr⟩

lemma references_subset {fields fields' : List (String × Json)} (h : fields ⊆ fields') :
    references (.obj fields) ⊆ references (.obj fields') := by
  rw [references, references, referencesOfFields_eq, referencesOfFields_eq]
  exact flatMap_subset h _

lemma references_of_items {items items' : List Json} (h : items ⊆ items') :
    references (.arr items) ⊆ references (.arr items') := by
  rw [references, references, referencesOfItems_eq, referencesOfItems_eq]
  exact flatMap_subset h _

lemma mem_references {fields : List (String × Json)} {target : String}
    (h : ("$ref", .str target) ∈ fields) : target ∈ references (.obj fields) := by
  rw [references, referencesOfFields_eq]
  exact List.mem_flatMap.mpr ⟨_, h, List.mem_append_left _ List.mem_cons_self⟩

/-- A document says nothing below a reference that it does not say itself. -/
lemma references_descend {root found : Json} {segments : List String}
    (h : descend root segments = some found) : references found ⊆ references root := by
  induction segments generalizing root with
  | nil =>
    rw [Option.some.inj h]
    exact List.Subset.refl _
  | cons segment rest ih =>
    rw [descend.eq_def] at h
    cases root with
    | obj fields =>
      obtain ⟨v, hv, hd⟩ := Option.bind_eq_some_iff.mp h
      exact List.Subset.trans (ih hd) (references_of_member (Table.mem_of_get? hv))
    | arr items =>
      obtain ⟨v, hv, hd⟩ := Option.bind_eq_some_iff.mp h
      obtain ⟨i, _, hi⟩ := Option.bind_eq_some_iff.mp hv
      exact List.Subset.trans (ih hd) (references_of_item (List.mem_of_getElem? hi))
    | _ => cases h

lemma references_target {root found : Json} {reference : String}
    (h : target? root reference = some found) : references found ⊆ references root := by
  rw [target?] at h
  split at h
  · rw [Option.some.inj h]
    exact List.Subset.refl _
  · exact references_descend h
  · cases h

mutual

/-- Each reference is a value of its own. -/
lemma length_references : (v : Json) → (references v).length ≤ weight v
  | .arr items => Nat.le_succ_of_le (length_referencesOfItems items)
  | .obj fields => Nat.le_succ_of_le (length_referencesOfFields fields)
  | .null => Nat.zero_le _
  | .bool _ => Nat.zero_le _
  | .num _ => Nat.zero_le _
  | .str _ => Nat.zero_le _
termination_by structural v => v

lemma length_referencesOfItems : (items : List Json) →
    (referencesOfItems items).length ≤ weightItems items
  | [] => Nat.le_refl _
  | item :: rest => by
    rw [referencesOfItems, weightItems, List.length_append]
    exact Nat.add_le_add (length_references item) (length_referencesOfItems rest)
termination_by structural items => items

lemma length_referencesOfFields : (fields : List (String × Json)) →
    (referencesOfFields fields).length ≤ weightFields fields
  | [] => Nat.le_refl _
  | (key, value) :: rest => by
    have inside := length_references value
    have own : (referenceOf (key, value) ++ references value).length ≤ weight value := by
      rw [referenceOf.eq_def]
      split
      · rename_i target he
        obtain ⟨_, rfl⟩ := Prod.mk.inj he
        exact Nat.le_refl 1
      · exact inside
    rw [referencesOfFields, weightFields, List.length_append]
    exact Nat.add_le_add own (length_referencesOfFields rest)
termination_by structural fields => fields

end

end Colloquy.JsonSchema
