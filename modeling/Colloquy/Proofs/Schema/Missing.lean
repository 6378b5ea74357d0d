import Colloquy.Proofs.Schema.PassThrough

/-!
# Members that are missing

What a property has to be does not matter for an object that has no such member: schemas that differ
there only accept the same.  References could make it matter nevertheless, because the schema under
which they lead may be that of the property, or hold it.  So they have to lead elsewhere (`Shuns`).
-/

namespace Colloquy

namespace JsonSchema

/-- The references of a document lead neither into what stands at the end of some segments, nor to
what this stands in. -/
def Shuns (document : Json) (segments : List String) : Prop :=
  ∀ r ∈ references document, ∀ others, Schema.segments? r = some others →
    ¬others <+: segments ∧ ¬segments <+: others

end JsonSchema

/-- The property with another schema, if it has the name. -/
def Property.withSchema (name : String) (u : Schema) (p : Property) : Property :=
  if p.name = name then { p with schema := u } else p

namespace Schema

open JsonSchema

/-! ## Rows that list other schemas under one name -/

section

variable {name : String} {before after listed listed' : Fields}

/-- A row of keywords among which properties are listed. -/
def listing (before listed after : Fields) : Fields :=
  before ++ ("properties", .obj listed) :: after

lemma get?_listing (fresh : "properties" ∉ before.keys) :
    Table.get? (listing before listed after) "properties" = some (.obj listed) := by
  rw [listing, Table.get?_append, Table.get?_eq_none fresh, Option.none_or, Table.get?_cons,
    if_pos rfl]

lemma get?_listing_of_ne (listed listed' : Fields) {key : String} (h : key ≠ "properties") :
    Table.get? (listing before listed' after) key =
      Table.get? (listing before listed after) key := by
  rw [listing, listing, Table.get?_append, Table.get?_append, Table.get?_cons, Table.get?_cons,
    if_neg h, if_neg h]

variable (same : Table.SameBut name listed listed') (fresh : "properties" ∉ before.keys)
include same fresh

/-- What stands elsewhere is the same in both rows. -/
lemma descend_listing {segments : List String} (above : ¬segments <+: ["properties", name])
    (inside : ¬["properties", name] <+: segments) :
    descend (.obj (listing before listed' after)) segments =
      descend (.obj (listing before listed after)) segments := by
  rcases segments with _ | ⟨first, rest⟩
  · exact absurd List.nil_prefix above
  rw [descend, descend]
  by_cases hf : first = "properties"
  · subst hf
    rw [get?_listing fresh, get?_listing fresh]
    rcases rest with _ | ⟨second, rest⟩
    · exact absurd ⟨[name], rfl⟩ above
    have other : second ≠ name := by
      rintro rfl
      exact inside ⟨rest, rfl⟩
    rw [Option.bind_some, Option.bind_some, descend, descend, same.get?_eq other]
  · rw [get?_listing_of_ne listed listed' hf]

/-- Rows that differ under one name are followed alike. -/
lemma checker_agrees_listing
    (shuns : Shuns (.obj (listing before listed after)) ["properties", name]) (strict : Bool)
    (n : Nat) : (checker strict (.obj (listing before listed after)) n).Agrees
      (references (.obj (listing before listed after)))
      (checker strict (.obj (listing before listed' after)) n) := by
  have target {r : String} (hr : r ∈ references (.obj (listing before listed after))) :
      target? (.obj (listing before listed' after)) r =
        target? (.obj (listing before listed after)) r := by
    rw [target?_eq, target?_eq]
    cases hs : segments? r with
    | none => rfl
    | some segments =>
      obtain ⟨above, inside⟩ := shuns r hr segments hs
      exact descend_listing same fresh above inside
  induction n with
  | zero => exact ⟨rfl, fun _ _ _ => Iff.rfl⟩
  | succ n ih =>
    refine ⟨rfl, fun r hr v => ?_⟩
    cases ht : target? (.obj (listing before listed after)) r with
    | none => rw [follow_of_no_target ht, follow_of_no_target ((target hr).trans ht)]
    | some found =>
      rw [follow_of_target ht, follow_of_target ((target hr).trans ht)]
      exact check_of_agrees (ih.mono (references_target ht)) v

/-- The keywords of both rows know the same of each other, as far as it counts. -/
lemma surroundings_listing (after : Fields) (c : Checker) :
    (c.surroundings (listing before listed' after)).lenient =
      (c.surroundings (listing before listed after)).lenient ∧
    ∀ v, unlisted (c.surroundings (listing before listed' after)).properties v =
      unlisted (c.surroundings (listing before listed after)).properties v := by
  constructor
  · rw [Checker.surroundings, Checker.surroundings]
    dsimp only
    rw [pairBesideSchema, pairBesideSchema, get?_listing fresh, get?_listing fresh,
      get?_listing_of_ne listed listed' (by decide : "additionalProperties" ≠ "properties"),
      get?_listing_of_ne listed listed' (by decide : "required" ≠ "properties")]
    rfl
  · intro v
    rw [Checker.surroundings, Checker.surroundings]
    dsimp only
    rw [get?_listing fresh, get?_listing fresh]
    have keys : ((some listed').getD []).keys = ((some listed).getD []).keys := same.keys_eq
    exact unlisted_congr keys v

omit same fresh in
/-- A keyword needs to know which members are not listed and whether names are demanded. -/
lemma checkKeywords_congr {c : Checker} {around around' : Surroundings} {v : Json}
    (lenient : around'.lenient = around.lenient)
    (others : unlisted around'.properties v = unlisted around.properties v) (keywords : Fields) :
    checkKeywords c around' v keywords = [] ↔ checkKeywords c around v keywords = [] := by
  rw [checkKeywords_eq_nil_iff, checkKeywords_eq_nil_iff]
  refine forall₂_congr fun m _ => ?_
  obtain ⟨keyword, arg⟩ := m
  by_cases ha : keyword = "additionalProperties"
  · subst ha
    rw [checkKeywords_unlisted, checkKeywords_unlisted, others]
  by_cases hr : keyword = "required"
  · subst hr
    rw [checkKeywords, checkKeywords, checkKeywords, checkKeywords, lenient]
  rw [checkKeywords_around ha hr around' around]

/-- **An object without the member is checked alike under both rows.** -/
lemma check_listing {c c' : Checker} {v : Json} (missing : v.get? name = none)
    (agrees : c.Agrees (references (.obj (listing before listed after))) c') :
    check c' (.obj (listing before listed' after)) v = [] ↔
      check c (.obj (listing before listed after)) v = [] := by
  obtain ⟨lenient, others⟩ := surroundings_listing same fresh after c'
  have keywords (row : Fields) (hr : row ⊆ listing before listed after) :
      checkKeywords c' (c'.surroundings (listing before listed' after)) v row = [] ↔
        checkKeywords c (c.surroundings (listing before listed after)) v row = [] := by
    have own := agrees.mono (references_subset hr)
    rw [checkKeywords_congr lenient (others v)]
    exact ⟨checkKeywords_of_covers row v (own.symm.covers _) ((agrees.symm.covers []).surroundings _),
      checkKeywords_of_covers row v (own.covers _) ((agrees.covers []).surroundings _)⟩
  have listedReferences : references (.obj listed) ⊆
      references (.obj (listing before listed after)) :=
    references_of_member (m := ("properties", .obj listed))
      (List.mem_append_right _ List.mem_cons_self)
  have members : checkKeywords c' (c'.surroundings (listing before listed' after)) v
      [("properties", .obj listed')] = [] ↔
      checkKeywords c (c.surroundings (listing before listed after)) v
        [("properties", .obj listed)] = [] := by
    rw [checkKeywords_properties, checkKeywords_properties]
    refine forall₂_congr fun fields hv => ?_
    subst hv
    -- The schema under the name is asked for nothing, and the others stand in both rows.
    have present {m : String × Json} {w : Json} (hw : Table.get? fields m.1 = some w) :
        m.1 ≠ name := by
      rintro rfl
      cases missing.symm.trans hw
    have each {m : String × Json} (hm : m ∈ listed) (w : Json) :
        check c' m.2 w = [] ↔ check c m.2 w = [] :=
      check_of_agrees (agrees.mono (List.Subset.trans (references_of_member hm) listedReferences)) w
    constructor
    · intro h m hm w hw
      exact (each hm w).mp (h m (same.mem hm (present hw)) w hw)
    · intro h m hm w hw
      have hm' := same.symm.mem hm (present hw)
      exact (each hm' w).mpr (h m hm' w hw)
  have first := keywords before (List.subset_append_left _ _)
  have last := keywords after fun m hm => List.mem_append_right _ (List.mem_cons_of_mem _ hm)
  have row (c : Checker) (around : Surroundings) (listed : Fields) :
      checkKeywords c around v (listing before listed after) = [] ↔
        checkKeywords c around v before = [] ∧
          checkKeywords c around v [("properties", .obj listed)] = [] ∧
          checkKeywords c around v after = [] := by
    rw [listing, checkKeywords_append, checkKeywords_cons, List.append_eq_nil_iff,
      List.append_eq_nil_iff]
  rw [check, check, row, row, first, members, last]

end

/-! ## Objects with another schema for a property -/

/-- The schema with another one for its properties of a name. -/
def setProperty (s : Schema) (name : String) (u : Schema) : Schema :=
  match s.kind with
  | .object properties additional =>
    { s with kind := .object (properties.map (Property.withSchema name u)) additional }
  | _ => s

section

variable {name : String} {t u : Schema} {properties : List Property} {additional : Additional}

/-- The keywords of an object before and after those of its properties. -/
lemma toJson_object (description : Option String) (nullable : Bool) :
    toJson ⟨.object properties additional, description, nullable, []⟩ =
      .obj (listing (typeKeyword (.object [] .allowed) nullable)
        (Table.ofList (propertyMembers properties))
        (requiredKeyword properties ++ additionalKeyword additional ++
          descriptionKeyword description)) := by
  rw [toJson_eq, listing, keywords, List.append_assoc, List.cons_append, List.cons_append]
  rfl

lemma propertyMembers_sameBut (name : String) (u : Schema) (properties : List Property) :
    Table.SameBut name (propertyMembers properties)
      (propertyMembers (properties.map (Property.withSchema name u))) := by
  induction properties with
  | nil => exact .nil
  | cons p rest ih =>
    obtain ⟨own, schema, optional⟩ := p
    rw [List.map_cons, Property.withSchema]
    split
    · rename_i he
      exact .cons ⟨rfl, fun hne => absurd he hne⟩ ih
    · exact .cons ⟨rfl, fun _ => rfl⟩ ih

lemma requiredKeyword_withSchema (name : String) (u : Schema) (properties : List Property) :
    requiredKeyword (properties.map (Property.withSchema name u)) =
      requiredKeyword properties := by
  have same (p : Property) : (p.withSchema name u).name = p.name ∧
      (p.withSchema name u).optional = p.optional := by
    rw [Property.withSchema]
    split <;> exact ⟨rfl, rfl⟩
  simp only [requiredKeyword, requiredOf, List.filter_map, List.map_map, Function.comp_def, same]

/-- What an object demands of one without the member, where it is valid and its references lead
elsewhere, is what it demands if the property may be anything. -/
lemma accepts_iff_of_missing {o : Json} (missing : o.get? name = none)
    (hk : t.kind = .object properties additional) (extensions : t.extensions = [])
    (valid : isValid t.toJson = true)
    (shuns : Shuns (t.setProperty name any).toJson ["properties", name]) {n : Nat}
    (hn : referenceLimit t.toJson o ≤ n) :
    accepts t.toJson o = true ↔ check (checker false (t.setProperty name any).toJson n)
      (t.setProperty name any).toJson o = [] := by
  obtain ⟨kind, description, nullable, extensions⟩ := t
  subst hk extensions
  rw [setProperty] at shuns ⊢
  dsimp only at shuns ⊢
  have fresh : "properties" ∉ Table.keys (typeKeyword (.object [] .allowed) nullable) := by
    cases nullable <;> decide
  have same := (propertyMembers_sameBut name any properties).ofList
  rw [toJson_object, requiredKeyword_withSchema] at shuns
  rw [accepts_iff, violationsOf, if_pos valid, ← check_checker_of_le hn, toJson_object,
    toJson_object, requiredKeyword_withSchema]
  exact check_listing same.symm fresh missing
    (checker_agrees_listing same.symm fresh shuns false n)

lemma setProperty_any (t : Schema) (name : String) (u : Schema) :
    (t.setProperty name u).setProperty name any = t.setProperty name any := by
  have twice (p : Property) : (p.withSchema name u).withSchema name any = p.withSchema name any := by
    by_cases h : p.name = name
    · simp [Property.withSchema, h]
    · simp [Property.withSchema, h]
  obtain ⟨kind, description, nullable, extensions⟩ := t
  cases kind with
  | object properties additional =>
    simp only [setProperty, List.map_map, Function.comp_def, twice]
  | _ => simp [setProperty]

/-- **What a missing member had to be does not matter**: with any other schema for the property an
object without the member is accepted as before. -/
theorem accepts_setProperty {o : Json} (missing : o.get? name = none)
    (hk : t.kind = .object properties additional) (extensions : t.extensions = [])
    (valid : isValid t.toJson = true) (valid' : isValid (t.setProperty name u).toJson = true)
    (shuns : Shuns (t.setProperty name any).toJson ["properties", name]) :
    accepts (t.setProperty name u).toJson o = accepts t.toJson o := by
  have kind : (t.setProperty name u).kind =
      .object (properties.map (Property.withSchema name u)) additional := by
    rw [setProperty, hk]
  have extensions' : (t.setProperty name u).extensions = [] := by
    rw [setProperty, hk]
    exact extensions
  have enough := le_max_left (referenceLimit t.toJson o)
    (referenceLimit (t.setProperty name u).toJson o)
  have enough' := le_max_right (referenceLimit t.toJson o)
    (referenceLimit (t.setProperty name u).toJson o)
  rw [Bool.eq_iff_iff, accepts_iff_of_missing missing hk extensions valid shuns enough,
    accepts_iff_of_missing missing kind extensions' valid' (by rwa [setProperty_any]) enough',
    setProperty_any]

end

end Schema

end Colloquy
