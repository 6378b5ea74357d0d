import Colloquy.Proofs.Schema.References

/-!
# Checking keyword by keyword

Keywords stand in a row and are checked one by one, so a row finds nothing wrong when each keyword
does.  The lemmas say when that is for keywords that hold schemas.

A checker that is not strict demands less than one that is, and nothing else: a value with which the
strict checker finds nothing wrong is accepted by the other one, under every schema.
-/

namespace Colloquy.JsonSchema

variable {c : Checker} {around : Surroundings} {v : Json}

@[simp] lemma demand_eq_nil {holds : Bool} {message : String} :
    demand holds message = [] ↔ holds = true := by
  cases holds <;> simp [demand]

/-- Keywords demand each for itself. -/
lemma checkKeywords_cons (m : String × Json) (rest : List (String × Json)) :
    checkKeywords c around v (m :: rest) =
      checkKeywords c around v [m] ++ checkKeywords c around v rest := by
  obtain ⟨keyword, arg⟩ := m
  rw [checkKeywords.eq_def, checkKeywords.eq_def c around v [_]]
  exact (congrArg (· ++ _) (List.append_nil _)).symm

lemma checkKeywords_eq_nil_iff {keywords : List (String × Json)} :
    checkKeywords c around v keywords = [] ↔ ∀ m ∈ keywords, checkKeywords c around v [m] = [] := by
  induction keywords with
  | nil => exact iff_of_true rfl fun m hm => absurd hm List.not_mem_nil
  | cons m rest ih =>
    rw [checkKeywords_cons, List.append_eq_nil_iff, ih, List.forall_mem_cons]

lemma checkKeywords_append (first second : List (String × Json)) :
    checkKeywords c around v (first ++ second) =
      checkKeywords c around v first ++ checkKeywords c around v second := by
  induction first with
  | nil => rfl
  | cons m rest ih =>
    rw [List.cons_append, checkKeywords_cons, ih, ← List.append_assoc, ← checkKeywords_cons]

lemma areKeywords_cons (resolves : String → Bool) (m : String × Json)
    (rest : List (String × Json)) :
    areKeywords resolves (m :: rest) = (areKeywords resolves [m] && areKeywords resolves rest) := by
  obtain ⟨keyword, arg⟩ := m
  rw [areKeywords.eq_def, areKeywords.eq_def resolves [_]]
  exact (congrArg (· && _) (Bool.and_true _)).symm

lemma areKeywords_iff {resolves : String → Bool} {keywords : List (String × Json)} :
    areKeywords resolves keywords = true ↔ ∀ m ∈ keywords, areKeywords resolves [m] = true := by
  induction keywords with
  | nil => exact iff_of_true rfl fun m hm => absurd hm List.not_mem_nil
  | cons m rest ih =>
    rw [areKeywords_cons, Bool.and_eq_true, ih, List.forall_mem_cons]

lemma areKeywords_append (resolves : String → Bool) (first second : List (String × Json)) :
    areKeywords resolves (first ++ second) =
      (areKeywords resolves first && areKeywords resolves second) := by
  induction first with
  | nil => rfl
  | cons m rest ih =>
    rw [List.cons_append, areKeywords_cons, ih, ← Bool.and_assoc, ← areKeywords_cons]

lemma areMemberSchemas_iff {resolves : String → Bool} {schemas : List (String × Json)} :
    areMemberSchemas resolves schemas = true ↔ ∀ m ∈ schemas, isSchema resolves m.2 = true := by
  induction schemas with
  | nil => exact iff_of_true rfl fun m hm => absurd hm List.not_mem_nil
  | cons m rest ih =>
    rw [areMemberSchemas, Bool.and_eq_true, ih, List.forall_mem_cons]

/-! ## What keywords demand -/

lemma hasType_null_iff : hasType "null" v = true ↔ v = .null := by
  cases v <;> simp [hasType]

/-- Items are demanded to satisfy a schema. -/
lemma checkKeywords_items (schema : Json) :
    checkKeywords c around v [("items", schema)] = [] ↔
      ∀ vs, v = .arr vs → ∀ w ∈ vs, check c schema w = [] := by
  have each (vs : List Json) : (vs.zipIdx.flatMap fun m =>
      (check c schema m.1).map (Violation.under (toString m.2))) = [] ↔
        ∀ w ∈ vs, check c schema w = [] := by
    rw [List.flatMap_eq_nil_iff]
    simp only [List.map_eq_nil_iff]
    refine ⟨fun h w hw => ?_, fun h m hm => h m.1 (List.fst_mem_of_mem_zipIdx hm)⟩
    obtain ⟨i, hi, rfl⟩ := List.mem_iff_getElem.mp hw
    exact h (vs[i], i) (List.mem_zipIdx_iff_getElem?.mpr (List.getElem?_eq_getElem hi))
  rw [checkKeywords, checkKeywords, List.append_nil]
  cases v with
  | arr vs => simpa [Json.asArray?] using each vs
  | _ => simp [Json.asArray?]

/-- Members are demanded to satisfy the schemas for their names. -/
lemma checkMembers_eq_nil (schemas : List (String × Json)) :
    checkMembers c v schemas = [] ↔
      ∀ m ∈ schemas, ∀ w, v.get? m.1 = some w → check c m.2 w = [] := by
  induction schemas with
  | nil => simp [checkMembers]
  | cons m rest ih =>
    obtain ⟨name, schema⟩ := m
    rw [checkMembers, List.append_eq_nil_iff, ih, List.forall_mem_cons]
    refine and_congr_left fun _ => ?_
    cases v.get? name with
    | none => simp
    | some w => simp

lemma checkClosed_eq_nil (listed : Option Fields) :
    checkClosed listed v = [] ↔ unlisted listed v = [] := by
  rw [checkClosed.eq_def]
  cases listed <;> cases unlisted _ v <;> simp

/-- Members that are not listed are demanded to satisfy a schema. -/
lemma checkKeywords_unlisted (schema : Json) :
    checkKeywords c around v [("additionalProperties", schema)] = [] ↔
      ∀ m ∈ unlisted around.properties v, check c schema m.2 = [] := by
  rw [checkKeywords, checkKeywords, List.append_nil]
  split
  · rename_i closed
    rw [closed, checkClosed_eq_nil, List.eq_nil_iff_forall_not_mem]
    exact forall₂_congr fun m _ => iff_of_eq (eq_false (List.cons_ne_nil _ _)).symm
  · simp only [List.flatMap_eq_nil_iff, List.map_eq_nil_iff]

lemma unlisted_obj (listed fields : Fields) :
    unlisted (some listed) (.obj fields) = fields.filter fun m => !listed.has m.1 := rfl

/-! ## Leniency -/

/-- The keywords that hold schemas or have to know of other keywords. -/
def composite : List String :=
  ["properties", "additionalProperties", "items", "anyOf", "$ref", "required"]

lemma checkKeywords_assertion {keyword : String} (h : keyword ∉ composite) (arg : Json) :
    checkKeywords c around v [(keyword, arg)] = checkAssertion keyword arg v := by
  simp only [composite, List.mem_cons, List.not_mem_nil, not_or] at h
  rw [checkKeywords.eq_def]
  simp [h, checkKeywords]

/-- The second checker finds nothing wrong where the first does not: its keywords demand no more, and
nor does what it finds under these references for these values. -/
structure Checker.Covers (refs : List String) (values : List Json) (c c' : Checker) : Prop where
  strict : c.strict = true ∨ c'.strict = c.strict
  follow : ∀ r ∈ refs, ∀ v ∈ values, c.follow r v = [] → c'.follow r v = []

section

variable {c' : Checker} {around around' : Surroundings}

lemma Checker.Covers.mono {refs refs' : List String} {values values' : List Json}
    (h : c.Covers refs values c') (hr : refs' ⊆ refs) (hv : values' ⊆ values) :
    c.Covers refs' values' c' :=
  ⟨h.strict, fun r hr' v hv' => h.follow r (hr hr') v (hv hv')⟩

/-- The keywords of a schema know the same of each other, but for the names that a checker which is
not strict does not demand. -/
structure Surroundings.Cover (around around' : Surroundings) : Prop where
  properties : around'.properties = around.properties
  lenient : around.lenient = true → around'.lenient = true

lemma Checker.Covers.surroundings {refs : List String} {values : List Json}
    (h : c.Covers refs values c') (keywords : Fields) :
    (c.surroundings keywords).Cover (c'.surroundings keywords) := by
  refine ⟨rfl, fun hl => ?_⟩
  rw [Checker.surroundings] at hl ⊢
  rcases h.strict with hs | hs
  · rw [hs] at hl
    cases hl
  · rwa [hs]

/-- A single keyword, when what it holds is checked as it should be. -/
lemma checkKeyword_of_covers {keyword : String} {arg : Json}
    (h : c.Covers (references (.obj [(keyword, arg)])) (parts v) c') (ha : around.Cover around')
    (inside : ∀ w, parts w ⊆ parts v → check c arg w = [] → check c' arg w = [])
    (members : ∀ schemas, arg = .obj schemas →
      checkMembers c v schemas = [] → checkMembers c' v schemas = [])
    (options : ∀ schemas, arg = .arr schemas →
      someHolds c v schemas = true → someHolds c' v schemas = true)
    (hc : checkKeywords c around v [(keyword, arg)] = []) :
    checkKeywords c' around' v [(keyword, arg)] = [] := by
  -- All but the composite keywords are checked without a look at the checker.
  by_cases hm : keyword ∈ composite
  · simp only [composite, List.mem_cons, List.not_mem_nil, or_false] at hm
    rcases hm with rfl | rfl | rfl | rfl | rfl | rfl
    · cases arg with
      | obj schemas =>
        rw [checkKeywords, checkKeywords, List.append_nil] at hc ⊢
        exact members schemas rfl hc
      | _ => simp [checkKeywords]
    · rw [checkKeywords, checkKeywords, List.append_nil] at hc ⊢
      rw [ha.properties]
      split
      · rename_i ha
        rwa [if_pos ha] at hc
      · rename_i ha
        rw [if_neg ha] at hc
        rw [List.flatMap_eq_nil_iff] at hc ⊢
        intro m hm
        have within := parts_of_unlisted hm
        exact List.map_eq_nil_iff.mpr (inside m.2 within (List.map_eq_nil_iff.mp (hc m hm)))
    · rw [checkKeywords_items] at hc ⊢
      rintro vs rfl w hw
      exact inside w (parts_of_item hw) (hc vs rfl w hw)
    · cases arg with
      | arr schemas =>
        rw [checkKeywords, checkKeywords, List.append_nil, demand_eq_nil] at hc ⊢
        exact options schemas rfl hc
      | _ => simp [checkKeywords]
    · cases arg with
      | str target =>
        rw [checkKeywords, checkKeywords, List.append_nil] at hc ⊢
        exact h.follow target (mem_references List.mem_cons_self) v (self_mem_parts v) hc
      | _ => simp [checkKeywords]
    · rw [checkKeywords, checkKeywords, List.append_nil] at hc ⊢
      split
      · rfl
      · rename_i demanded
        have : ¬around.lenient = true := fun hl => demanded (ha.lenient hl)
        rwa [if_neg this] at hc
  · rw [checkKeywords_assertion hm] at hc ⊢
    exact hc

mutual

/-- **A checker that covers another one accepts what that one accepts.**  It has to do so for the
references of the schema and the parts of the value only. -/
theorem check_of_covers : (schema : Json) → ∀ v, c.Covers (references schema) (parts v) c' →
    check c schema v = [] → check c' schema v = []
  | .obj keywords, v, h, hc => by
    rw [check] at hc ⊢
    exact checkKeywords_of_covers keywords v h (h.surroundings keywords) hc
  | .bool false, v, _, hc => by cases hc
  | .bool true, _, _, _ => rfl
  | .null, _, _, _ => rfl
  | .num _, _, _, _ => rfl
  | .str _, _, _, _ => rfl
  | .arr _, _, _, _ => rfl
termination_by structural schema => schema

theorem checkKeywords_of_covers : (keywords : List (String × Json)) → ∀ v {around around'},
    c.Covers (references (.obj keywords)) (parts v) c' → around.Cover around' →
    checkKeywords c around v keywords = [] → checkKeywords c' around' v keywords = []
  | [], _, _, _, _, _, _ => rfl
  | (keyword, arg) :: rest, v, around, around', h, ha, hc => by
    rw [checkKeywords_cons, List.append_eq_nil_iff] at hc ⊢
    have own : references arg ⊆ references (.obj ((keyword, arg) :: rest)) :=
      references_of_member (m := (keyword, arg)) List.mem_cons_self
    have inside : ∀ w, parts w ⊆ parts v → check c arg w = [] → check c' arg w = [] :=
      fun w hw => check_of_covers arg w (h.mono own hw)
    have members : ∀ schemas, arg = .obj schemas →
        checkMembers c v schemas = [] → checkMembers c' v schemas = [] := by
      intro schemas ha
      cases arg with
      | obj schemas' =>
        obtain rfl := Json.obj.inj ha
        exact checkMembers_of_covers schemas' v (h.mono own (List.Subset.refl _))
      | _ => cases ha
    have options : ∀ schemas, arg = .arr schemas →
        someHolds c v schemas = true → someHolds c' v schemas = true := by
      intro schemas ha
      cases arg with
      | arr schemas' =>
        obtain rfl := Json.arr.inj ha
        exact someHolds_of_covers schemas' v (h.mono own (List.Subset.refl _))
      | _ => cases ha
    have first := h.mono (references_subset (List.cons_subset_cons _ (List.nil_subset rest)))
      (List.Subset.refl _)
    have others := h.mono (references_subset (List.subset_cons_self _ rest)) (List.Subset.refl _)
    exact ⟨checkKeyword_of_covers first ha inside members options hc.1,
      checkKeywords_of_covers rest v others ha hc.2⟩
termination_by structural keywords => keywords

theorem checkMembers_of_covers : (schemas : List (String × Json)) → ∀ v,
    c.Covers (references (.obj schemas)) (parts v) c' →
    checkMembers c v schemas = [] → checkMembers c' v schemas = []
  | [], _, _, _ => rfl
  | (name, schema) :: rest, v, h, hc => by
    rw [checkMembers, List.append_eq_nil_iff] at hc ⊢
    have others := h.mono (references_subset (List.subset_cons_self _ rest)) (List.Subset.refl _)
    refine ⟨?_, checkMembers_of_covers rest v others hc.2⟩
    have hm := hc.1
    cases hw : v.get? name with
    | none => rfl
    | some w =>
      rw [hw] at hm
      dsimp only at hm ⊢
      rw [List.map_eq_nil_iff] at hm ⊢
      have own := h.mono (references_of_member (m := (name, schema)) List.mem_cons_self)
        (parts_of_get? hw)
      exact check_of_covers schema w own hm
termination_by structural schemas => schemas

theorem someHolds_of_covers : (schemas : List Json) → ∀ v,
    c.Covers (references (.arr schemas)) (parts v) c' →
    someHolds c v schemas = true → someHolds c' v schemas = true
  | [], _, _, hc => by cases hc
  | schema :: rest, v, h, hc => by
    rw [someHolds, Bool.or_eq_true, List.isEmpty_iff] at hc ⊢
    rcases hc with hs | hr
    · have own := h.mono (references_of_item List.mem_cons_self) (List.Subset.refl _)
      exact .inl (check_of_covers schema v own hs)
    · have others := h.mono (references_of_items (List.subset_cons_self _ rest))
        (List.Subset.refl _)
      exact .inr (someHolds_of_covers rest v others hr)
termination_by structural schemas => schemas

end

/-- The checkers find nothing wrong with the same values under the same references. -/
structure Checker.Agrees (refs : List String) (c c' : Checker) : Prop where
  strict : c'.strict = c.strict
  follow : ∀ r ∈ refs, ∀ v, c'.follow r v = [] ↔ c.follow r v = []

lemma Checker.Agrees.mono {refs refs' : List String} (h : c.Agrees refs c') (hr : refs' ⊆ refs) :
    c.Agrees refs' c' :=
  ⟨h.strict, fun r hr' => h.follow r (hr hr')⟩

lemma Checker.Agrees.symm {refs : List String} (h : c.Agrees refs c') : c'.Agrees refs c :=
  ⟨h.strict.symm, fun r hr v => (h.follow r hr v).symm⟩

lemma Checker.Agrees.covers {refs : List String} (h : c.Agrees refs c') (values : List Json) :
    c.Covers refs values c' :=
  ⟨.inr h.strict, fun r hr v _ => (h.follow r hr v).mpr⟩

/-- Checkers that agree on the references of a schema agree on the schema. -/
lemma check_of_agrees {schema : Json} (h : c.Agrees (references schema) c') (v : Json) :
    check c' schema v = [] ↔ check c schema v = [] :=
  ⟨check_of_covers schema v (h.symm.covers _), check_of_covers schema v (h.covers _)⟩

end

/-- The checkers of a document follow its references alike. -/
lemma checker_covers (root : Json) (fuel : Nat) (refs : List String) (values : List Json) :
    (checker true root fuel).Covers refs values (checker false root fuel) := by
  induction fuel generalizing refs values with
  | zero => exact ⟨.inl rfl, fun _ _ _ _ _ => rfl⟩
  | succ fuel ih =>
    refine ⟨.inl rfl, fun reference _ v _ hc => ?_⟩
    rw [checker] at hc ⊢
    dsimp only at hc ⊢
    cases ht : target? root reference with
    | none => rfl
    | some schema =>
      rw [ht] at hc
      exact check_of_covers schema v (ih _ _) hc

/-! ## Valid schemas -/

/-- The keywords whose arguments are objects of schemas. -/
def memberKeywords : List String :=
  ["properties", "patternProperties", "dependentSchemas", "$defs", "definitions"]

/-- The keywords whose arguments are schemas. -/
def schemaKeywords : List String :=
  ["items", "additionalProperties", "contains", "propertyNames", "not", "if", "then", "else",
    "unevaluatedItems", "unevaluatedProperties", "contentSchema"]

/-- The keywords whose arguments are lists of schemas. -/
def listKeywords : List String := ["anyOf", "allOf", "oneOf", "prefixItems"]

section

variable {resolves resolves' : String → Bool} {keyword : String} {arg : Json}

lemma areKeywords_members (h : keyword ∈ memberKeywords) :
    areKeywords resolves [(keyword, arg)] = true ↔
      ∃ schemas, arg = .obj schemas ∧ areMemberSchemas resolves schemas = true := by
  simp only [memberKeywords, List.mem_cons, List.not_mem_nil, or_false] at h
  rcases h with rfl | rfl | rfl | rfl | rfl <;> cases arg <;> simp [areKeywords]

lemma areKeywords_schema (h : keyword ∈ schemaKeywords) :
    areKeywords resolves [(keyword, arg)] = isSchema resolves arg := by
  simp only [schemaKeywords, List.mem_cons, List.not_mem_nil, or_false] at h
  rcases h with rfl | rfl | rfl | rfl | rfl | rfl | rfl | rfl | rfl | rfl | rfl <;>
    exact Bool.and_true _

lemma areKeywords_list (h : keyword ∈ listKeywords) :
    areKeywords resolves [(keyword, arg)] = true ↔
      ∃ schemas, schemas ≠ [] ∧ arg = .arr schemas ∧ areSchemas resolves schemas = true := by
  simp only [listKeywords, List.mem_cons, List.not_mem_nil, or_false] at h
  rcases h with rfl | rfl | rfl | rfl
  all_goals
    rcases arg with _ | _ | _ | _ | (_ | ⟨schema, schemas⟩) | _ <;> simp [areKeywords, areSchemas]

lemma areKeywords_argument (hm : keyword ∉ memberKeywords) (hs : keyword ∉ schemaKeywords)
    (hl : keyword ∉ listKeywords) :
    areKeywords resolves [(keyword, arg)] = isArgument resolves keyword arg := by
  simp only [memberKeywords, schemaKeywords, listKeywords, List.mem_cons, List.not_mem_nil,
    not_or] at hm hs hl
  rw [areKeywords.eq_def]
  simp [hm, hs, hl, areKeywords]

/-- Only references depend on where references lead. -/
lemma isArgument_of_ne (h : keyword ≠ "$ref") :
    isArgument resolves keyword arg = isArgument resolves' keyword arg := by
  rw [isArgument.eq_def, isArgument.eq_def resolves']
  split
  all_goals first
    | rfl
    | exact absurd rfl h

/-- A single keyword stays valid when what it holds does. -/
lemma areKeyword_of_resolves
    (own : ∀ target, (keyword, arg) = ("$ref", .str target) → resolves target = true →
      resolves' target = true)
    (inside : isSchema resolves arg = true → isSchema resolves' arg = true)
    (members : ∀ schemas, arg = .obj schemas →
      areMemberSchemas resolves schemas = true → areMemberSchemas resolves' schemas = true)
    (options : ∀ schemas, arg = .arr schemas →
      areSchemas resolves schemas = true → areSchemas resolves' schemas = true)
    (h : areKeywords resolves [(keyword, arg)] = true) :
    areKeywords resolves' [(keyword, arg)] = true := by
  by_cases hm : keyword ∈ memberKeywords
  · rw [areKeywords_members hm] at h ⊢
    obtain ⟨schemas, ha, hs⟩ := h
    exact ⟨schemas, ha, members schemas ha hs⟩
  by_cases hs : keyword ∈ schemaKeywords
  · rw [areKeywords_schema hs] at h ⊢
    exact inside h
  by_cases hl : keyword ∈ listKeywords
  · rw [areKeywords_list hl] at h ⊢
    obtain ⟨schemas, nonempty, ha, hs⟩ := h
    exact ⟨schemas, nonempty, ha, options schemas ha hs⟩
  rw [areKeywords_argument hm hs hl] at h ⊢
  by_cases hr : keyword = "$ref"
  · subst hr
    cases arg with
    | str target => exact own target rfl h
    | _ => cases h
  · rwa [isArgument_of_ne hr] at h

end

section

variable {resolves resolves' : String → Bool}

mutual

/-- **A valid schema stays valid** where each of its references that led somewhere still does. -/
theorem isSchema_of_resolves : (schema : Json) →
    (∀ r ∈ references schema, resolves r = true → resolves' r = true) →
    isSchema resolves schema = true → isSchema resolves' schema = true
  | .obj keywords, h, hs => areKeywords_of_resolves keywords h hs
  | .bool _, _, _ => rfl
  | .null, _, hs => by cases hs
  | .num _, _, hs => by cases hs
  | .str _, _, hs => by cases hs
  | .arr _, _, hs => by cases hs
termination_by structural schema => schema

theorem areKeywords_of_resolves : (keywords : List (String × Json)) →
    (∀ r ∈ references (.obj keywords), resolves r = true → resolves' r = true) →
    areKeywords resolves keywords = true → areKeywords resolves' keywords = true
  | [], _, _ => rfl
  | (keyword, arg) :: rest, h, hs => by
    rw [areKeywords_cons, Bool.and_eq_true] at hs ⊢
    have own : references arg ⊆ references (.obj ((keyword, arg) :: rest)) :=
      references_of_member (m := (keyword, arg)) List.mem_cons_self
    have inside := isSchema_of_resolves arg fun r hr => h r (own hr)
    have members : ∀ schemas, arg = .obj schemas →
        areMemberSchemas resolves schemas = true → areMemberSchemas resolves' schemas = true := by
      intro schemas ha
      cases arg with
      | obj schemas' =>
        obtain rfl := Json.obj.inj ha
        exact areMemberSchemas_of_resolves schemas' fun r hr => h r (own hr)
      | _ => cases ha
    have options : ∀ schemas, arg = .arr schemas →
        areSchemas resolves schemas = true → areSchemas resolves' schemas = true := by
      intro schemas ha
      cases arg with
      | arr schemas' =>
        obtain rfl := Json.arr.inj ha
        exact areSchemas_of_resolves schemas' fun r hr => h r (own hr)
      | _ => cases ha
    have target : ∀ target, (keyword, arg) = ("$ref", .str target) → resolves target = true →
        resolves' target = true :=
      fun target ht => h target (mem_references (ht ▸ List.mem_cons_self))
    have others := areKeywords_of_resolves rest fun r hr =>
      h r (references_subset (List.subset_cons_self _ rest) hr)
    exact ⟨areKeyword_of_resolves target inside members options hs.1, others hs.2⟩
termination_by structural keywords => keywords

theorem areMemberSchemas_of_resolves : (schemas : List (String × Json)) →
    (∀ r ∈ references (.obj schemas), resolves r = true → resolves' r = true) →
    areMemberSchemas resolves schemas = true → areMemberSchemas resolves' schemas = true
  | [], _, _ => rfl
  | (name, schema) :: rest, h, hs => by
    rw [areMemberSchemas, Bool.and_eq_true] at hs ⊢
    have own := references_of_member (m := (name, schema))
      (List.mem_cons_self (l := rest))
    have first := isSchema_of_resolves schema fun r hr => h r (own hr)
    have others := areMemberSchemas_of_resolves rest fun r hr =>
      h r (references_subset (List.subset_cons_self _ rest) hr)
    exact ⟨first hs.1, others hs.2⟩
termination_by structural schemas => schemas

theorem areSchemas_of_resolves : (schemas : List Json) →
    (∀ r ∈ references (.arr schemas), resolves r = true → resolves' r = true) →
    areSchemas resolves schemas = true → areSchemas resolves' schemas = true
  | [], _, _ => rfl
  | schema :: rest, h, hs => by
    rw [areSchemas, Bool.and_eq_true] at hs ⊢
    have first := isSchema_of_resolves schema fun r hr =>
      h r (references_of_item List.mem_cons_self hr)
    have others := areSchemas_of_resolves rest fun r hr =>
      h r (references_of_items (List.subset_cons_self _ rest) hr)
    exact ⟨first hs.1, others hs.2⟩
termination_by structural schemas => schemas

end

end

lemma conforms_iff {schema v : Json} :
    conforms schema v = true ↔ violationsOf true schema v = [] := List.isEmpty_iff

lemma accepts_iff {schema v : Json} :
    accepts schema v = true ↔ violationsOf false schema v = [] := by
  rw [accepts, violations, List.isEmpty_iff, ← List.length_eq_zero_iff, List.length_mergeSort,
    List.length_map, List.length_eq_zero_iff]

/-- Nothing is reported about a value that conforms. -/
theorem accepts_of_conforms {schema v : Json} (h : conforms schema v = true) :
    accepts schema v = true := by
  rw [conforms_iff, violationsOf] at h
  rw [accepts_iff, violationsOf]
  split
  · rename_i hv
    rw [if_pos hv] at h
    exact check_of_covers schema v (checker_covers schema _ _ _) h
  · rfl

end Colloquy.JsonSchema
