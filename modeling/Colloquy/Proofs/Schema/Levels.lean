import Colloquy.Proofs.Failure
import Colloquy.Proofs.Schema.Dialect
import Colloquy.Proofs.Table

/-!
# The maps in a picoschema and the objects in its schema

A picoschema is compiled map by map: each map becomes the schema of an object, which stands in the
compiled schema where the map stood in the source.  A key changes little on the way: it may put the
schema of its value into an array, describe it or let null pass, and all else stays.  So the objects
in a compiled schema are those of the maps (`part_fromMaps`), and each map is found again
(`exists_part`), but for what stands under a wildcard that a later one overrides.
-/

namespace Colloquy

namespace Schema

/-- A schema stands in another one, or is that one itself. -/
inductive Part (t : Schema) : Schema → Prop
  | self : Part t t
  | item {s items} (hk : s.kind = .array items) (h : Part t items) : Part t s
  | property {s properties additional p} (hk : s.kind = .object properties additional)
      (hp : p ∈ properties) (h : Part t p.schema) : Part t s
  | other {s properties u} (hk : s.kind = .object properties (.typed u)) (h : Part t u) : Part t s

/-- What stands in a schema stands in every schema of the same kind. -/
lemma Part.of_kind {t s s' : Schema} (h : Part t s) (hk : s'.kind = s.kind) :
    t = s ∨ Part t s' := by
  cases h with
  | self => exact .inl rfl
  | item hs h => exact .inr (.item (hk.trans hs) h)
  | property hs hp h => exact .inr (.property (hk.trans hs) hp h)
  | other hs h => exact .inr (.other (hk.trans hs) h)

/-- The schema holds no others, because of its kind. -/
def Leaf (s : Schema) : Prop :=
  (∀ items, s.kind ≠ .array items) ∧ ∀ properties additional, s.kind ≠ .object properties additional

lemma Part.eq_of_leaf {t s : Schema} (h : Part t s) (leaf : s.Leaf) : t = s := by
  cases h with
  | self => rfl
  | item hs _ => exact absurd hs (leaf.1 _)
  | property hs _ _ => exact absurd hs (leaf.2 _ _)
  | other hs _ => exact absurd hs (leaf.2 _ _)

lemma leaf_of_enumeration {s : Schema} {values : List Json} (hk : s.kind = .enumeration values) :
    s.Leaf := by
  refine ⟨fun items hs => ?_, fun properties additional hs => ?_⟩
  · cases hk.symm.trans hs
  · cases hk.symm.trans hs

/-! ## What a key makes of a schema -/

/-- A schema that a key makes of the schema of its value: one of the same kind, a list, or the same
options and null. -/
inductive Dressed (s : Schema) : Schema → Prop
  | same {d} (kind : d.kind = s.kind) (extensions : d.extensions = s.extensions) : Dressed s d
  | list {d} (kind : d.kind = .array s) (extensions : d.extensions = []) : Dressed s d
  | options {d values values'} (hs : s.kind = .enumeration values)
      (kind : d.kind = .enumeration values') (extensions : d.extensions = s.extensions) :
      Dressed s d

namespace Dressed

variable {s d t : Schema}

/-- A change that leaves the kind as it is, or adds options, does not count. -/
lemma trans (h : Dressed s d)
    (h' : t.kind = d.kind ∨ ∃ values values', d.kind = .enumeration values ∧
      t.kind = .enumeration values')
    (he : t.extensions = d.extensions) : Dressed s t := by
  rcases h' with hk | ⟨values, values', hd, hk⟩
  · cases h with
    | same kind extensions => exact .same (hk.trans kind) (he.trans extensions)
    | list kind extensions => exact .list (hk.trans kind) (he.trans extensions)
    | options hs kind extensions => exact .options hs (hk.trans kind) (he.trans extensions)
  · cases h with
    | same kind extensions => exact .options (kind.symm.trans hd) hk (he.trans extensions)
    | list kind _ => cases hd.symm.trans kind
    | options hs _ extensions => exact .options hs hk (he.trans extensions)

lemma describedBy (h : Dressed s d) (description : Option String) :
    Dressed s (d.describedBy description) := by
  cases description <;> exact h.trans (.inl rfl) rfl

lemma acceptNull (h : Dressed s d) : Dressed s d.acceptNull := by
  obtain ⟨kind, description, nullable, extensions⟩ := d
  cases kind with
  | enumeration values =>
    rw [Schema.acceptNull]
    dsimp only
    split
    · exact h
    · exact h.trans (.inr ⟨values, _, rfl, rfl⟩) rfl
  | _ => exact h.trans (.inl rfl) rfl

/-- What stands in the one stands in the other, but for the schema that was made. -/
lemma part_or_eq (hd : Dressed s d) (h : Part t d) : Part t s ∨ t = d := by
  cases hd with
  | same kind _ => exact (h.of_kind kind.symm).symm
  | list kind _ =>
    cases h with
    | self => exact .inr rfl
    | item hs h =>
      obtain rfl := SchemaKind.array.inj (kind.symm.trans hs)
      exact .inl h
    | property hs _ _ => cases kind.symm.trans hs
    | other hs _ => cases kind.symm.trans hs
  | options _ kind _ => exact .inr (h.eq_of_leaf (leaf_of_enumeration kind))

/-- An object that was made was one before. -/
lemma kind_of_object (hd : Dressed s d) {properties : List Property} {additional : Additional}
    (hk : d.kind = .object properties additional) : s.kind = d.kind := by
  cases hd with
  | same kind _ => exact kind.symm
  | list kind _ => cases kind.symm.trans hk
  | options _ kind _ => cases kind.symm.trans hk

/-- Objects that stand in a schema stay, with what the kinds do not model. -/
lemma exists_part (hd : Dressed s d) (h : Part t s) {properties : List Property}
    {additional : Additional} (hk : t.kind = .object properties additional) :
    ∃ t', Part t' d ∧ t'.kind = t.kind ∧ t'.extensions = t.extensions := by
  cases hd with
  | same kind extensions =>
    rcases h.of_kind kind with rfl | h
    · exact ⟨d, .self, kind, extensions⟩
    · exact ⟨t, h, rfl, rfl⟩
  | list kind _ => exact ⟨t, .item kind h, rfl, rfl⟩
  | options hs _ _ =>
    obtain rfl := h.eq_of_leaf (leaf_of_enumeration hs)
    cases hs.symm.trans hk

end Dressed

/-- The schema that an entry adds to a map. -/
def Entry.schema : Entry → Schema
  | property p => p.schema
  | others s => s

lemma wrapIn_dressed {container : Option Container} {path : String} {s d : Schema}
    (h : wrapIn container path s = .ok d) : Dressed s d := by
  rw [wrapIn.eq_def] at h
  split at h
  · obtain rfl := Except.ok.inj h
    exact .list rfl rfl
  · split at h
    · obtain rfl := Except.ok.inj h
      exact .same rfl rfl
    · cases h
  · obtain rfl := Except.ok.inj h
    exact .same rfl rfl

/-- The entry of a key that names a property. -/
lemma entry_property {name : String} {optional : Bool} {container : Option Container}
    {description : Option String} {path : String} {s : Schema} {e : Entry}
    (h : (Key.property name optional container description).entry path s = .ok e) :
    ∃ d, wrapIn container path s = .ok d ∧
      e = .property ⟨name, if optional then (d.describedBy description).acceptNull
        else d.describedBy description, optional⟩ := by
  obtain ⟨d, hw, h⟩ := exists_of_bind_eq_ok h
  exact ⟨d, hw, (Except.ok.inj h).symm⟩

lemma entry_dressed {k : Key} {path : String} {s : Schema} {e : Entry}
    (h : k.entry path s = .ok e) : Dressed s e.schema := by
  cases k with
  | wildcard description =>
    obtain rfl := Except.ok.inj h
    exact (Dressed.same rfl rfl).describedBy description
  | property name optional container description =>
    obtain ⟨d, hw, rfl⟩ := entry_property h
    have described := (wrapIn_dressed hw).describedBy description
    cases optional with
    | false => exact described
    | true => exact described.acceptNull

/-! ## Members of a map -/

section

variable {resolve : Resolver} {path key : String} {p : Json} {rest members : List (String × Json)}
  {c : Compiled}

/-- A member that is compiled has a key that can be read and a value that is compiled. -/
lemma exists_of_compileMembers_cons (h : compileMembers resolve path ((key, p) :: rest) = .ok c) :
    ∃ k s e before, Key.read path key = .ok k ∧
      compileAt resolve (path ++ "." ++ key) p = .ok s ∧
      k.entry (path ++ "." ++ key) s = .ok e ∧ compileMembers resolve path rest = .ok before ∧
      c = before.push e := by
  rw [compileMembers] at h
  obtain ⟨k, hk, h⟩ := exists_of_bind_eq_ok h
  obtain ⟨s, hs, h⟩ := exists_of_bind_eq_ok h
  obtain ⟨e, he, h⟩ := exists_of_bind_eq_ok h
  obtain ⟨before, hb, h⟩ := exists_of_bind_eq_ok h
  exact ⟨k, s, e, before, hk, hs, he, hb, (Except.ok.inj h).symm⟩

lemma exists_of_compileAt_obj {s : Schema} (h : compileAt resolve path (.obj members) = .ok s) :
    ∃ c, compileMembers resolve path members = .ok c ∧ c.schema = s := by
  rw [compileAt] at h
  exact exists_of_map_eq_ok h

end

/-! ## What stands in a map that was compiled -/

namespace Compiled

/-- A schema stands in a property of a map that was compiled, or in the schema for other members. -/
def Holds (c : Compiled) (t : Schema) : Prop :=
  (∃ q ∈ c.properties, Part t q.schema) ∨ ∃ u, c.others = some u ∧ Part t u

variable {c : Compiled} {t : Schema}

lemma part_schema_iff : Part t c.schema ↔ t = c.schema ∨ c.Holds t := by
  obtain ⟨properties, others⟩ := c
  constructor
  · intro h
    cases h with
    | self => exact .inl rfl
    | item hk _ => cases hk
    | property hk hq h =>
      obtain ⟨rfl, _⟩ := SchemaKind.object.inj hk
      exact .inr (.inl ⟨_, hq, h⟩)
    | other hk h =>
      obtain ⟨_, ha⟩ := SchemaKind.object.inj hk
      cases others with
      | none => cases ha
      | some u =>
        obtain rfl := Additional.typed.inj ha
        exact .inr (.inr ⟨u, rfl, h⟩)
  · rintro (rfl | ⟨q, hq, h⟩ | ⟨u, hu, h⟩)
    · exact .self
    · exact .property rfl hq h
    · obtain rfl : others = some u := hu
      exact .other rfl h

/-- An entry adds its schema, unless it is for other members and a later one is as well. -/
lemma holds_push_iff {e : Entry} : (c.push e).Holds t ↔
    (Part t e.schema ∧ ((∃ u, e = .others u) → c.others = none)) ∨ c.Holds t := by
  obtain ⟨properties, others⟩ := c
  cases e with
  | property q =>
    have free : (∃ u, Entry.property q = .others u) → others = none := by
      rintro ⟨u, he⟩
      cases he
    simp only [Holds, push, List.mem_cons, or_and_right, exists_or, exists_eq_left, Entry.schema,
      and_iff_left free, or_assoc]
  | others u =>
    cases others with
    | none => simp [Holds, push, Entry.schema, or_comm]
    | some later => simp [Holds, push]

end Compiled

/-! ## What the keys of a map say -/

section

open Pico

variable {resolve : Resolver} {path key : String} {k : Key} {s : Schema} {e : Entry}

/-- What a key adds is of the name that it spells, or for other members. -/
lemma entry_spells (hk : Key.read path key = .ok k) {keyPath : String}
    (he : k.entry keyPath s = .ok e) :
    (∃ u, e = .others u ∧ ∀ m, Spells key m ↔ m = .wildcard) ∨
      ∃ q list, e = .property q ∧ ∀ m, Spells key m ↔ m = .property q.name q.optional list := by
  cases k with
  | wildcard description =>
    obtain rfl := Except.ok.inj he
    exact .inl ⟨_, rfl, fun m => spells_iff hk⟩
  | property name optional container description =>
    obtain ⟨d, _, rfl⟩ := entry_property he
    exact .inr ⟨_, container == some .array, rfl, fun m => spells_iff hk⟩

/-- The entries of keys for other members, and no others, are for other members. -/
lemma entry_others_iff (hk : Key.read path key = .ok k) {keyPath : String}
    (he : k.entry keyPath s = .ok e) : (∃ u, e = .others u) ↔ Spells key .wildcard := by
  rcases entry_spells hk he with ⟨u, rfl, spells⟩ | ⟨q, list, rfl, spells⟩
  · exact iff_of_true ⟨u, rfl⟩ ((spells _).mpr rfl)
  · rw [spells]
    refine iff_of_false ?_ Meaning.noConfusion
    rintro ⟨u, hu⟩
    cases hu

variable {members : List (String × Json)} {c : Compiled}

/-- There is a schema for other members if a key says what they are. -/
lemma others_isSome_iff (h : compileMembers resolve path members = .ok c) :
    c.others.isSome = true ↔ Open members := by
  induction members generalizing c with
  | nil =>
    obtain rfl := Except.ok.inj h
    simp [Open]
  | cons m rest ih =>
    obtain ⟨key, p⟩ := m
    obtain ⟨k, s, e, before, hk, _, he, hb, rfl⟩ := exists_of_compileMembers_cons h
    rw [open_cons, ← ih hb, ← entry_others_iff hk he]
    cases e with
    | property q => simp [Compiled.push]
    | others u => simp [Compiled.push]

/-- The properties are those that keys name. -/
lemma mem_names_iff (h : compileMembers resolve path members = .ok c) (name : String) :
    name ∈ c.properties.map Property.name ↔ Named members name := by
  induction members generalizing c with
  | nil =>
    obtain rfl := Except.ok.inj h
    simp [Named]
  | cons m rest ih =>
    obtain ⟨key, p⟩ := m
    obtain ⟨k, s, e, before, hk, _, he, hb, rfl⟩ := exists_of_compileMembers_cons h
    rw [named_cons, ← ih hb]
    rcases entry_spells hk he with ⟨u, rfl, spells⟩ | ⟨q, list, rfl, spells⟩
    · have none : ¬∃ optional list, Spells key (.property name optional list) := by
        rintro ⟨optional, list, hs⟩
        cases (spells _).mp hs
      exact (or_iff_right none).symm
    · have own : (∃ optional list, Spells key (.property name optional list)) ↔ name = q.name := by
        simp [spells]
      rw [own]
      exact List.mem_cons

/-- A name is required exactly if some key demands it. -/
lemma mem_requiredOf_iff (h : compileMembers resolve path members = .ok c) (name : String) :
    name ∈ requiredOf c.properties ↔ Required members name := by
  induction members generalizing c with
  | nil =>
    obtain rfl := Except.ok.inj h
    simp [requiredOf, Required]
  | cons m rest ih =>
    obtain ⟨key, p⟩ := m
    obtain ⟨k, s, e, before, hk, _, he, hb, rfl⟩ := exists_of_compileMembers_cons h
    rw [required_cons, ← ih hb]
    rcases entry_spells hk he with ⟨u, rfl, spells⟩ | ⟨q, list, rfl, spells⟩
    · have none : ¬∃ list, Spells key (.property name false list) := by
        rintro ⟨list, hs⟩
        cases (spells _).mp hs
      exact (or_iff_right none).symm
    · obtain ⟨own, schema, optional⟩ := q
      cases optional <;> simp [Compiled.push, requiredOf, spells]

/-- Each key that names a property adds it, with the schema that is made of its value. -/
lemma exists_property (h : compileMembers resolve path members = .ok c) {value : Json}
    {name : String} {optional list : Bool} (hm : (key, value) ∈ members)
    (hs : Spells key (.property name optional list)) :
    ∃ valuePath container description s d, (container == some .array) = list ∧
      compileAt resolve valuePath value = .ok s ∧ wrapIn container valuePath s = .ok d ∧
      ⟨name, if optional then (d.describedBy description).acceptNull
        else d.describedBy description, optional⟩ ∈ c.properties := by
  induction members generalizing c with
  | nil => cases hm
  | cons m rest ih =>
    obtain ⟨first, p⟩ := m
    obtain ⟨k, s, e, before, hk, hc, he, hb, rfl⟩ := exists_of_compileMembers_cons h
    rcases List.mem_cons.mp hm with hm | hm
    · obtain ⟨rfl, rfl⟩ := Prod.mk.inj hm
      rw [spells_iff hk] at hs
      cases k with
      | wildcard description => cases hs
      | property own optional' container description =>
        obtain ⟨rfl, rfl, hl⟩ := Meaning.property.inj hs
        obtain ⟨d, hw, rfl⟩ := entry_property he
        exact ⟨_, container, description, s, d, hl.symm, hc, hw, List.mem_cons_self⟩
    · obtain ⟨valuePath, container, description, s', d, hl, hc, hw, hq⟩ := ih hb hm
      refine ⟨valuePath, container, description, s', d, hl, hc, hw, ?_⟩
      cases e with
      | property q => exact List.mem_cons_of_mem _ hq
      | others u => exact hq

end

end Schema

/-! ## Maps in a picoschema -/

namespace Pico

mutual

/-- The members of a map in the picoschema.  Where the maps have to stand in what is compiled, those
under a wildcard that a later one overrides do not count. -/
def Level (standing : Bool) : Json → List (String × Json) → Prop
  | .obj members, level => members = level ∨ LevelOfMembers standing members level
  | _, _ => False
termination_by structural p => p

def LevelOfMembers (standing : Bool) : List (String × Json) → List (String × Json) → Prop
  | [], _ => False
  | (key, p) :: rest, level =>
    (Level standing p level ∧ (standing = true → Spells key .wildcard → ¬Open rest)) ∨
      LevelOfMembers standing rest level
termination_by structural members => members

end

end Pico

namespace Schema

open Pico

section

variable {resolve : Resolver} {path : String} {standing : Bool} {level : List (String × Json)}

/-- A schema is that of a map, at the place of the map: it may be described and let null pass, and is
the object that the map is compiled to. -/
def IsLevel (resolve : Resolver) (level : List (String × Json)) (t : Schema) : Prop :=
  t.extensions = [] ∧
    ∃ path c, compileMembers resolve path level = .ok c ∧ t.kind = c.schema.kind

mutual

/-- **Each map of a picoschema is found again** in what is compiled, if it has to stand there. -/
theorem exists_part {path : String} : (p : Json) → {s : Schema} →
    compileAt resolve path p = .ok s → Level standing p level →
    ∃ t, IsLevel resolve level t ∧ (standing = true → Part t s)
  | .obj members, s, h, hl => by
    obtain ⟨c, hc, rfl⟩ := exists_of_compileAt_obj h
    rcases hl with rfl | hl
    · exact ⟨c.schema, ⟨rfl, path, c, hc, rfl⟩, fun _ => .self⟩
    · obtain ⟨t, ht, holds⟩ := exists_holds members hc hl
      exact ⟨t, ht, fun hs => Compiled.part_schema_iff.mpr (.inr (holds hs))⟩
  | .null, _, _, hl => hl.elim
  | .bool _, _, _, hl => hl.elim
  | .num _, _, _, hl => hl.elim
  | .str _, _, _, hl => hl.elim
  | .arr _, _, _, hl => hl.elim
termination_by structural p => p

theorem exists_holds {path : String} : (members : List (String × Json)) → {c : Compiled} →
    compileMembers resolve path members = .ok c → LevelOfMembers standing members level →
    ∃ t, IsLevel resolve level t ∧ (standing = true → c.Holds t)
  | [], _, _, hl => hl.elim
  | (key, p) :: rest, c, h, hl => by
    obtain ⟨k, s, e, before, hk, hs, he, hb, rfl⟩ := exists_of_compileMembers_cons h
    rcases hl with ⟨hl, last⟩ | hl
    · obtain ⟨t, ⟨ht, path', c', hc', hkind⟩, part⟩ := exists_part p hs hl
      by_cases hst : standing = true
      · obtain ⟨t', part', hkind', he'⟩ := (entry_dressed he).exists_part (part hst) hkind
        refine ⟨t', ⟨he'.trans ht, path', c', hc', hkind'.trans hkind⟩, fun _ => ?_⟩
        refine Compiled.holds_push_iff.mpr (.inl ⟨part', fun others => ?_⟩)
        rw [← Option.not_isSome_iff_eq_none, others_isSome_iff hb]
        exact last hst ((entry_others_iff hk he).mp others)
      · exact ⟨t, ⟨ht, path', c', hc', hkind⟩, fun hs => absurd hs hst⟩
    · obtain ⟨t, ht, holds⟩ := exists_holds rest hb hl
      exact ⟨t, ht, fun hs => Compiled.holds_push_iff.mpr (.inr (holds hs))⟩
termination_by structural members => members

end

/-- A schema that says nothing beside its kind, and is that of a map if it is an object. -/
def FromMaps (P : List (String × Json) → Prop) (t : Schema) : Prop :=
  t.extensions = [] ∧ ∀ properties additional, t.kind = .object properties additional →
    ∃ level, P level ∧ IsLevel noNames level t

lemma FromMaps.mono {P Q : List (String × Json) → Prop} {t : Schema} (h : FromMaps P t)
    (hpq : ∀ level, P level → Q level) : FromMaps Q t := by
  refine ⟨h.1, fun properties additional hk => ?_⟩
  obtain ⟨level, hp, ht⟩ := h.2 properties additional hk
  exact ⟨level, hpq level hp, ht⟩

/-- What a key makes of a schema of maps is one. -/
lemma Dressed.fromMaps {P : List (String × Json) → Prop} {s d : Schema} (hd : Dressed s d)
    (hs : FromMaps P s) : FromMaps P d := by
  have extensions : d.extensions = [] := by
    cases hd with
    | same _ extensions => exact extensions.trans hs.1
    | list _ extensions => exact extensions
    | options _ _ extensions => exact extensions.trans hs.1
  refine ⟨extensions, fun properties additional hk => ?_⟩
  have same := hd.kind_of_object hk
  obtain ⟨level, hp, _, path, c, hc, hkind⟩ := hs.2 properties additional (same.trans hk)
  exact ⟨level, hp, extensions, path, c, hc, same.symm.trans hkind⟩

/-- A schema that holds no others is of any maps. -/
lemma Leaf.fromMaps {P : List (String × Json) → Prop} {t s : Schema} (leaf : s.Leaf)
    (h : Part t s) (extensions : s.extensions = []) : FromMaps P t := by
  obtain rfl := h.eq_of_leaf leaf
  exact ⟨extensions, fun properties additional hk => absurd hk (leaf.2 _ _)⟩

lemma leaf_of_lookup {name : String} {kind : SchemaKind} {description : Option String}
    (h : scalars.lookup name = some kind) : Leaf { ofKind kind with description } := by
  have listed : (name, kind) ∈ scalars := Table.mem_of_get? h
  simp only [scalars, List.mem_cons, List.not_mem_nil, or_false, Prod.mk.injEq] at listed
  rcases listed with ⟨_, rfl⟩ | ⟨_, rfl⟩ | ⟨_, rfl⟩ | ⟨_, rfl⟩ | ⟨_, rfl⟩ | ⟨_, rfl⟩ <;>
    exact ⟨fun _ => SchemaKind.noConfusion, fun _ _ => SchemaKind.noConfusion⟩

mutual

/-- **The objects in a compiled picoschema are those of its maps**, where no name stands for a
schema, and nothing is said beside the kinds. -/
theorem part_fromMaps {path : String} {t : Schema} : (p : Json) → {s : Schema} →
    compileAt noNames path p = .ok s → Part t s → FromMaps (Level true p) t
  | .str source, s, h, part => by
    rw [compileAt, ofScalar.eq_def] at h
    dsimp only at h
    split at h
    · rename_i kind hk
      obtain rfl := Except.ok.inj h
      exact (leaf_of_lookup hk).fromMaps part rfl
    · cases h
  | .arr values, s, h, part => by
    obtain rfl := Except.ok.inj h
    exact (leaf_of_enumeration rfl).fromMaps part rfl
  | .obj members, s, h, part => by
    obtain ⟨c, hc, rfl⟩ := exists_of_compileAt_obj h
    rcases Compiled.part_schema_iff.mp part with rfl | holds
    · exact ⟨rfl, fun _ _ _ => ⟨members, .inl rfl, rfl, path, c, hc, rfl⟩⟩
    · exact (holds_fromMaps members hc holds).mono fun level hl => .inr hl
  | .null, _, h, _ => by cases h
  | .bool _, _, h, _ => by cases h
  | .num _, _, h, _ => by cases h
termination_by structural p => p

theorem holds_fromMaps {path : String} {t : Schema} : (members : List (String × Json)) →
    {c : Compiled} → compileMembers noNames path members = .ok c → c.Holds t →
    FromMaps (LevelOfMembers true members) t
  | [], c, h, holds => by
    obtain rfl := Except.ok.inj h
    rcases holds with ⟨q, hq, _⟩ | ⟨u, hu, _⟩
    · cases hq
    · cases hu
  | (key, p) :: rest, c, h, holds => by
    obtain ⟨k, s, e, before, hk, hs, he, hb, rfl⟩ := exists_of_compileMembers_cons h
    rcases Compiled.holds_push_iff.mp holds with ⟨part, last⟩ | holds
    · have stands : Spells key .wildcard → ¬Open rest := fun star opened => by
        have none := last ((entry_others_iff hk he).mpr star)
        rw [← others_isSome_iff hb, none] at opened
        cases opened
      have value : FromMaps (Level true p) t := by
        rcases (entry_dressed he).part_or_eq part with part | rfl
        · exact part_fromMaps p hs part
        · exact (entry_dressed he).fromMaps (part_fromMaps p hs .self)
      exact value.mono fun level hl => .inl ⟨hl, fun _ => stands⟩
    · exact (holds_fromMaps rest hb holds).mono fun level hl => .inr hl
termination_by structural members => members

end

end

end Schema

end Colloquy
