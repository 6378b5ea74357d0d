import Colloquy.Proofs.Schema.Levels
import Colloquy.Registry
import Mathlib.Data.List.TakeWhile

/-!
# Names stand for their sources

A text in a picoschema may name a schema that was registered before.  The *glossary* of some
registrations has the source of every name, with the names in it replaced by what they stood for
when it was registered.  Compiling with the registered schemas is compiling without any, once the
names are replaced by what the glossary has for them (`Explains.compileAt_expand`).

What is compiled does not depend on the place where it stands (`compileAt_at`), so a source that was
compiled by itself may be put in the place of its name.  A value that looks like JSON Schema is not
looked through for names, and there is one way for it to look like that only while it holds a name:
the keyword `type` may name a registered schema `object` or `array`.
-/

namespace Colloquy

namespace Pico

/-! ## Texts and the names in them -/

/-- The words that name a type by themselves. -/
def builtin : List String := ["string", "boolean", "null", "number", "integer", "any"]

/-- The word in front of the first comma. -/
def wordOf (s : String) : String := String.ofList (Text.trim (s.toList.takeWhile (· != ',')))

/-- What is said behind the first comma. -/
def remarkOf (s : String) : List Char := Text.trim ((s.toList.dropWhile (· != ',')).drop 1)

mutual

/-- The texts that stand for schemas in a picoschema; what enumerations list is not among them. -/
def texts : Json → List String
  | .str s => [s]
  | .obj members => textsOfMembers members
  | _ => []
termination_by structural p => p

def textsOfMembers : List (String × Json) → List String
  | [] => []
  | (_, p) :: rest => texts p ++ textsOfMembers rest
termination_by structural members => members

end

/-- No text that refers to a schema by its name has a description. -/
def Unremarked (p : Json) : Prop := ∀ s ∈ texts p, wordOf s ∉ builtin → remarkOf s = []

instance (p : Json) : Decidable (Unremarked p) :=
  inferInstanceAs (Decidable (∀ s ∈ texts p, wordOf s ∉ builtin → remarkOf s = []))

mutual

/-- The picoschema with what is known in the place of every name. -/
def expand (known : String → Option Json) : Json → Json
  | .str s => if wordOf s ∈ builtin then .str s else (known (wordOf s)).getD (.str s)
  | .obj members => .obj (expandMembers known members)
  | p => p
termination_by structural p => p

def expandMembers (known : String → Option Json) : List (String × Json) → List (String × Json)
  | [] => []
  | (key, p) :: rest => (key, expand known p) :: expandMembers known rest
termination_by structural members => members

end

/-- Makes a name stand for its source, in which the names are replaced by what they stand for. -/
def learn (known : Table Json) (entry : String × Json) : Table Json :=
  known.set entry.1 (expand known.get? entry.2)

/-- What names stand for after some registrations. -/
def glossary (entries : List (String × Json)) : Table Json := entries.foldl learn []

lemma unremarked_cons {key : String} {p : Json} {rest : List (String × Json)}
    (h : Unremarked (.obj ((key, p) :: rest))) : Unremarked p ∧ Unremarked (.obj rest) :=
  List.forall_mem_append.mp h

lemma expandMembers_eq (known : String → Option Json) (members : List (String × Json)) :
    expandMembers known members = members.map fun m => (m.1, expand known m.2) := by
  induction members with
  | nil => rfl
  | cons m rest ih => rw [expandMembers, ih, List.map_cons]

lemma get?_expandMembers (known : String → Option Json) (members : List (String × Json))
    (key : String) :
    Table.get? (expandMembers known members) key =
      (Table.get? members key).map (expand known) := by
  rw [expandMembers_eq, Table.get?_map]

end Pico

namespace Schema

open Pico

/-! ## What a text is compiled to -/

lemma splitDescription_eq (s : String) : splitDescription s.toList =
    (wordOf s, if (remarkOf s).isEmpty then none else some (String.ofList (remarkOf s))) := by
  have kept {before : List Char} (h : ',' ∉ before) : ∀ c ∈ before, (c != ',') = true := by
    intro c hc
    rw [bne_iff_ne]
    rintro rfl
    exact h hc
  rw [splitDescription, wordOf, remarkOf]
  cases hc : Text.cutAt? (· == ',') s.toList with
  | none =>
    have no := kept (Text.cutAt?_eq_none_iff.mp hc)
    rw [List.takeWhile_eq_self_iff.mpr no, List.dropWhile_eq_nil_iff.mpr no]
    rfl
  | some cut =>
    obtain ⟨before, after⟩ := cut
    obtain ⟨hs, hb⟩ := Text.cutAt?_eq_some_iff.mp hc
    rw [hs, List.takeWhile_append_of_pos (kept hb), List.dropWhile_append_of_pos (kept hb)]
    simp

lemma lookup_scalars_eq_none_iff {word : String} : scalars.lookup word = none ↔ word ∉ builtin := by
  simp [List.lookup_eq_none_iff, scalars, builtin]

section

variable {resolve : Resolver} {path : String} {s : String}

/-- The words for types mean the same everywhere. -/
lemma ofScalar_of_builtin (h : wordOf s ∈ builtin) (resolve' : Resolver) (path' : String) :
    ofScalar resolve path s = ofScalar resolve' path' s := by
  have listed : scalars.lookup (wordOf s) ≠ none := fun hn => lookup_scalars_eq_none_iff.mp hn h
  obtain ⟨kind, hk⟩ := Option.ne_none_iff_exists'.mp listed
  simp only [ofScalar, splitDescription_eq, hk]

/-- A name without a description is what it is known as. -/
lemma ofScalar_of_name (h : wordOf s ∉ builtin) (remark : remarkOf s = []) :
    ofScalar resolve path s =
      (resolve (wordOf s)).elim (.error (.unsupportedType path (wordOf s))) .ok := by
  have split : splitDescription s.toList = (wordOf s, none) := by
    rw [splitDescription_eq, remark]
    rfl
  rw [ofScalar, split]
  dsimp only
  rw [lookup_scalars_eq_none_iff.mpr h]
  cases resolve (wordOf s) with
  | none => rfl
  | some _ => rfl

/-! ## Places do not matter -/

lemma ofScalar_at {t : Schema} (h : ofScalar resolve path s = .ok t) (path' : String) :
    ofScalar resolve path' s = .ok t := by
  rw [ofScalar] at h ⊢
  dsimp only at h ⊢
  split at h
  · exact h
  · split at h
    · exact h
    · cases h

lemma read_at {key : String} {k : Key} (h : Key.read path key = .ok k) (path' : String) :
    Key.read path' key = .ok k := by
  revert h
  rw [Key.read, Key.read]
  dsimp only
  have thrown {e : SchemaError} {p : Prop} : (.error e : Except SchemaError Key) = .ok k → p := by
    intro h
    cases h
  -- The place shows in what is thrown only.
  split
  · split
    · exact thrown
    · exact id
  · split
    · exact thrown
    · split
      · split
        · exact thrown
        · exact id
      · split
        · exact thrown
        · split
          · exact thrown
          · exact id

lemma wrapIn_at {container : Option Container} {t d : Schema} (h : wrapIn container path t = .ok d)
    (path' : String) : wrapIn container path' t = .ok d := by
  cases container with
  | none => exact h
  | some c =>
    cases c with
    | array => exact h
    | object => exact h
    | enumeration =>
      rw [wrapIn] at h ⊢
      split at h
      · rename_i options
        rw [if_pos options]
        exact h
      · cases h

lemma entry_at {k : Key} {t : Schema} {e : Entry} (h : k.entry path t = .ok e) (path' : String) :
    k.entry path' t = .ok e := by
  cases k with
  | wildcard description => exact h
  | property name optional container description =>
    obtain ⟨d, hw, rfl⟩ := entry_property h
    exact bind_eq_ok (wrapIn_at hw path') rfl

end

mutual

/-- A value that can be compiled is compiled to the same at every place. -/
lemma compileAt_at {resolve : Resolver} {path : String} : (p : Json) → {s : Schema} →
    compileAt resolve path p = .ok s → (path' : String) → compileAt resolve path' p = .ok s
  | .str _, _, h, path' => ofScalar_at h path'
  | .arr _, _, h, _ => h
  | .obj members, _, h, path' => by
    obtain ⟨c, hc, rfl⟩ := exists_of_compileAt_obj h
    rw [compileAt, compileMembers_at members hc path']
    rfl
termination_by structural p => p

lemma compileMembers_at {resolve : Resolver} {path : String} : (members : List (String × Json)) →
    {c : Compiled} → compileMembers resolve path members = .ok c → (path' : String) →
    compileMembers resolve path' members = .ok c
  | [], _, h, _ => h
  | (key, p) :: rest, _, h, path' => by
    obtain ⟨k, s, e, before, hk, hs, he, hb, rfl⟩ := exists_of_compileMembers_cons h
    refine bind_eq_ok (read_at hk path') ?_
    refine bind_eq_ok (compileAt_at p hs _) ?_
    refine bind_eq_ok (entry_at he _) ?_
    exact bind_eq_ok (compileMembers_at rest hb path') rfl
termination_by structural members => members

end

/-! ## Names and what they stand for -/

/-- The same names are known, and each is known as the schema of what it stands for. -/
def Explains (resolve : Resolver) (known : String → Option Json) : Prop :=
  ∀ name, Option.Rel (fun s p => ∀ path, compileAt noNames path p = .ok s)
    (resolve name) (known name)

namespace Explains

variable {resolve : Resolver} {known : String → Option Json}

lemma eq_none (h : Explains resolve known) {name : String} (unknown : resolve name = none) :
    known name = none := by
  have both := h name
  rw [unknown] at both
  generalize known name = k at both ⊢
  cases both
  rfl

lemma compileAt_expand_str (h : Explains resolve known) {s : String}
    (unremarked : Unremarked (.str s)) (path : String) :
    compileAt noNames path (expand known (.str s)) = compileAt resolve path (.str s) := by
  have remark : wordOf s ∉ builtin → remarkOf s = [] := unremarked s (List.mem_singleton_self s)
  rw [expand]
  by_cases hw : wordOf s ∈ builtin
  · rw [if_pos hw, compileAt, compileAt, ofScalar_of_builtin hw]
  · rw [if_neg hw, compileAt, ofScalar_of_name hw (remark hw)]
    -- Either both sides know the name or neither does, and then both fail alike.
    have named := h (wordOf s)
    generalize resolve (wordOf s) = o, known (wordOf s) = k at named
    cases named with
    | none =>
      rw [Option.getD_none, compileAt, ofScalar_of_name hw (remark hw)]
      rfl
    | some compiled => exact compiled path

mutual

/-- **What names stand for may be put in their place**, and what is compiled stays the same. -/
lemma compileAt_expand (h : Explains resolve known) : (p : Json) → Unremarked p → (path : String) →
    compileAt noNames path (expand known p) = compileAt resolve path p
  | .str _, unremarked, path => h.compileAt_expand_str unremarked path
  | .obj members, unremarked, path => by
    rw [expand, compileAt, compileAt, compileMembers_expand h members unremarked path]
  | .arr _, _, _ => rfl
  | .null, _, _ => rfl
  | .bool _, _, _ => rfl
  | .num _, _, _ => rfl
termination_by structural p => p

lemma compileMembers_expand (h : Explains resolve known) : (members : List (String × Json)) →
    Unremarked (.obj members) → (path : String) →
    compileMembers noNames path (expandMembers known members) = compileMembers resolve path members
  | [], _, _ => rfl
  | (key, p) :: rest, unremarked, path => by
    obtain ⟨own, others⟩ := unremarked_cons unremarked
    simp only [expandMembers, compileMembers, compileAt_expand h p own,
      compileMembers_expand h rest others]
termination_by structural members => members

end

/-- A registered name stands for its source, with the names in it replaced. -/
lemma set {schemas : Table Schema} {glossary : Table Json}
    (h : Explains schemas.get? glossary.get?) {source : Json} (unremarked : Unremarked source)
    (standard : isStandard source = false) {s : Schema}
    (compiled : compile schemas.get? source = .ok s) (name : String) :
    Explains (schemas.set name s).get? (glossary.set name (expand glossary.get? source)).get? := by
  intro other
  by_cases same : other = name
  · subst same
    rw [Table.get?_set_self, Table.get?_set_self]
    rw [compile, standard, if_neg Bool.false_ne_true] at compiled
    refine .some fun path => ?_
    rw [h.compileAt_expand source unremarked path]
    exact compileAt_at source compiled path
  · rw [Table.get?_set_of_ne _ _ same, Table.get?_set_of_ne _ _ same]
    exact h other

end Explains

/-! ## Looking like JSON Schema -/

/-- The types of JSON Schema are words for types here as well, but for two. -/
lemma standardTypes_words :
    ∀ t ∈ standardTypes, wordOf t = t ∧ (t ∈ builtin ∨ t ∈ ["object", "array"]) := by
  decide +kernel

lemma known_of_expand_ne {known : String → Option Json} {t : String} (listed : t ∈ standardTypes)
    (replaced : expand known (.str t) ≠ .str t) : t ∈ ["object", "array"] ∧ known t ≠ none := by
  obtain ⟨word, listed | listed⟩ := standardTypes_words t listed
  · rw [expand, word] at replaced
    exact absurd (if_pos listed) replaced
  · refine ⟨listed, fun unknown => replaced ?_⟩
    rw [expand, word, unknown]
    exact ite_self _

lemma isObject_expand {v : Json} (h : v.isObject = true) (known : String → Option Json) :
    (expand known v).isObject = true := by
  cases v with
  | obj _ => rfl
  | _ => cases h

/-- A value that looks like JSON Schema only while it holds names has one of two as its type. -/
lemma exists_name_of_isStandard {known : String → Option Json} {p : Json}
    (standard : isStandard p = true) (expanded : isStandard (expand known p) = false) :
    ∃ name ∈ ["object", "array"], p.get? "type" = some (.str name) ∧ known name ≠ none := by
  cases p with
  | obj fields =>
    simp only [expand, isStandard, get?_expandMembers, Bool.or_eq_false_iff] at expanded
    obtain ⟨type, properties⟩ := expanded
    have none : (Table.get? fields "properties").any Json.isObject = false := by
      rw [← Bool.not_eq_true, Option.any_eq_true]
      rintro ⟨v, hv, object⟩
      rw [hv] at properties
      exact absurd (isObject_expand object known) (ne_true_of_eq_false properties)
    simp only [isStandard, none, Bool.or_false] at standard
    cases ht : Table.get? fields "type" with
    | none =>
      rw [ht] at standard
      cases standard
    | some v =>
      rw [ht] at standard type
      cases v with
      | str t =>
        -- If the text stayed, it would still be the name of a type.
        have replaced : expand known (.str t) ≠ .str t := by
          intro he
          rw [Option.map_some, he] at type
          exact absurd standard (ne_true_of_eq_false type)
        obtain ⟨listed, named⟩ := known_of_expand_ne (List.contains_iff_mem.mp standard) replaced
        exact ⟨t, listed, ht, named⟩
      | arr _ => exact absurd standard (ne_true_of_eq_false type)
      | _ => cases standard
  | _ => cases standard

end Schema

/-! ## Registering schemas -/

namespace Registry

open Pico Schema

variable {ω : Type}

/-- Registers schemas in order, and tells which of them were registered.  Those that cannot be
compiled are not. -/
def addSchemas (r : Registry ω) : List (String × Json) → Registry ω × List (String × Json)
  | [] => (r, [])
  | (name, source) :: rest =>
    match r.addSchema name source with
    | .ok r => ((addSchemas r rest).1, (name, source) :: (addSchemas r rest).2)
    | .error _ => addSchemas r rest

lemma addSchema_eq_ok {r r' : Registry ω} {name : String} {source : Json}
    (h : r.addSchema name source = .ok r') :
    ∃ s, compile r.schemas.get? source = .ok s ∧ r'.schemas = r.schemas.set name s := by
  obtain ⟨s, hs, h⟩ := exists_of_bind_eq_ok h
  obtain rfl := Except.ok.inj h
  exact ⟨s, eq_ok_of_mapError_eq_ok hs, rfl⟩

/-- After some registrations, all that is registered is explained. -/
lemma explains_addSchemas {entries : List (String × Json)}
    (sources : ∀ m ∈ entries, Unremarked m.2 ∧ isStandard m.2 = false) {r : Registry ω}
    {known : Table Json} (h : Explains r.schemas.get? known.get?) :
    Explains (r.addSchemas entries).1.schemas.get?
      ((r.addSchemas entries).2.foldl learn known).get? := by
  induction entries generalizing r known with
  | nil => exact h
  | cons m rest ih =>
    obtain ⟨name, source⟩ := m
    obtain ⟨⟨unremarked, standard⟩, others⟩ := List.forall_mem_cons.mp sources
    rw [addSchemas]
    cases hr : r.addSchema name source with
    | error _ => exact ih others h
    | ok r' =>
      obtain ⟨s, compiled, schemas⟩ := addSchema_eq_ok hr
      refine ih others ?_
      rw [schemas]
      exact h.set unremarked standard compiled name

/-- **Names stand for their sources.**  Compiling with the schemas that were registered is compiling
without any what the picoschema says with its names replaced.  Only a value that itself looks like
JSON Schema is read as that, and not for what `object` or `array` is registered as. -/
theorem compile_eq_compile_expand {r last : Registry ω} (empty : r.schemas = [])
    {entries added : List (String × Json)} (run : r.addSchemas entries = (last, added))
    (sources : ∀ m ∈ entries, Unremarked m.2 ∧ isStandard m.2 = false) {p : Json}
    (unremarked : Unremarked p)
    (expanded : isStandard (expand (glossary added).get? p) = false) :
    (isStandard p = false →
      compile last.schemas.get? p = compile noNames (expand (glossary added).get? p)) ∧
    (isStandard p = true → compile last.schemas.get? p = ofJson p ∧
      ∃ name ∈ ["object", "array"], p.get? "type" = some (.str name) ∧
        last.schemas.has name = true) := by
  have explains : Explains last.schemas.get? (glossary added).get? := by
    have start : Explains r.schemas.get? (Table.get? []) := by
      rw [empty]
      exact fun _ => .none
    have explains := explains_addSchemas sources start
    rwa [run] at explains
  refine ⟨fun standard => ?_, fun standard => ⟨if_pos standard, ?_⟩⟩
  · rw [compile, compile, standard, expanded, if_neg Bool.false_ne_true, if_neg Bool.false_ne_true]
    exact (explains.compileAt_expand p unremarked "$").symm
  · obtain ⟨name, listed, type, named⟩ := exists_name_of_isStandard standard expanded
    refine ⟨name, listed, type, ?_⟩
    rw [Table.has, Option.isSome_iff_ne_none]
    exact fun unknown => named (explains.eq_none unknown)

/-- Tags, a record of them, something that is not registered, and other tags under the name of the
first. -/
def tagSchemas : List (String × Json) :=
  [("Tag", .arr [.str "red", .str "blue"]),
    ("Tags", .obj [("main(enum)", .str "Tag"), ("(*)", .str "Tag")]),
    ("Flag", .obj [("of", .str "Nation")]),
    ("Tag", .str "string, in any words")]

/-- Something with tags of both kinds. -/
def tagged : Json :=
  .obj [("tags?(object, all of them)", .str "Tags"), ("more(array)", .str "Tag")]

/-- In the record, tags are what they were when it was registered. -/
theorem compile_eq_compile_expand_tagged :
    let run := ({} : Registry Unit).addSchemas tagSchemas
    let replaced : Json := .obj
      [("tags?(object, all of them)", .obj [("main(enum)", .arr [.str "red", .str "blue"]),
          ("(*)", .arr [.str "red", .str "blue"])]),
        ("more(array)", .str "string, in any words")]
    (∀ m ∈ tagSchemas, Unremarked m.2 ∧ isStandard m.2 = false) ∧ Unremarked tagged ∧
      isStandard tagged = false ∧ expand (glossary run.2).get? tagged = replaced ∧
      isStandard replaced = false ∧
      compile run.1.schemas.get? tagged = compile noNames replaced ∧
      ∃ s, compile noNames replaced = .ok s := by
  intro run replaced
  have sources : ∀ m ∈ tagSchemas, Unremarked m.2 ∧ isStandard m.2 = false := by decide +kernel
  have unremarked : Unremarked tagged := by decide +kernel
  have standard : isStandard tagged = false := by decide
  have named : expand (glossary run.2).get? tagged = replaced := by decide +kernel
  have expanded : isStandard (expand (glossary run.2).get? tagged) = false := by
    rw [named]
    decide
  have same := (compile_eq_compile_expand (r := ({} : Registry Unit)) rfl rfl sources unremarked
    expanded).1 standard
  exact ⟨sources, unremarked, standard, named, named ▸ expanded, named ▸ same, _, rfl⟩

/-- **A picoschema may look like JSON Schema until its names are replaced.**  With `object` instead
of what is registered as that, an object is described in which nothing is required. -/
theorem compile_ne_compile_expand :
    let source : Json := .obj [("a", .str "string")]
    let run := ({} : Registry Unit).addSchemas [("object", source)]
    let p : Json := .obj [("type", .str "object")]
    let replaced : Json := .obj [("type", source)]
    Unremarked source ∧ isStandard source = false ∧ Unremarked p ∧
      expand (glossary run.2).get? p = replaced ∧ isStandard replaced = false ∧
      (∃ s t, compile run.1.schemas.get? p = .ok s ∧ compile noNames replaced = .ok t ∧
        s.required = [] ∧ t.required = ["type"]) ∧
      compile run.1.schemas.get? p ≠ compile noNames replaced := by
  intro source run p replaced
  have apart : ∃ s t, compile run.1.schemas.get? p = .ok s ∧ compile noNames replaced = .ok t ∧
      s.required = [] ∧ t.required = ["type"] := ⟨_, _, rfl, rfl, rfl, rfl⟩
  refine ⟨by decide +kernel, by decide, by decide +kernel, by decide +kernel, by decide, apart, ?_⟩
  obtain ⟨s, t, hs, ht, required, required'⟩ := apart
  intro same
  obtain rfl := Except.ok.inj (hs.symm.trans (same.trans ht))
  cases required.symm.trans required'

end Registry

end Colloquy
