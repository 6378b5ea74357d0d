import Colloquy.Prompt.Draft
import Colloquy.Proofs.Failure
import Colloquy.Proofs.Schema.Inference
import Mathlib.Data.List.Nodup

/-!
# Prompts with an example of their input

An example gives a prompt both its input schema and its defaults, where no others are set.  Rendered
without an input such a prompt is rendered with the example, which then has to satisfy the schema
that was inferred from it: it does if it is uniform.
-/

namespace Colloquy

variable {ω α : Type}

/-! ## Options that are set once -/

namespace PromptOption

/-- Where no name is repeated the options have different names. -/
lemma nodup_of_firstRepeated {seen : List String} {options : List (PromptOption ω)}
    (h : firstRepeated seen options = none) : (options.map name).Nodup := by
  have fresh {seen : List String} {options : List (PromptOption ω)}
      (h : firstRepeated seen options = none) : ∀ o ∈ options, o.name ∉ seen := by
    induction options generalizing seen with
    | nil => exact fun o ho => absurd ho List.not_mem_nil
    | cons o rest ih =>
      rw [firstRepeated] at h
      split at h
      · cases h
      · rename_i hs
        refine List.forall_mem_cons.mpr ⟨by simpa using hs, fun o' ho' hm => ?_⟩
        exact ih h o' ho' (List.mem_cons_of_mem _ hm)
  induction options generalizing seen with
  | nil => exact List.nodup_nil
  | cons o rest ih =>
    rw [firstRepeated] at h
    split at h
    · cases h
    · refine List.nodup_cons.mpr ⟨fun hm => ?_, ih h⟩
      obtain ⟨o', ho', he⟩ := List.mem_map.mp hm
      exact fresh h o' ho' (he ▸ List.mem_cons_self)

end PromptOption

namespace PromptDraft

variable {d : PromptDraft ω}

lemma last?_eq_none {pick : PromptOption ω → Option α} (h : ∀ o ∈ d.options, pick o = none) :
    d.last? pick = none := by
  rw [last?, List.filterMap_eq_nil_iff.mpr h]
  rfl

/-- A value that no other is set beside is the last one. -/
lemma last?_eq_some {pick : PromptOption ω → Option α} {o : PromptOption ω} {a : α}
    (ho : o ∈ d.options) (ha : pick o = some a)
    (only : ∀ o ∈ d.options, ∀ b, pick o = some b → b = a) : d.last? pick = some a := by
  have member : a ∈ d.options.filterMap pick := List.mem_filterMap.mpr ⟨o, ho, ha⟩
  obtain ⟨b, hb⟩ := Option.ne_none_iff_exists'.mp
    (mt List.getLast?_eq_none_iff.mp (List.ne_nil_of_mem member))
  obtain ⟨o', ho', he⟩ := List.mem_filterMap.mp (List.mem_of_getLast? hb)
  rw [last?, hb, only o' ho' b he]

/-- The draft gives an example of the input, and neither an input schema nor defaults. -/
structure HasExample (d : PromptDraft ω) (fields : Fields) : Prop where
  given : .inputExample (.obj fields) ∈ d.options
  schema : ∀ schema, .inputSchema schema ∉ d.options
  defaults : ∀ defaults, .defaultVariables defaults ∉ d.options

lemma firstRepeated_of_essentials {essentials : ModelChoice ω × String}
    (h : d.essentials = .ok essentials) : PromptOption.firstRepeated [] d.options = none := by
  rw [PromptDraft.essentials] at h
  cases hf : PromptOption.firstRepeated [] d.options with
  | none => rfl
  | some option =>
    rw [hf] at h
    cases h

/-- The example gives the input schema and the defaults. -/
lemma HasExample.input_eq {fields : Fields} (h : d.HasExample fields)
    (nodup : (d.options.map PromptOption.name).Nodup) (resolve : Schema.Resolver) :
    d.input resolve = .ok (some (Schema.infer (.obj fields)), fields) := by
  have only (input : Json) (ho : .inputExample input ∈ d.options) : input = .obj fields :=
    PromptOption.inputExample.inj (List.inj_on_of_nodup_map nodup ho h.given rfl)
  rw [input, PromptDraft.schema, last?_eq_none, last?_eq_none, last?_eq_some (a := .obj fields) h.given]
  · rfl
  · rfl
  · intro o ho b hb
    cases o with
    | inputExample input =>
      rw [← only input ho]
      exact (Option.some.inj hb).symm
    | _ => cases hb
  · intro o ho
    cases o with
    | defaultVariables defaults => exact absurd ho (h.defaults defaults)
    | _ => rfl
  · intro o ho
    cases o with
    | inputSchema schema => exact absurd ho (h.schema schema)
    | _ => rfl

/-- A prompt that was built of an example has it as its defaults, and its schema as input schema. -/
lemma HasExample.of_buildWith {fields : Fields} (h : d.HasExample fields)
    {compile : String → Except TemplateError Template} {resolve : Schema.Resolver} {p : Prompt ω}
    (hp : d.buildWith compile resolve = .ok p) :
    p.defaults = fields ∧ p.inputSchema = some (Schema.infer (.obj fields)) := by
  rw [buildWith] at hp
  obtain ⟨⟨model, source⟩, he, hp⟩ := exists_of_bind_eq_ok hp
  obtain ⟨template, _, hp⟩ := exists_of_bind_eq_ok hp
  obtain ⟨⟨schema, defaults⟩, hi, hp⟩ := exists_of_bind_eq_ok hp
  obtain ⟨⟨outputSchema, format⟩, _, hp⟩ := exists_of_bind_eq_ok hp
  rw [h.input_eq (PromptOption.nodup_of_firstRepeated (firstRepeated_of_essentials he))] at hi
  obtain ⟨rfl, rfl⟩ := Prod.mk.inj (Except.ok.inj hi)
  obtain rfl := Except.ok.inj hp
  exact ⟨rfl, rfl⟩

end PromptDraft

/-- Rendering without an input finds the input invalid if the defaults do not satisfy the schema. -/
lemma Prompt.render_null_invalid_iff {p : Prompt ω} {schema : Schema}
    (hs : p.inputSchema = some schema) (options : RenderOptions) :
    (∃ key violations, p.render .null options = .error (.invalidInput key violations)) ↔
      JsonSchema.accepts schema.toJson (.obj p.defaults) = false := by
  have rendered : p.render .null options = (do
      p.checkInput (.obj p.defaults)
      let text ← (p.template.render options.partials
        { root := .obj p.defaults, data := options.data }).mapError .template
      return Message.assemble text options.history) := rfl
  rw [rendered, checkInput, hs, JsonSchema.accepts]
  dsimp only
  cases JsonSchema.violations schema.toJson (.obj p.defaults) with
  | nil =>
    refine iff_of_false ?_ (by simp)
    rintro ⟨key, violations, h⟩
    dsimp only at h
    cases ht : p.template.render options.partials
      { root := .obj p.defaults, data := options.data } with
    | ok text =>
      rw [ht] at h
      cases h
    | error e =>
      rw [ht] at h
      cases h
  | cons first rest => exact iff_of_true ⟨p.key, _, rfl⟩ rfl

/-- **An example satisfies its own schema exactly if it is uniform**: the schema accepts the values
that are like the example.  So a prompt that has the example, and no input schema or defaults, has it
as its defaults, and rendered without an input it finds these invalid only if they are not uniform. -/
theorem infer_accepts {x : Json} (tidy : x.Tidy) :
    (∀ v, JsonSchema.accepts (Schema.infer x).toJson v = true ↔ Like x v) ∧
    (JsonSchema.accepts (Schema.infer x).toJson x = true ↔ Uniform x) ∧
    ∀ (ω : Type) (fields : Fields) (d : PromptDraft ω)
      (compile : String → Except TemplateError Template) (resolve : Schema.Resolver) (p : Prompt ω),
      x = .obj fields → d.HasExample fields → d.buildWith compile resolve = .ok p →
      p.defaults = fields ∧ ∀ options,
        (∃ key violations, p.render .null options = .error (.invalidInput key violations)) ↔
          ¬Uniform x := by
  have accepts (v : Json) := (Schema.accepts_infer tidy v).2
  have own : JsonSchema.accepts (Schema.infer x).toJson x = true ↔ Uniform x :=
    (accepts x).trans (like_self_iff x tidy)
  refine ⟨accepts, own, fun ω fields d compile resolve p hx given built => ?_⟩
  obtain ⟨defaults, schema⟩ := given.of_buildWith built
  refine ⟨defaults, fun options => ?_⟩
  rw [Prompt.render_null_invalid_iff schema, defaults, ← hx, ← own, Bool.not_eq_true]

/-- A draft with an example of tags. -/
def tagging (tags : List Json) : PromptDraft Unit where
  name := "tagging"
  options := [.modelName "m", .template "Hello", .inputExample (.obj [("tags", .arr tags)])]

lemma tagging_hasExample (tags : List Json) : (tagging tags).HasExample [("tags", .arr tags)] := by
  constructor <;> simp [tagging]

lemma exists_tagging (tags : List Json) : ∃ p, (tagging tags).build = .ok p := by
  have read : Template.compile "Hello" = .ok ⟨Digest.ofText "Hello", [.text "Hello"]⟩ := by
    have tree : Template.readTree "Hello".toList = .ok [.text "Hello"] := by cbv
    unfold Template.compile
    rw [tree]
    rfl
  have essentials : (tagging tags).essentials = .ok (.named "m", "Hello") := rfl
  have input : (tagging tags).input Schema.noNames = .ok
      (some (Schema.infer (.obj [("tags", .arr tags)])), [("tags", .arr tags)]) := rfl
  have output : (tagging tags).output Schema.noNames = .ok (none, .text) := rfl
  simp [PromptDraft.build, PromptDraft.buildWith, essentials, read, input, output, bind,
    Except.bind, Except.mapError, pure, Except.pure]

/-- Two texts are uniform tags. -/
theorem infer_accepts_tagging :
    Json.Tidy (.obj [("tags", .arr [.str "a", .str "b"])]) ∧
    JsonSchema.accepts (Schema.infer (.obj [("tags", .arr [.str "a", .str "b"])])).toJson
      (.obj [("tags", .arr [.str "a", .str "b"])]) = true ∧
    ∃ p, (tagging [.str "a", .str "b"]).build = .ok p ∧
      p.defaults = [("tags", .arr [.str "a", .str "b"])] ∧
      ∀ key violations, p.render .null {} ≠ .error (.invalidInput key violations) := by
  have tidy : Json.Tidy (.obj [("tags", .arr [.str "a", .str "b"])]) :=
    ⟨by decide, ⟨trivial, trivial, trivial⟩, trivial⟩
  have uniform : Uniform (.obj [("tags", .arr [.str "a", .str "b"])]) := by
    simp [Uniform, UniformMembers, Like]
  obtain ⟨_, own, prompts⟩ := infer_accepts tidy
  obtain ⟨p, built⟩ := exists_tagging [.str "a", .str "b"]
  obtain ⟨defaults, renders⟩ := prompts _ _ _ _ _ p rfl (tagging_hasExample _) built
  refine ⟨tidy, own.mpr uniform, p, built, defaults, fun key violations h => ?_⟩
  exact (renders {}).mp ⟨key, violations, h⟩ uniform

/-- An example whose items are of different types does not satisfy its own schema, and a prompt that
has it finds its own defaults invalid. -/
theorem infer_rejects :
    JsonSchema.accepts (Schema.infer (.arr [.num (.int 1), .str "a"])).toJson
      (.arr [.num (.int 1), .str "a"]) = false ∧
    ∃ p, (tagging [.num (.int 1), .str "a"]).build = .ok p ∧
      p.defaults = [("tags", .arr [.num (.int 1), .str "a"])] ∧
      ∃ key violations, p.render .null {} = .error (.invalidInput key violations) := by
  obtain ⟨p, built⟩ := exists_tagging [.num (.int 1), .str "a"]
  obtain ⟨defaults, schema⟩ := (tagging_hasExample _).of_buildWith built
  refine ⟨by decide +kernel, p, built, defaults, (Prompt.render_null_invalid_iff schema {}).mpr ?_⟩
  rw [defaults]
  decide +kernel

end Colloquy
