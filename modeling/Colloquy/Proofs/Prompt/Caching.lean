import Colloquy.Proofs.Failure
import Colloquy.Proofs.Table
import Colloquy.Prompt.Draft
import Mathlib.Data.List.Forall2
import Mathlib.Data.List.Induction
import Mathlib.Data.List.Nodup
import Mathlib.Data.Set.Function

/-!
# Caching

A cache knows templates by the digests of their sources, so it can only be right about sources that
the digest tells apart.  That is the one assumption here, and it is made of the sources involved and
not of all texts.

The invariant is that the entries of a cache are, one for one, the readable sources among those that
were asked for, each under its digest with the template that it is read as (`Holds`).  What asking
once more does follows from it (`getOrCompile_eq`), and the invariant is kept.  Building a prompt
reads one source at most, so a prompt is built the same with a cache and without.
-/

namespace Colloquy

namespace TemplateCache

/-- The cache after some sources were asked for in turn, empty at first. -/
def after (asked : List String) : TemplateCache := asked.foldl remember {}

lemma after_concat (asked : List String) (source : String) :
    after (asked ++ [source]) = (after asked).remember source := by
  simp [after, List.foldl_append]

/-- The source can be read. -/
def Readable (source : String) : Prop := ∃ t, Template.compile source = .ok t

/-! ## What a cache holds -/

/-- The entry that a cache has for a source. -/
def EntryOf (source : String) (entry : String × Template) : Prop :=
  entry.1 = Digest.ofText source ∧ Template.compile source = .ok entry.2

/-- The cache has one entry for each of the sources that it keeps, and these are the readable ones
among those that were asked for. -/
structure Holds (cache : TemplateCache) (asked kept : List String) : Prop where
  nodup : kept.Nodup
  mem_kept : ∀ source, source ∈ kept ↔ source ∈ asked ∧ Readable source
  entries : List.Forall₂ EntryOf kept cache.entries

namespace Holds

variable {cache : TemplateCache} {asked kept : List String} {source : String}

lemma empty : Holds {} [] [] := ⟨List.nodup_nil, by simp, .nil⟩

lemma size_eq (h : cache.Holds asked kept) : cache.size = kept.length :=
  h.entries.length_eq.symm

/-- Asking for a source that is kept, or that cannot be read, leaves the cache as it should be. -/
lemma same (h : cache.Holds asked kept) (hs : source ∈ kept ↔ Readable source) :
    cache.Holds (asked ++ [source]) kept := by
  refine ⟨h.nodup, fun s => ?_, h.entries⟩
  rw [h.mem_kept, List.mem_append, List.mem_singleton]
  constructor
  · rintro ⟨ha, hr⟩
    exact ⟨.inl ha, hr⟩
  · rintro ⟨ha | rfl, hr⟩
    · exact ⟨ha, hr⟩
    · exact (h.mem_kept s).mp (hs.mpr hr)

/-- A source that is read for the first time gets an entry of its own. -/
lemma push (h : cache.Holds asked kept) (new : source ∉ kept) {t : Template}
    (ht : Template.compile source = .ok t) :
    Holds ⟨cache.entries ++ [(Digest.ofText source, t)]⟩ (asked ++ [source])
      (kept ++ [source]) := by
  have own : EntryOf source (Digest.ofText source, t) := ⟨rfl, ht⟩
  refine ⟨?_, fun s => ?_, List.rel_append h.entries (.cons own .nil)⟩
  · exact List.nodup_append'.mpr ⟨h.nodup, List.nodup_singleton source, by simpa using new⟩
  · rw [List.mem_append, List.mem_append, List.mem_singleton, h.mem_kept]
    constructor
    · rintro (⟨ha, hr⟩ | rfl)
      · exact ⟨.inl ha, hr⟩
      · exact ⟨.inr rfl, t, ht⟩
    · rintro ⟨ha | rfl, hr⟩
      · exact .inl ⟨ha, hr⟩
      · exact .inr rfl

end Holds

/-! ## Asking for a source -/

section

variable {sources : Set String} (apart : Set.InjOn Digest.ofText sources)
include apart

/-- What stands under the digest of a source is the entry of that source. -/
lemma get?_entries {kept : List String} {entries : Table Template}
    (h : List.Forall₂ EntryOf kept entries) (known : ∀ s ∈ kept, s ∈ sources) {source : String}
    (hs : source ∈ sources) {t : Template} :
    entries.get? (Digest.ofText source) = some t ↔
      source ∈ kept ∧ Template.compile source = .ok t := by
  induction h with
  | nil => simp [Table.get?]
  | @cons s entry kept entries own others ih =>
    obtain ⟨key, value⟩ := entry
    obtain ⟨rfl, read⟩ : key = Digest.ofText s ∧ Template.compile s = .ok value := own
    have rest := ih fun s' h' => known s' (List.mem_cons_of_mem s h')
    have same : Digest.ofText source = Digest.ofText s ↔ source = s :=
      apart.eq_iff hs (known s List.mem_cons_self)
    rw [Table.get?_cons, List.mem_cons]
    by_cases he : source = s
    · subst he
      simp [read]
    · rw [if_neg (fun hd => he (same.mp hd)), rest]
      simp [he]

variable {cache : TemplateCache} {asked kept : List String} (h : cache.Holds asked kept)
  (known : ∀ s ∈ asked, s ∈ sources) {source : String} (hs : source ∈ sources)
include h known hs

/-- Whatever a cache is asked for, it answers as reading answers, and it grows by the entry of the
source when that is read for the first time. -/
lemma getOrCompile_eq :
    (∃ t, Template.compile source = .ok t ∧ source ∈ kept ∧
      cache.getOrCompile source = .ok (t, cache)) ∨
    (∃ t, Template.compile source = .ok t ∧ source ∉ kept ∧
      cache.getOrCompile source =
        .ok (t, ⟨cache.entries ++ [(Digest.ofText source, t)]⟩)) ∨
    (∃ e, Template.compile source = .error e ∧ source ∉ kept ∧
      cache.getOrCompile source = .error e) := by
  have found {t : Template} := get?_entries apart (t := t) h.entries
    (fun s hk => known s ((h.mem_kept s).mp hk).1) hs
  cases hg : cache.entries.get? (Digest.ofText source) with
  | some t =>
    obtain ⟨kept, read⟩ := found.mp hg
    refine .inl ⟨t, read, kept, ?_⟩
    simp [getOrCompile, hg, pure, Except.pure]
  | none =>
    have new : source ∉ kept := by
      intro hk
      obtain ⟨t, read⟩ := ((h.mem_kept source).mp hk).2
      rw [found.mpr ⟨hk, read⟩] at hg
      cases hg
    cases read : Template.compile source with
    | error e =>
      refine .inr (.inr ⟨e, rfl, new, ?_⟩)
      simp [getOrCompile, hg, read, bind, Except.bind]
    | ok t =>
      have fresh : Digest.ofText source ∉ cache.entries.keys := by
        rw [← Table.has_iff_mem_keys, Table.has, hg]
        simp
      refine .inr (.inl ⟨t, rfl, new, ?_⟩)
      simp [getOrCompile, hg, read, bind, Except.bind, pure, Except.pure,
        Table.set_eq_append fresh]

/-- A cache answers as reading the source answers. -/
lemma compile_eq : cache.compile source = Template.compile source := by
  rcases getOrCompile_eq apart h known hs with
    ⟨t, read, _, answer⟩ | ⟨t, read, _, answer⟩ | ⟨e, read, _, answer⟩
  all_goals rw [compile, answer, read]; rfl

/-- What a cache holds, it holds after it was asked once more. -/
lemma Holds.remember : ∃ kept', (cache.remember source).Holds (asked ++ [source]) kept' := by
  rcases getOrCompile_eq apart h known hs with
    ⟨t, read, old, answer⟩ | ⟨t, read, new, answer⟩ | ⟨e, read, new, answer⟩
  · rw [TemplateCache.remember, answer]
    exact ⟨kept, h.same ⟨fun _ => ⟨t, read⟩, fun _ => old⟩⟩
  · rw [TemplateCache.remember, answer]
    exact ⟨kept ++ [source], h.push new read⟩
  · rw [TemplateCache.remember, answer]
    refine ⟨kept, h.same ⟨fun hk => absurd hk new, ?_⟩⟩
    rintro ⟨t, readable⟩
    rw [read] at readable
    cases readable

end

/-- Every cache that was asked for some sources holds the readable ones. -/
theorem after_holds {sources : Set String} (apart : Set.InjOn Digest.ofText sources)
    {asked : List String} (known : ∀ s ∈ asked, s ∈ sources) :
    ∃ kept, (after asked).Holds asked kept := by
  induction asked using List.reverseRecOn with
  | nil => exact ⟨[], .empty⟩
  | append_singleton asked source ih =>
    have before : ∀ s ∈ asked, s ∈ sources := fun s h => known s (List.mem_append_left _ h)
    obtain ⟨kept, h⟩ := ih before
    rw [after_concat]
    exact h.remember apart before (known source (by simp))

end TemplateCache

/-! ## Building prompts -/

namespace PromptDraft

variable {ω : Type}

/-- The source that is read when a prompt is built is the template of the draft. -/
lemma template?_of_essentials {d : PromptDraft ω} {model : ModelChoice ω} {source : String}
    (h : d.essentials = .ok (model, source)) : d.template? = some source := by
  unfold essentials at h
  dsimp only at h
  split at h
  · cases h
  · obtain ⟨_, _, h⟩ := exists_of_bind_eq_ok h
    split at h
    · rename_i source' hs
      obtain ⟨rfl, rfl⟩ := Prod.mk.inj (Except.ok.inj h)
      exact hs
    · cases h

/-- Prompts are built the same by two ways of reading that agree on the template of the draft. -/
lemma buildWith_congr {d : PromptDraft ω} {compile compile' : String → Except TemplateError Template}
    (resolve : Schema.Resolver) (h : ∀ s, d.template? = some s → compile s = compile' s) :
    d.buildWith compile resolve = d.buildWith compile' resolve := by
  unfold buildWith
  cases he : d.essentials with
  | error e => rfl
  | ok found =>
    obtain ⟨model, source⟩ := found
    have same := h source (template?_of_essentials he)
    simp [bind, Except.bind, same]

end PromptDraft

namespace TemplateCache

/-! ## Transparency -/

/-- What can be seen of a cache that was asked for some sources: it answers as reading does, it holds
one entry for each readable source, and prompts are built as without it, which leaves a cache of the
same kind. -/
structure Transparent (sources : Set String) (asked : List String) (cache : TemplateCache) :
    Prop where
  /-- The next source is answered with the same template, or with the same error. -/
  answers : ∀ source ∈ sources,
    (cache.getOrCompile source).map (·.1) = Template.compile source
  /-- There is one entry for each source that was asked for and could be read. -/
  holds : ∃ kept, cache.Holds asked kept ∧ cache.size = kept.length
  /-- A prompt is built as it is without a cache, or fails with the same error. -/
  builds : ∀ {ω : Type} (d : PromptDraft ω) (resolve : Schema.Resolver),
    (∀ s, d.template? = some s → s ∈ sources) →
      (d.buildCached cache resolve).2 = d.buildWith Template.compile resolve
  /-- Building asks the cache for the template of the draft, or for nothing. -/
  reaches : ∀ {ω : Type} (d : PromptDraft ω) (resolve : Schema.Resolver),
    ∃ more, (∀ s ∈ more, d.template? = some s) ∧
      (d.buildCached cache resolve).1 = after (asked ++ more)

/-- **A cache is transparent.**  Whatever sources it was asked for, if the digest tells the sources
involved apart. -/
theorem after_transparent {sources : Set String} (apart : Set.InjOn Digest.ofText sources)
    {asked : List String} (known : ∀ s ∈ asked, s ∈ sources) :
    Transparent sources asked (after asked) := by
  obtain ⟨kept, h⟩ := after_holds apart known
  refine ⟨fun source hs => compile_eq apart h known hs, ⟨kept, h, h.size_eq⟩, ?_, ?_⟩
  · intro ω d resolve hd
    exact PromptDraft.buildWith_congr resolve fun s ht => compile_eq apart h known (hd s ht)
  · intro ω d resolve
    unfold PromptDraft.buildCached
    cases he : d.essentials with
    | error e => exact ⟨[], by simp, by simp⟩
    | ok found =>
      obtain ⟨model, source⟩ := found
      refine ⟨[source], ?_, (after_concat asked source).symm⟩
      simpa using PromptDraft.template?_of_essentials he

/-- Two templates, and a source that cannot be read. -/
def greetings : List String := ["Hi {{name}}", "{{}}", "{{name}}"]

/-- A cache that was asked for the first template, for the source that cannot be read, and for the
first template again. -/
theorem after_transparent_greetings :
    Set.InjOn Digest.ofText {s | s ∈ greetings} ∧
      (∀ s ∈ ["Hi {{name}}", "{{}}", "Hi {{name}}"], s ∈ {s | s ∈ greetings}) ∧
      Transparent {s | s ∈ greetings} ["Hi {{name}}", "{{}}", "Hi {{name}}"]
        (after ["Hi {{name}}", "{{}}", "Hi {{name}}"]) := by
  have apart : Set.InjOn Digest.ofText {s | s ∈ greetings} := by
    have distinct : ∀ s ∈ greetings, ∀ s' ∈ greetings,
        Digest.ofText s = Digest.ofText s' → s = s' := by decide +kernel
    exact fun s hs s' hs' => distinct s hs s' hs'
  have known : ∀ s ∈ ["Hi {{name}}", "{{}}", "Hi {{name}}"], s ∈ {s | s ∈ greetings} := by
    decide
  exact ⟨apart, known, after_transparent apart known⟩

end TemplateCache

end Colloquy
