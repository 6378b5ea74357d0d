import Colloquy.Proofs.Failure
import Colloquy.Proofs.Prompt.Naming
import Colloquy.Registry
import Mathlib.Data.List.Forall2

/-!
# Looking prompts up

A registry has one prompt for each key.  Look-up by a name and a variant goes through the key of the
two, and finds the prompt of this key that was built last (`prompt?_defineEach`).

It may have another name and variant.  `Finds` says for whole histories what is found, when it is
the prompt of this very name and variant, and what the others look like.
-/

namespace Colloquy

variable {ω : Type}

/-! ## What a draft becomes -/

lemma PromptDraft.buildWith_own {d : PromptDraft ω}
    {compile : String → Except TemplateError Template} {resolve : Schema.Resolver} {p : Prompt ω}
    (h : d.buildWith compile resolve = .ok p) : p.name = d.name ∧ p.variant = d.variant? := by
  unfold buildWith at h
  obtain ⟨⟨model, source⟩, _, h⟩ := exists_of_bind_eq_ok h
  obtain ⟨template, _, h⟩ := exists_of_bind_eq_ok h
  obtain ⟨⟨inputSchema, defaults⟩, _, h⟩ := exists_of_bind_eq_ok h
  obtain ⟨⟨outputSchema, outputFormat⟩, _, h⟩ := exists_of_bind_eq_ok h
  obtain rfl := Except.ok.inj h
  exact ⟨rfl, rfl⟩

namespace Registry

/-- The default model does not change what a draft is known by. -/
lemma complete_own (r : Registry ω) (d : PromptDraft ω) :
    (r.complete d).name = d.name ∧ (r.complete d).variant? = d.variant? := by
  unfold complete
  split
  · split
    · exact ⟨rfl, rfl⟩
    · refine ⟨rfl, ?_⟩
      simp [PromptDraft.set, PromptDraft.variant?, PromptDraft.last?, List.filterMap_append]
  · exact ⟨rfl, rfl⟩

/-- **What defining a prompt does.**  A prompt that can be built gets its place under its key, and
when it cannot be built the prompts stay as they are. -/
lemma define_cases (r : Registry ω) (d : PromptDraft ω) :
    (∃ p, (r.define d).2 = .ok p ∧ p.name = d.name ∧ p.variant = d.variant? ∧
      (r.define d).1.prompts = r.prompts.set p.key p) ∨
    (∃ e, (r.define d).2 = .error e ∧ (r.define d).1.prompts = r.prompts) := by
  unfold define
  cases hb : (r.complete d).buildCached r.templates r.schemas.get? with
  | mk templates result =>
    cases result with
    | error e => exact .inr ⟨e, rfl, rfl⟩
    | ok p =>
      have built := PromptDraft.buildWith_own (congrArg Prod.snd hb)
      obtain ⟨name, variant⟩ := r.complete_own d
      exact .inl ⟨p, rfl, built.1.trans name, built.2.trans variant, rfl⟩

/-! ## Histories -/

/-- Defines some prompts one after the other, whether those before could be built or not. -/
def defineEach (r : Registry ω) :
    List (PromptDraft ω) → Registry ω × List (Except PromptError (Prompt ω))
  | [] => (r, [])
  | d :: rest =>
    let (next, result) := r.define d
    let (last, results) := defineEach next rest
    (last, result :: results)

lemma defineEach_cons (r : Registry ω) (d : PromptDraft ω) (rest : List (PromptDraft ω)) :
    r.defineEach (d :: rest) =
      (((r.define d).1.defineEach rest).1,
        (r.define d).2 :: ((r.define d).1.defineEach rest).2) := rfl

/-- The prompts that could be built, in order. -/
def built (results : List (Except PromptError (Prompt ω))) : List (Prompt ω) :=
  results.filterMap Except.toOption

/-- What a prompt is known by: its name and its variant. -/
def ownKey (p : Prompt ω) : String × Option String := (p.name, p.variant)

/-- The last prompt with a key. -/
def lastKeyed (key : String) (prompts : List (Prompt ω)) : Option (Prompt ω) :=
  prompts.reverse.find? fun p => p.key = key

/-- The last prompt with a name and a variant of its own. -/
def lastNamed (name : String) (variant : Option String) (prompts : List (Prompt ω)) :
    Option (Prompt ω) :=
  prompts.reverse.find? fun p => p.name = name ∧ p.variant = variant

lemma map_lastKeyed (key : String) (prompts : List (Prompt ω)) :
    (lastKeyed key prompts).map ownKey =
      (prompts.map ownKey).reverse.find? fun own => promptKey own.1 own.2 = key := by
  rw [← List.map_reverse, List.find?_map]
  rfl

lemma map_lastNamed (name : String) (variant : Option String) (prompts : List (Prompt ω)) :
    (lastNamed name variant prompts).map ownKey =
      (prompts.map ownKey).reverse.find? fun own => own.1 = name ∧ own.2 = variant := by
  rw [← List.map_reverse, List.find?_map]
  rfl

/-- A prompt that was built last counts, if it has the key, and else those before do. -/
lemma lastKeyed_built_cons (key : String) (result : Except PromptError (Prompt ω))
    (results : List (Except PromptError (Prompt ω))) :
    lastKeyed key (built (result :: results)) =
      (lastKeyed key (built results)).or (result.toOption.filter fun p => p.key = key) := by
  cases result with
  | error e => exact (Option.or_none).symm
  | ok p =>
    have cons : built (.ok p :: results) = p :: built results := rfl
    rw [cons, lastKeyed, List.reverse_cons, List.find?_append, lastKeyed]
    by_cases hk : p.key = key
    · simp [Except.toOption, Option.filter_some, hk]
    · simp [Except.toOption, Option.filter_some, hk]

lemma prompt?_define (r : Registry ω) (d : PromptDraft ω) (name : String)
    (variant : Option String) :
    (r.define d).1.prompt? name variant =
      ((r.define d).2.toOption.filter fun p => p.key = promptKey name variant).or
        (r.prompt? name variant) := by
  unfold prompt?
  rcases r.define_cases d with ⟨p, result, _, _, after⟩ | ⟨e, result, after⟩
  · rw [result, after]
    by_cases hk : p.key = promptKey name variant
    · simp [Except.toOption, Option.filter_some, hk]
    · simp [Except.toOption, Option.filter_some, hk, Table.get?_set_of_ne _ _ (Ne.symm hk)]
  · rw [result, after]
    rfl

/-- The last prompt of a key is found under it, and without one what was there before. -/
lemma prompt?_defineEach (r : Registry ω) (drafts : List (PromptDraft ω)) (name : String)
    (variant : Option String) :
    (r.defineEach drafts).1.prompt? name variant =
      (lastKeyed (promptKey name variant) (built (r.defineEach drafts).2)).or
        (r.prompt? name variant) := by
  induction drafts generalizing r with
  | nil => rfl
  | cons d rest ih =>
    rw [defineEach, ih, prompt?_define, lastKeyed_built_cons, Option.or_assoc]

/-- Prompts keep the names and variants of their drafts. -/
lemma defineEach_own (r : Registry ω) (drafts : List (PromptDraft ω)) :
    List.Forall₂ (fun d result => ∀ p, result = .ok p → p.name = d.name ∧ p.variant = d.variant?)
      drafts (r.defineEach drafts).2 := by
  induction drafts generalizing r with
  | nil => exact .nil
  | cons d rest ih =>
    refine .cons ?_ (ih (r.define d).1)
    intro p hp
    rcases r.define_cases d with ⟨p', result, name, variant, _⟩ | ⟨e, result, _⟩
    · obtain rfl := Except.ok.inj (result.symm.trans hp)
      exact ⟨name, variant⟩
    · cases result.symm.trans hp

/-- Loading the sources of a folder is a history as well: the prompts of some first sources are
defined one by one. -/
lemma exists_defineAll (r : Registry ω) (sources : List PromptSource) :
    ∃ n, (r.defineAll sources).1 =
      (r.defineEach ((sources.take n).map PromptSource.draft)).1 := by
  induction sources generalizing r with
  | nil => exact ⟨0, rfl⟩
  | cons source rest ih =>
    unfold defineAll
    cases hd : r.define source.draft with
    | mk next result =>
      cases result with
      | error e =>
        refine ⟨1, ?_⟩
        simp [defineEach, hd]
      | ok p =>
        obtain ⟨n, hn⟩ := ih next
        refine ⟨n + 1, ?_⟩
        simp [defineEach, hd, hn]

/-- Two searches find the same if the second one asks for more, and what the first finds has it. -/
lemma find?_eq_find?_of_imp {α : Type} {p q : α → Bool} (h : ∀ a, q a = true → p a = true)
    {as : List α} (found : ∀ a ∈ as.find? p, q a = true) : as.find? p = as.find? q := by
  induction as with
  | nil => rfl
  | cons a as ih =>
    rw [List.find?_cons] at found
    rw [List.find?_cons, List.find?_cons]
    by_cases hp : p a = true
    · rw [hp] at found
      have hq : q a = true := found a rfl
      rw [hp, hq]
    · have hq : q a = false := by
        rw [Bool.eq_false_iff]
        exact fun hq => hp (h a hq)
      rw [Bool.eq_false_iff.mpr hp] at found
      rw [Bool.eq_false_iff.mpr hp, hq]
      exact ih found

/-! ## Drafts that can be built -/

/-- A cache finds a template for a source that can be read. -/
lemma exists_compile (cache : TemplateCache) {source : String} {t : Template}
    (read : Template.compile source = .ok t) : ∃ t', cache.compile source = .ok t' := by
  unfold TemplateCache.compile TemplateCache.getOrCompile
  cases known : cache.entries.get? (Digest.ofText source) with
  | some hit => exact ⟨hit, by simp [known, Except.map, pure, Except.pure]⟩
  | none => exact ⟨t, by simp [known, read, bind, Except.bind, Except.map, pure, Except.pure]⟩

/-- A draft that can be built in every registry. -/
def greeting (own : String × Option String) : PromptDraft ω :=
  ⟨own.1, PromptSource.option .variant own.2 ++ [.modelName "m", .template "Hello"]⟩

lemma greeting_variant? (own : String × Option String) :
    (greeting own : PromptDraft ω).variant? = own.2 := by
  obtain ⟨name, _ | v⟩ := own <;> rfl

lemma define_greeting (r : Registry ω) (own : String × Option String) :
    ∃ p, (r.define (greeting own)).2 = .ok p ∧ ownKey p = own := by
  have read : Template.compile "Hello" = .ok ⟨Digest.ofText "Hello", [.text "Hello"]⟩ := by
    have tree : Template.readTree "Hello".toList = .ok [.text "Hello"] := by cbv
    unfold Template.compile
    rw [tree]
    rfl
  obtain ⟨t, found⟩ := exists_compile r.templates read
  have complete : r.complete (greeting own) = greeting own := by
    have chooses : (greeting own : PromptDraft ω).hasModel = true := by
      obtain ⟨name, _ | v⟩ := own <;> rfl
    unfold complete
    split
    · rw [if_pos chooses]
    · rfl
  have essentials : (greeting own : PromptDraft ω).essentials = .ok (.named "m", "Hello") := by
    obtain ⟨name, _ | v⟩ := own <;> rfl
  have input : (greeting own : PromptDraft ω).input r.schemas.get? = .ok (none, []) := by
    obtain ⟨name, _ | v⟩ := own <;> rfl
  have output : (greeting own : PromptDraft ω).output r.schemas.get? = .ok (none, .text) := by
    obtain ⟨name, _ | v⟩ := own <;> rfl
  obtain ⟨p, hp⟩ : ∃ p, (greeting own : PromptDraft ω).buildWith r.templates.compile
      r.schemas.get? = .ok p := by
    simp [PromptDraft.buildWith, essentials, found, input, output, bind, Except.bind,
      Except.mapError, pure, Except.pure]
  have known := PromptDraft.buildWith_own hp
  refine ⟨p, ?_, ?_⟩
  · simp [define, complete, PromptDraft.buildCached, hp]
  · rw [ownKey, known.1, known.2, greeting_variant?]
    rfl

lemma built_greetings (r : Registry ω) (owns : List (String × Option String)) :
    (built (r.defineEach (owns.map greeting)).2).map ownKey = owns := by
  induction owns generalizing r with
  | nil => rfl
  | cons own rest ih =>
    obtain ⟨p, result, known⟩ := r.define_greeting own
    rw [List.map_cons, defineEach_cons, result]
    exact congrArg₂ List.cons known (ih _)

/-! ## Look-up -/

/-- What is found under a name and a variant among the prompts that were built. -/
structure Finds (r : Registry ω) (prompts : List (Prompt ω)) (name : String)
    (variant : Option String) : Prop where
  /-- It is the last one with the key, if there is any. -/
  keyed : r.prompt? name variant = lastKeyed (promptKey name variant) prompts
  /-- It is the last one of this name and variant, or there is none, exactly if no other one is
  found in its place. -/
  named_iff : r.prompt? name variant = lastNamed name variant prompts ↔
    ∀ p ∈ r.prompt? name variant, p.name = name ∧ p.variant = variant
  /-- Another one that is found has a name that goes on behind this one, or the other way round. -/
  other : ∀ p ∈ r.prompt? name variant, (p.name = name ∧ p.variant = variant) ∨
    GoesOn name variant p.name p.variant ∨ GoesOn p.name p.variant name variant
  /-- There are no others when names and variants are cut as those of paths are. -/
  fromPath : FromPath name variant → (∀ p ∈ prompts, FromPath p.name p.variant) →
    r.prompt? name variant = lastNamed name variant prompts

/-- **A prompt is lost only to one that has its key.**  Whatever prompts are defined, in a registry
that has none, and whether they can be built or not. -/
theorem defineEach_finds {r : Registry ω} (empty : r.prompts = []) (drafts : List (PromptDraft ω))
    (name : String) (variant : Option String) :
    List.Forall₂ (fun d result => ∀ p, result = .ok p → p.name = d.name ∧ p.variant = d.variant?)
        drafts (r.defineEach drafts).2 ∧
      Finds (r.defineEach drafts).1 (built (r.defineEach drafts).2) name variant := by
  refine ⟨r.defineEach_own drafts, ?_⟩
  have keyed := r.prompt?_defineEach drafts name variant
  have before : r.prompt? name variant = none := by simp [prompt?, empty, Table.get?]
  rw [before, Option.or_none] at keyed
  have named : (r.defineEach drafts).1.prompt? name variant =
        lastNamed name variant (built (r.defineEach drafts).2) ↔
      ∀ p ∈ (r.defineEach drafts).1.prompt? name variant,
        p.name = name ∧ p.variant = variant := by
    constructor
    · intro h p hp
      rw [h] at hp
      simpa using List.find?_some hp
    · intro h
      rw [keyed] at h ⊢
      refine find?_eq_find?_of_imp (fun p hp => ?_) (fun p hp => decide_eq_true (h p hp))
      obtain ⟨rfl, rfl⟩ : p.name = name ∧ p.variant = variant := by simpa using hp
      simp [Prompt.key]
  have same_key : ∀ p ∈ (r.defineEach drafts).1.prompt? name variant,
      p ∈ built (r.defineEach drafts).2 ∧ promptKey p.name p.variant = promptKey name variant := by
    intro p hp
    rw [keyed] at hp
    have member := List.mem_of_find?_eq_some hp
    have key := List.find?_some hp
    exact ⟨by simpa using member, by simpa [Prompt.key] using of_decide_eq_true key⟩
  refine ⟨keyed, named, ?_, ?_⟩
  · intro p hp
    rcases promptKey_eq_iff.mp (same_key p hp).2 with own | on | on
    · exact .inl own
    · exact .inr (.inr on)
    · exact .inr (.inl on)
  · intro this others
    refine named.mpr fun p hp => ?_
    obtain ⟨member, key⟩ := same_key p hp
    exact (others p member).eq_of_promptKey_eq this key

/-- The names and variants of two files in a folder whose name has a point. -/
def triage : List (String × Option String) :=
  ["v1.2/triage.brief", "v1.2/triage"].map fun path => PromptSource.splitName path.toList

/-- The first of two prompts from paths is found under its name and its variant. -/
theorem defineEach_finds_triage :
    let run := ({} : Registry Unit).defineEach (triage.map greeting)
    ({} : Registry Unit).prompts = [] ∧ FromPath "v1.2/triage" (some "brief") ∧
      (∀ p ∈ built run.2, FromPath p.name p.variant) ∧
      (run.1.prompt? "v1.2/triage" (some "brief")).map ownKey =
        some ("v1.2/triage", some "brief") := by
  intro run
  have owns : (built run.2).map ownKey = triage := built_greetings {} _
  have paths : ∀ own ∈ triage, FromPath own.1 own.2 := by
    intro own h
    obtain ⟨path, _, rfl⟩ := List.mem_map.mp h
    exact PromptSource.splitName_fromPath path.toList
  have this : FromPath "v1.2/triage" (some "brief") :=
    paths ("v1.2/triage", some "brief") (by decide +kernel)
  have others : ∀ p ∈ built run.2, FromPath p.name p.variant := by
    intro p hp
    refine paths (ownKey p) ?_
    rw [← owns]
    exact List.mem_map_of_mem hp
  obtain ⟨_, finds⟩ := defineEach_finds (r := ({} : Registry Unit)) rfl (triage.map greeting)
    "v1.2/triage" (some "brief")
  refine ⟨rfl, this, others, ?_⟩
  rw [finds.fromPath this others, map_lastNamed, owns]
  decide +kernel

/-- A short variant of a prompt, and a prompt with a point in its name. -/
def homonyms : List (PromptDraft Unit) :=
  [("chat", some "short"), ("chat.short", none)].map greeting

/-- **A prompt is lost to another one.**  Under the name and the variant of the first prompt, the
second one is found, though it has neither. -/
theorem define_replaces :
    let run := ({} : Registry Unit).defineEach homonyms
    (built run.2).map ownKey = [("chat", some "short"), ("chat.short", none)] ∧
      (run.1.prompt? "chat" (some "short")).map ownKey = some ("chat.short", none) ∧
      run.1.prompt? "chat" (some "short") ≠ lastNamed "chat" (some "short") (built run.2) := by
  intro run
  have owns : (built run.2).map ownKey = [("chat", some "short"), ("chat.short", none)] :=
    built_greetings {} _
  have keyed : run.1.prompt? "chat" (some "short") =
      (lastKeyed "chat.short" (built run.2)).or none :=
    prompt?_defineEach {} homonyms "chat" (some "short")
  have found : (run.1.prompt? "chat" (some "short")).map ownKey = some ("chat.short", none) := by
    rw [keyed, Option.or_none, map_lastKeyed, owns]
    decide +kernel
  refine ⟨owns, found, ?_⟩
  intro same
  rw [same, map_lastNamed, owns] at found
  exact absurd found (by decide +kernel)

end Registry

end Colloquy
