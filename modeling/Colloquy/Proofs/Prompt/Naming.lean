import Colloquy.Prompt.Source
import Colloquy.Proofs.Text

/-!
# Names and keys of prompts

The key of a prompt is its name with the variant behind a point.  Names and variants may have points
themselves, so a key can be cut into a name and a variant in several ways, and prompts of different
names and variants can have one key.  `promptKey_eq_iff` says when: one name is the other with a
point and more behind it, and what is more there is where the other variant begins.

A path is cut at the first point of its last step.  Then no slash stands behind the point where the
variant begins, and a slash stands behind every point before it, so that keys which come from paths
are cut in one way only (`FromPath.eq_of_promptKey_eq`).
-/

namespace Colloquy

/-! ## Keys -/

lemma toList_promptKey_some (name variant : String) :
    (promptKey name (some variant)).toList = name.toList ++ '.' :: variant.toList := by
  simp [promptKey, toString]

/-- A variant that begins with another one can be cut there as well. -/
lemma promptKey_promptKey (name w : String) (variant : Option String) :
    promptKey (promptKey name (some w)) variant = promptKey name (some (promptKey w variant)) := by
  cases variant with
  | none => rfl
  | some v =>
    apply String.toList_injective
    simp [toList_promptKey_some]

/-- The second name goes on behind the first one, with a point and what the first variant begins
with.  The rest of the first variant is the second one. -/
def GoesOn (name : String) (variant : Option String) (name' : String)
    (variant' : Option String) : Prop :=
  ∃ w, name' = promptKey name (some w) ∧ variant = some (promptKey w variant')

lemma GoesOn.promptKey_eq {name name' : String} {variant variant' : Option String}
    (h : GoesOn name variant name' variant') : promptKey name variant = promptKey name' variant' := by
  obtain ⟨w, rfl, rfl⟩ := h
  exact (promptKey_promptKey name w variant').symm

/-- The keys with two variants are the same, and the first name is the start of the second one. -/
private lemma same_or_goesOn {name variant name' variant' : String} {more : List Char}
    (hn : name'.toList = name.toList ++ more)
    (hv : '.' :: variant.toList = more ++ '.' :: variant'.toList) :
    (name = name' ∧ variant = variant') ∨ GoesOn name (some variant) name' (some variant') := by
  cases more with
  | nil =>
    refine .inl ⟨?_, ?_⟩
    · apply String.toList_injective
      simp [hn]
    · apply String.toList_injective
      exact (List.cons.inj hv).2
  | cons c more =>
    obtain ⟨rfl, rest⟩ := List.cons.inj hv
    refine .inr ⟨String.ofList more, ?_, congrArg some ?_⟩
    · apply String.toList_injective
      simp [toList_promptKey_some, hn]
    · apply String.toList_injective
      simp [toList_promptKey_some, rest]

/-- **Prompts have one key in two cases.**  Their names and variants are the same, or one name goes
on behind the other. -/
theorem promptKey_eq_iff {name name' : String} {variant variant' : Option String} :
    promptKey name variant = promptKey name' variant' ↔
      (name = name' ∧ variant = variant') ∨ GoesOn name variant name' variant' ∨
        GoesOn name' variant' name variant := by
  constructor
  · intro h
    rcases variant with _ | v <;> rcases variant' with _ | v'
    · exact .inl ⟨h, rfl⟩
    · exact .inr (.inr ⟨v', h, rfl⟩)
    · exact .inr (.inl ⟨v, h.symm, rfl⟩)
    · have chars : name.toList ++ '.' :: v.toList = name'.toList ++ '.' :: v'.toList := by
        rw [← toList_promptKey_some, ← toList_promptKey_some, h]
      -- One of the two names is the start of the other.
      rcases List.append_eq_append_iff.mp chars with ⟨more, hn, hv⟩ | ⟨more, hn, hv⟩
      · rcases same_or_goesOn hn hv with ⟨rfl, rfl⟩ | on
        · exact .inl ⟨rfl, rfl⟩
        · exact .inr (.inl on)
      · rcases same_or_goesOn hn hv with ⟨rfl, rfl⟩ | on
        · exact .inl ⟨rfl, rfl⟩
        · exact .inr (.inr on)
  · rintro (⟨rfl, rfl⟩ | h | h)
    · rfl
    · exact h.promptKey_eq
    · exact h.promptKey_eq.symm

/-! ## Names from paths -/

/-- The name and the variant are cut as those of paths are: behind every point of the name stands a
slash, and none in the variant. -/
structure FromPath (name : String) (variant : Option String) : Prop where
  slash_of_point : ∀ before after, name.toList = before ++ '.' :: after → '/' ∈ after
  slash_notMem : ∀ v ∈ variant, '/' ∉ v.toList

lemma FromPath.not_goesOn {name name' : String} {variant variant' : Option String}
    (h : FromPath name variant) (h' : FromPath name' variant') :
    ¬GoesOn name variant name' variant' := by
  rintro ⟨w, rfl, rfl⟩
  have inside : '/' ∈ w.toList := h'.slash_of_point _ _ (toList_promptKey_some name w)
  refine h.slash_notMem _ rfl ?_
  cases variant' with
  | none => exact inside
  | some v =>
    rw [toList_promptKey_some]
    exact List.mem_append_left _ inside

/-- **Keys that come from paths are cut in one way.** -/
theorem FromPath.eq_of_promptKey_eq {name name' : String} {variant variant' : Option String}
    (h : FromPath name variant) (h' : FromPath name' variant')
    (same : promptKey name variant = promptKey name' variant') :
    name = name' ∧ variant = variant' := by
  rcases promptKey_eq_iff.mp same with equal | on | on
  · exact equal
  · exact absurd on (h.not_goesOn h')
  · exact absurd on (h'.not_goesOn h)

lemma slash_of_point_of_notMem {base : List Char} (h : '.' ∉ base) (before after : List Char)
    (he : base = before ++ '.' :: after) : '/' ∈ after := by
  subst he
  exact absurd (List.mem_append_right before List.mem_cons_self) h

/-- What stands in front of the last step of a path ends with a slash. -/
lemma slash_of_point_of_folder {folder base : List Char} (h : '.' ∉ base) (before after : List Char)
    (he : folder ++ '/' :: base = before ++ '.' :: after) : '/' ∈ after := by
  rcases List.append_eq_append_iff.mp he with ⟨more, rfl, hb⟩ | ⟨more, rfl, ha⟩
  · have inside : '.' ∈ '/' :: base := by
      rw [hb]
      exact List.mem_append_right more List.mem_cons_self
    exact absurd inside (by simpa using h)
  · cases more with
    | nil => cases (List.cons.inj ha).1
    | cons c more =>
      rw [(List.cons.inj ha).2]
      exact List.mem_append_right more List.mem_cons_self

/-- Paths give names and variants of this kind. -/
theorem PromptSource.splitName_fromPath (path : List Char) :
    FromPath (splitName path).1 (splitName path).2 := by
  unfold splitName
  cases hl : Text.cutAtLast? (· == '/') path with
  | none =>
    have noSlash : '/' ∉ path := Text.cutAtLast?_eq_none hl
    cases hc : Text.cutAt? (· == '.') path with
    | none =>
      have noPoint : '.' ∉ path := Text.cutAt?_eq_none_iff.mp hc
      refine ⟨?_, by simp [hc]⟩
      simpa [hc] using slash_of_point_of_notMem noPoint
    | some found =>
      obtain ⟨base, variant⟩ := found
      obtain ⟨rfl, noPoint⟩ := Text.cutAt?_eq_some_iff.mp hc
      refine ⟨?_, ?_⟩
      · simpa [hc] using slash_of_point_of_notMem noPoint
      · simpa [hc] using fun hv => noSlash (by simp [hv])
  | some found =>
    obtain ⟨folder, stem⟩ := found
    obtain ⟨rfl, noSlash⟩ := Text.eq_append_of_cutAtLast? hl
    cases hc : Text.cutAt? (· == '.') stem with
    | none =>
      have noPoint : '.' ∉ stem := Text.cutAt?_eq_none_iff.mp hc
      refine ⟨?_, by simp [hc]⟩
      simpa [hc] using slash_of_point_of_folder noPoint
    | some found =>
      obtain ⟨base, variant⟩ := found
      obtain ⟨rfl, noPoint⟩ := Text.cutAt?_eq_some_iff.mp hc
      refine ⟨?_, ?_⟩
      · simpa [hc] using slash_of_point_of_folder noPoint
      · simpa [hc] using fun hv => noSlash (by simp [hv])

end Colloquy
