import Colloquy.Json.Reader
import Colloquy.Proofs.Table

/-!
# Values in which no key comes twice

An object is made of its members by `Json.ofMembers`, where a key that comes again overrides in
place.  So the values of a program are tidy: no object in them has a key twice, and what is read of a
text is so whatever the text repeats.
-/

namespace Colloquy.Json

mutual

/-- No object in the value has a key twice. -/
def Tidy : Json → Prop
  | .arr items => TidyItems items
  | .obj fields => (Table.keys fields).Nodup ∧ TidyFields fields
  | _ => True
termination_by structural v => v

def TidyItems : List Json → Prop
  | [] => True
  | item :: rest => Tidy item ∧ TidyItems rest
termination_by structural items => items

def TidyFields : List (String × Json) → Prop
  | [] => True
  | (_, value) :: rest => Tidy value ∧ TidyFields rest
termination_by structural fields => fields

end

lemma tidyFields_iff {fields : Fields} : TidyFields fields ↔ ∀ m ∈ fields, m.2.Tidy := by
  induction fields with
  | nil => simp [TidyFields]
  | cons m rest ih => rw [TidyFields, ih, List.forall_mem_cons]

/-- Members whose values are tidy make a tidy object, whether or not their keys differ. -/
theorem tidy_ofMembers {members : Fields} (h : ∀ m ∈ members, m.2.Tidy) :
    (ofMembers members).Tidy := by
  obtain ⟨nodup, inside⟩ := Table.ofList_spec members
  exact ⟨nodup, tidyFields_iff.mpr fun m hm => h m (inside m hm)⟩

/-! ## Values that are read -/

section

variable {read : (s : List Char) → Option (Json × Rest s)}

/-- The items of an array are as tidy as what reads them. -/
lemma tidy_of_readItems (tidy : ∀ s v r, read s = some (v, r) → v.Tidy) {s : List Char}
    {items : List Json} {r : Rest s} (h : readItems read s = some (items, r)) :
    TidyItems items := by
  induction s using readItems.induct generalizing items with
  | _ s ih =>
  rw [readItems] at h
  obtain ⟨⟨item, r₁⟩, hi, h⟩ := Option.bind_eq_some_iff.mp h
  dsimp only at h
  split at h
  · cases h
    exact ⟨tidy _ _ _ hi, trivial⟩
  · obtain ⟨⟨rest, _⟩, hr, h⟩ := Option.bind_eq_some_iff.mp h
    cases h
    exact ⟨tidy _ _ _ hi, ih _ _ hr⟩
  · cases h

lemma tidy_of_readMember (tidy : ∀ s v r, read s = some (v, r) → v.Tidy) {s : List Char}
    {m : String × Json} {r : Rest s} (h : readMember read s = some (m, r)) : m.2.Tidy := by
  rw [readMember] at h
  obtain ⟨_, _, h⟩ := Option.bind_eq_some_iff.mp h
  split at h
  · obtain ⟨⟨key, _⟩, _, h⟩ := Option.bind_eq_some_iff.mp h
    obtain ⟨_, _, h⟩ := Option.bind_eq_some_iff.mp h
    split at h
    · obtain ⟨⟨value, _⟩, hv, h⟩ := Option.bind_eq_some_iff.mp h
      cases h
      exact tidy _ _ _ hv
    · cases h
  · cases h

lemma tidy_of_readMembers (tidy : ∀ s v r, read s = some (v, r) → v.Tidy) {s : List Char}
    {members : Fields} {r : Rest s} (h : readMembers read s = some (members, r)) :
    ∀ m ∈ members, m.2.Tidy := by
  induction s using readMembers.induct generalizing members with
  | _ s ih =>
  rw [readMembers] at h
  obtain ⟨⟨m, r₁⟩, hm, h⟩ := Option.bind_eq_some_iff.mp h
  have first := tidy_of_readMember tidy hm
  dsimp only at h
  split at h
  · cases h
    simpa using first
  · obtain ⟨⟨rest, _⟩, hr, h⟩ := Option.bind_eq_some_iff.mp h
    cases h
    exact List.forall_mem_cons.mpr ⟨first, ih _ _ hr⟩
  · cases h

end

/-- A word stands for its value. -/
lemma eq_of_readWord {word s : List Char} {value v : Json} {r : Rest s}
    (h : readWord word value s = some (v, r)) : v = value := by
  fun_induction readWord word value s with
  | case2 => exact (Prod.mk.inj (Option.some.inj h)).1.symm
  | case4 word c s _ ih =>
    obtain ⟨⟨v', r'⟩, h', he⟩ := Option.map_eq_some_iff.mp h
    cases he
    exact ih h'
  | _ => cases h

/-- A word or a number has no members. -/
lemma tidy_of_readPlain {s : List Char} {v : Json} {r : Rest s} (h : readPlain s = some (v, r)) :
    v.Tidy := by
  have number {s : List Char} {r : Rest s} (h : readNumber s = some (v, r)) : v.Tidy := by
    unfold readNumber at h
    split at h
    · obtain ⟨x, _, he⟩ := Option.map_eq_some_iff.mp h
      cases he
      trivial
    · cases h
  simp only [readPlain, Option.orElse_eq_orElse, Option.orElse_eq_or, Option.or_eq_some_iff] at h
  obtain h | ⟨-, h | ⟨-, h | ⟨-, h⟩⟩⟩ := h
  · obtain rfl := eq_of_readWord h
    trivial
  · obtain rfl := eq_of_readWord h
    trivial
  · obtain rfl := eq_of_readWord h
    trivial
  · exact number h

/-- What is read is tidy if what is read in its brackets is. -/
lemma tidy_of_readAround {inside : Option ((s : List Char) → Option (Json × Rest s))}
    (tidy : ∀ read ∈ inside, ∀ s v r, read s = some (v, r) → v.Tidy) {s : List Char} {v : Json}
    {r : Rest s} (h : readAround inside s = some (v, r)) : v.Tidy := by
  rw [readAround] at h
  obtain ⟨⟨c, r₁⟩, _, h⟩ := Option.bind_eq_some_iff.mp h
  dsimp only at h
  split at h
  · obtain ⟨_, _, he⟩ := Option.bind_eq_some_iff.mp h
    cases he
    trivial
  · obtain ⟨read, hr, h⟩ := Option.bind_eq_some_iff.mp h
    split at h
    · cases h
      trivial
    · obtain ⟨⟨items, r₂⟩, hi, he⟩ := Option.bind_eq_some_iff.mp h
      cases he
      exact tidy_of_readItems (tidy read hr) hi
  · obtain ⟨read, hr, h⟩ := Option.bind_eq_some_iff.mp h
    split at h
    · cases h
      exact ⟨List.nodup_nil, trivial⟩
    · obtain ⟨⟨members, r₂⟩, hm, he⟩ := Option.bind_eq_some_iff.mp h
      cases he
      exact tidy_ofMembers (tidy_of_readMembers (tidy read hr) hm)
  · obtain ⟨⟨value, r₂⟩, hv, he⟩ := Option.bind_eq_some_iff.mp h
    cases he
    exact tidy_of_readPlain hv

/-- **What is read of a text is tidy**, however deep it is nested. -/
theorem tidy_of_readValue {depth : Nat} {s : List Char} {v : Json} {r : Rest s}
    (h : readValue depth s = some (v, r)) : v.Tidy := by
  induction depth generalizing s v with
  | zero => exact tidy_of_readAround (fun _ hr => (Option.not_mem_none _ hr).elim) h
  | succ depth ih =>
    refine tidy_of_readAround (fun read hr s v r h => ?_) h
    obtain rfl := Option.mem_some.mp hr
    exact ih h

/-- The value that a text is the JSON of is tidy. -/
theorem tidy_of_parse? {text : String} {v : Json} (h : parse? text = some v) : v.Tidy := by
  rw [parse?, read?] at h
  obtain ⟨⟨value, r⟩, hv, h⟩ := Option.bind_eq_some_iff.mp h
  dsimp only at h
  split at h
  · obtain rfl := Option.some.inj h
    exact tidy_of_readValue hv
  · cases h

end Colloquy.Json
