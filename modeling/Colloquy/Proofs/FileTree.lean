import Colloquy.FileTree
import Mathlib.Data.String.Basic
import Mathlib.Tactic.Common

/-!
# Files below a directory

The files that a tree holds, each under the steps that lead to it, and the order in which they are
come upon when every directory is walked in the order of its names.  That is the order of their paths,
compared step by step, and no file is come upon twice (`pairwise_listing`).
-/

namespace Colloquy.FileTree

/-! ## Trees -/

/-- The steps lead from the tree to a file with this content. -/
inductive Holds : FileTree → List String → ByteArray → Prop
  | file {content : ByteArray} : Holds (.file content) [] content
  | entry {entries : List (String × FileTree)} {name : String} {tree : FileTree}
      {steps : List String} {content : ByteArray} (member : (name, tree) ∈ entries)
      (inside : Holds tree steps content) : Holds (.directory entries) (name :: steps) content

/-- Directories have no name twice, and no name with a slash. -/
inductive Proper : FileTree → Prop
  | file (content : ByteArray) : Proper (.file content)
  | directory {entries : List (String × FileTree)} (distinct : (entries.map Prod.fst).Nodup)
      (plain : ∀ m ∈ entries, '/' ∉ m.1.toList) (inside : ∀ m ∈ entries, Proper m.2) :
      Proper (.directory entries)

/-- No step is hidden. -/
def Shown (steps : List String) : Prop := ∀ step ∈ steps, step.toList.head? ≠ some '.'

instance (steps : List String) : Decidable (Shown steps) :=
  inferInstanceAs (Decidable (∀ step ∈ steps, _))

mutual

/-- What holds for files, and for directories if it holds for their entries, holds for all trees. -/
theorem entries_induction {P : FileTree → Prop} (file : ∀ content, P (.file content))
    (directory : ∀ entries, (∀ m ∈ entries, P m.2) → P (.directory entries)) : ∀ tree, P tree
  | .file content => file content
  | .directory entries => directory entries (forall_mem_entries file directory entries)
termination_by structural tree => tree

theorem forall_mem_entries {P : FileTree → Prop} (file : ∀ content, P (.file content))
    (directory : ∀ entries, (∀ m ∈ entries, P m.2) → P (.directory entries)) :
    ∀ entries : List (String × FileTree), ∀ m ∈ entries, P m.2
  | [], _, h => absurd h List.not_mem_nil
  | (_, tree) :: rest, m, h => by
    rcases List.mem_cons.mp h with rfl | h
    · exact entries_induction file directory tree
    · exact forall_mem_entries file directory rest m h
termination_by structural entries => entries

end

lemma Holds.slash_notMem {tree : FileTree} {steps : List String} {content : ByteArray}
    (h : tree.Holds steps content) (proper : tree.Proper) : ∀ step ∈ steps, '/' ∉ step.toList := by
  induction h with
  | file => simp
  | entry member _ ih =>
    cases proper with
    | directory _ plain inside =>
      exact List.forall_mem_cons.mpr ⟨plain _ member, ih (inside _ member)⟩

/-! ## Walking -/

/-- The name is not hidden. -/
def isShown (name : String) : Bool := name.toList.head? != some '.'

/-- Entries in the order of their names. -/
def ordered {α : Type} (entries : List (String × α)) : List (String × α) :=
  entries.mergeSort fun a b => a.1 ≤ b.1

lemma ordered_map {α β : Type} (f : String → α → β) (entries : List (String × α)) :
    ordered (entries.map fun m => (m.1, f m.1 m.2)) =
      (ordered entries).map fun m => (m.1, f m.1 m.2) := by
  rw [ordered, ordered, List.map_mergeSort]
  intro a _ b _
  rfl

@[simp] lemma mem_ordered {α : Type} {entries : List (String × α)} {m : String × α} :
    m ∈ ordered entries ↔ m ∈ entries := List.mem_mergeSort

/-- Entries with different names are put into strict order. -/
lemma pairwise_ordered {α : Type} {entries : List (String × α)}
    (distinct : (entries.map Prod.fst).Nodup) :
    (ordered entries).Pairwise fun a b => a.1 < b.1 := by
  have sorted : (ordered entries).Pairwise fun a b => a.1 ≤ b.1 := by
    refine (List.pairwise_mergeSort ?_ ?_ entries).imp fun h => by simpa using h
    · intro a b c hab hbc
      simpa using le_trans (by simpa using hab) (by simpa using hbc : b.1 ≤ c.1)
    · intro a b
      simpa using le_total a.1 b.1
  have different : (ordered entries).Pairwise fun a b => a.1 ≠ b.1 := by
    have perm : ((ordered entries).map Prod.fst).Perm (entries.map Prod.fst) :=
      (List.mergeSort_perm entries _).map _
    exact List.pairwise_map.mp (perm.nodup_iff.mpr distinct)
  exact (sorted.and different).imp fun h => lt_of_le_of_ne h.1 h.2

mutual

/-- The files of a tree that are not hidden, in the order in which they are come upon. -/
def listing : FileTree → List (List String × ByteArray)
  | .file content => [([], content)]
  | .directory entries =>
    (ordered (listings entries)).flatMap fun m => m.2.map fun f => (m.1 :: f.1, f.2)
termination_by structural tree => tree

/-- The files of each entry that is not hidden. -/
def listings : List (String × FileTree) → List (String × List (List String × ByteArray))
  | [] => []
  | (name, tree) :: rest =>
    if isShown name then (name, listing tree) :: listings rest else listings rest
termination_by structural entries => entries

end

lemma listings_eq (entries : List (String × FileTree)) :
    listings entries =
      (entries.filter fun m => isShown m.1).map fun m => (m.1, m.2.listing) := by
  induction entries with
  | nil => rfl
  | cons m rest ih =>
    obtain ⟨name, tree⟩ := m
    rw [listings, List.filter_cons, ih]
    split <;> rfl

/-- A directory is walked entry by entry. -/
lemma listing_directory (entries : List (String × FileTree)) :
    (directory entries).listing = (ordered (entries.filter fun m => isShown m.1)).flatMap fun m =>
      m.2.listing.map fun f => (m.1 :: f.1, f.2) := by
  rw [listing, listings_eq, ordered_map fun _ tree => listing tree, List.flatMap_map]

/-- **The files that are come upon are those that are not hidden.** -/
lemma mem_listing_iff {tree : FileTree} {steps : List String} {content : ByteArray} :
    (steps, content) ∈ tree.listing ↔ tree.Holds steps content ∧ Shown steps := by
  induction tree using entries_induction generalizing steps with
  | file own =>
    simp only [listing, List.mem_singleton, Prod.mk.injEq]
    constructor
    · rintro ⟨rfl, rfl⟩
      exact ⟨.file, by simp [Shown]⟩
    · rintro ⟨⟨⟩, -⟩
      exact ⟨rfl, rfl⟩
  | directory entries ih =>
    simp only [listing_directory, List.mem_flatMap, mem_ordered, List.mem_filter, List.mem_map]
    constructor
    · rintro ⟨⟨name, tree⟩, ⟨member, shown⟩, ⟨rest, content⟩, hf, he⟩
      obtain ⟨rfl, rfl⟩ := Prod.mk.inj he
      obtain ⟨held, inside⟩ := (ih _ member).mp hf
      exact ⟨.entry member held, List.forall_mem_cons.mpr ⟨by simpa [isShown] using shown, inside⟩⟩
    · rintro ⟨h, shown⟩
      cases h with
      | @entry _ name tree rest _ member held =>
        obtain ⟨first, inside⟩ := List.forall_mem_cons.mp shown
        exact ⟨(name, tree), ⟨member, by simpa [isShown] using first⟩, (rest, content),
          (ih _ member).mpr ⟨held, inside⟩, rfl⟩

/-- **Files are come upon in the order of their paths**, each once. -/
lemma pairwise_listing {tree : FileTree} (proper : tree.Proper) :
    tree.listing.Pairwise fun f g => f.1 < g.1 := by
  induction tree using entries_induction with
  | file content => simp [listing]
  | directory entries ih =>
    cases proper with
    | directory distinct plain inside =>
      rw [listing_directory, List.pairwise_flatMap]
      constructor
      · intro m hm
        have member := (List.mem_filter.mp (mem_ordered.mp hm)).1
        rw [List.pairwise_map]
        exact (ih m member (inside m member)).imp fun h => List.cons_lt_cons_iff.mpr (.inr ⟨rfl, h⟩)
      · have names : ((entries.filter fun m => isShown m.1).map Prod.fst).Nodup :=
          distinct.sublist (List.filter_sublist.map _)
        refine (pairwise_ordered names).imp fun h f hf g hg => ?_
        obtain ⟨_, _, rfl⟩ := List.mem_map.mp hf
        obtain ⟨_, _, rfl⟩ := List.mem_map.mp hg
        exact List.cons_lt_cons_iff.mpr (.inl h)

end Colloquy.FileTree
