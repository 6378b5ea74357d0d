import Colloquy.Prompt.Folder
import Colloquy.Proofs.Failure
import Colloquy.Proofs.FileTree
import Colloquy.Proofs.Text

/-!
# Loading a directory

A directory is loaded by walking its tree.  `load_lists` says what this gives: a prompt for each file
whose name ends in `.prompt`, or a partial if the name begins with an underscore, in the order of the
paths and without those that are hidden.  Both are named by the path without extension and underscore.
The name and the variant of a prompt are cut out of this path, and its key puts them together again.
-/

namespace Colloquy

/-! ## Names of files -/

/-- Folders and a stem as they are written in a path. -/
def nameAt (folders : List String) (stem : String) : String :=
  "/".intercalate (folders ++ [stem])

lemma nameAt_cons (folder : String) (folders : List String) (stem : String) :
    nameAt (folder :: folders) stem = folder ++ "/" ++ nameAt folders stem := by
  rw [nameAt, List.cons_append, String.intercalate_cons_of_ne_nil (by simp), nameAt]

/-- Steps without slashes can be read off the path that they make up. -/
lemma nameAt_inj {folders folders' : List String} {stem stem' : String}
    (h : ∀ step ∈ folders ++ [stem], '/' ∉ step.toList)
    (h' : ∀ step ∈ folders' ++ [stem'], '/' ∉ step.toList)
    (same : nameAt folders stem = nameAt folders' stem') : folders = folders' ∧ stem = stem' := by
  have steps {folders : List String} {stem : String}
      (h : ∀ step ∈ folders ++ [stem], '/' ∉ step.toList) :
      (nameAt folders stem).toList.splitOn '/' = (folders ++ [stem]).map String.toList := by
    rw [nameAt, String.toList_intercalate]
    exact List.splitOn_intercalate '/' (List.forall_mem_map.mpr h) (by simp)
  have chars : (folders ++ [stem]).map String.toList = (folders' ++ [stem']).map String.toList := by
    rw [← steps h, ← steps h', same]
  have paths := List.map_injective_iff.mpr (fun _ _ => String.toList_injective) chars
  obtain ⟨hf, hs⟩ := List.append_inj' paths rfl
  exact ⟨hf, (List.cons.inj hs).1⟩

namespace Path

lemma splitExtension_append {stem extension : String} (visible : stem ≠ "")
    (h : '.' ∉ extension.toList) :
    splitExtension (stem ++ "." ++ extension) = (stem, some extension) := by
  have cut : Text.cutAtLast? (· == '.') (stem ++ "." ++ extension).toList =
      some (stem.toList, extension.toList) := by
    have := Text.cutAtLast?_append_cons h stem.toList
    simpa using this
  rw [splitExtension, cut]
  cases hs : stem.toList with
  | nil => exact absurd (by simpa using hs) visible
  | cons c rest => simp [← hs]

lemma eq_of_splitExtension {name stem extension : String}
    (h : splitExtension name = (stem, some extension)) : name = stem ++ "." ++ extension := by
  unfold splitExtension at h
  split at h
  · cases h
  · rename_i hc
    obtain ⟨rfl, he⟩ := Prod.mk.inj h
    obtain rfl := Option.some.inj he
    apply String.toList_injective
    simp [(Text.eq_append_of_cutAtLast? hc).1]
  · cases h

end Path

/-! ## Keys of prompts -/

namespace PromptSource

/-- The key that the name and the variant of a path make up is the path. -/
lemma promptKey_splitName (path : List Char) :
    promptKey (splitName path).1 (splitName path).2 = String.ofList path := by
  apply String.toList_injective
  unfold splitName
  cases hl : Text.cutAtLast? (· == '/') path with
  | none =>
    cases hc : Text.cutAt? (· == '.') path with
    | none => simp [hc, promptKey]
    | some found =>
      obtain ⟨rfl, -⟩ := Text.cutAt?_eq_some_iff.mp hc
      simp [hc, promptKey, toString]
  | some found =>
    obtain ⟨folder, stem⟩ := found
    obtain ⟨rfl, -⟩ := Text.eq_append_of_cutAtLast? hl
    cases hc : Text.cutAt? (· == '.') stem with
    | none => simp [hc, promptKey]
    | some found =>
      obtain ⟨rfl, -⟩ := Text.cutAt?_eq_some_iff.mp hc
      simp [hc, promptKey, toString]

/-- The frontmatter sets neither a name nor a variant. -/
def Unnamed (s : PromptSource) : Prop := s.frontmatter.name = none ∧ s.frontmatter.variant = none

/-- A source is named by its frontmatter, and otherwise by its path. -/
lemma exists_of_parse {path text : String} {s : PromptSource} (h : parse path text = .ok s) :
    ∃ frontmatter : Frontmatter, s =
      { name := frontmatter.name.getD (splitName path.toList).1
        variant := frontmatter.variant.or (splitName path.toList).2
        frontmatter
        template := String.ofList (split text.toList).2 } := by
  unfold parse at h
  cases hs : split text.toList with
  | mk front body =>
    rw [hs] at h
    cases front with
    | none => exact ⟨{}, (Except.ok.inj h).symm⟩
    | some front =>
      obtain ⟨frontmatter, -, h⟩ := exists_of_bind_eq_ok h
      exact ⟨frontmatter, (Except.ok.inj h).symm⟩

/-- A prompt without a name and a variant of its own has the path for its key. -/
lemma promptKey_of_parse {path text : String} {s : PromptSource} (h : parse path text = .ok s)
    (unnamed : s.Unnamed) : promptKey s.name s.variant = path := by
  obtain ⟨frontmatter, rfl⟩ := exists_of_parse h
  obtain ⟨name, variant⟩ := unnamed
  dsimp only at name variant ⊢
  rw [name, variant, Option.getD_none, Option.none_or, promptKey_splitName, String.ofList_toList]

end PromptSource

namespace PromptFolder

open FileTree

/-! ## One file -/

/-- What a file gives: a prompt, a partial, or nothing. -/
inductive Yields (name place : String) (content : ByteArray) : PromptFolder → Prop
  | prompt {stem text : String} {source : PromptSource} (named : name = stem ++ ".prompt")
      (plain : stem.toList.head? ≠ some '_') (read : String.fromUTF8? content = some text)
      (parsed : PromptSource.parse (place ++ stem) text = .ok source) :
      Yields name place content ⟨[source], []⟩
  | part {stem text : String} (named : name = "_" ++ stem ++ ".prompt")
      (read : String.fromUTF8? content = some text) :
      Yields name place content ⟨[], [(place ++ stem, text)]⟩
  | nothing (named : ∀ stem, name ≠ stem ++ ".prompt") : Yields name place content ⟨[], []⟩

lemma textOf_eq_ok_iff {path text : String} {content : ByteArray} :
    textOf path (.file content) = .ok text ↔ String.fromUTF8? content = some text := by
  rw [textOf, FileTree.text]
  cases String.fromUTF8? content with
  | none => simp [Except.mapError]
  | some t => simp [Except.mapError]

lemma stem_inj {stem stem' : String} (h : stem ++ ".prompt" = stem' ++ ".prompt") :
    stem = stem' := by
  have chars := congrArg String.toList h
  rw [String.toList_append, String.toList_append] at chars
  exact String.toList_injective (List.append_cancel_right chars)

lemma splitExtension_prompt {name stem : String} (shown : name.toList.head? ≠ some '.')
    (named : name = stem ++ ".prompt") : Path.splitExtension name = (stem, some fileExtension) := by
  have visible : stem ≠ "" := by
    rintro rfl
    exact shown (by simp [named])
  have parts : name = stem ++ "." ++ fileExtension := by
    rw [named, String.append_assoc]
    rfl
  rw [parts]
  exact Path.splitExtension_append visible (by decide)

lemma eq_of_splitExtension_prompt {name stem : String}
    (h : Path.splitExtension name = (stem, some fileExtension)) : name = stem ++ ".prompt" := by
  rw [Path.eq_of_splitExtension h, String.append_assoc]
  rfl

/-- **What the kinds of files give.**  A file without the extension gives nothing, and others are
read, as a partial if the name begins with an underscore. -/
lemma ofFile_cases {name : String} (place path : String) (content : ByteArray)
    (shown : name.toList.head? ≠ some '.') :
    (∃ stem, name = stem ++ ".prompt" ∧ stem.toList.head? ≠ some '_' ∧
      ofFile name place path (.file content) = do
        let text ← textOf path (.file content)
        let source ← PromptSource.parse (place ++ stem) text
        return ⟨[source], []⟩) ∨
    (∃ stem, name = "_" ++ stem ++ ".prompt" ∧
      ofFile name place path (.file content) = do
        let text ← textOf path (.file content)
        return ⟨[], [(place ++ stem, text)]⟩) ∨
    ((∀ stem, name ≠ stem ++ ".prompt") ∧ ofFile name place path (.file content) = .ok {}) := by
  rcases hs : Path.splitExtension name with ⟨stem, _ | extension⟩
  · refine .inr (.inr ⟨fun stem' named => ?_, by simp [ofFile, hs]⟩)
    cases hs.symm.trans (splitExtension_prompt shown named)
  · by_cases he : extension = fileExtension
    · subst he
      have named := eq_of_splitExtension_prompt hs
      by_cases hu : stem.toList.head? = some '_'
      · obtain ⟨rest, hr⟩ := List.head?_eq_some_iff.mp hu
        refine .inr (.inl ⟨String.ofList rest, ?_, by simp [ofFile, hs, hr]⟩)
        apply String.toList_injective
        simp [named, hr]
      · refine .inl ⟨stem, named, hu, ?_⟩
        simp only [ofFile, hs, ne_eq, not_true_eq_false, if_false]
        split
        · rename_i hr
          simp [hr] at hu
        · rfl
    · refine .inr (.inr ⟨fun stem' named => he ?_, by simp [ofFile, hs, he]⟩)
      have same := hs.symm.trans (splitExtension_prompt shown named)
      exact Option.some.inj (Prod.mk.inj same).2

lemma yields_of_ofFile {name place path : String} {content : ByteArray} {folder : PromptFolder}
    (shown : name.toList.head? ≠ some '.')
    (h : ofFile name place path (.file content) = .ok folder) : Yields name place content folder := by
  rcases ofFile_cases place path content shown with
    ⟨stem, named, plain, he⟩ | ⟨stem, named, he⟩ | ⟨named, he⟩
  · rw [he] at h
    obtain ⟨text, read, h⟩ := exists_of_bind_eq_ok h
    obtain ⟨source, parsed, h⟩ := exists_of_bind_eq_ok h
    obtain rfl := Except.ok.inj h
    exact .prompt named plain (textOf_eq_ok_iff.mp read) parsed
  · rw [he] at h
    obtain ⟨text, read, h⟩ := exists_of_bind_eq_ok h
    obtain rfl := Except.ok.inj h
    exact .part named (textOf_eq_ok_iff.mp read)
  · obtain rfl := Except.ok.inj (he.symm.trans h)
    exact .nothing named

lemma exists_ofFile_eq_ok {name place : String} {content : ByteArray} (path : String)
    (shown : name.toList.head? ≠ some '.')
    (prompts : ∀ stem, name = stem ++ ".prompt" → stem.toList.head? ≠ some '_' →
      ∃ text source, String.fromUTF8? content = some text ∧
        PromptSource.parse (place ++ stem) text = .ok source)
    (partials : ∀ stem, name = "_" ++ stem ++ ".prompt" →
      ∃ text, String.fromUTF8? content = some text) :
    ∃ folder, ofFile name place path (.file content) = .ok folder := by
  rcases ofFile_cases place path content shown with
    ⟨stem, named, plain, he⟩ | ⟨stem, named, he⟩ | ⟨named, he⟩
  · obtain ⟨text, source, read, parsed⟩ := prompts stem named plain
    rw [he, textOf_eq_ok_iff.mpr read]
    exact ⟨⟨[source], []⟩, by simp [bind, Except.bind, parsed, pure, Except.pure]⟩
  · obtain ⟨text, read⟩ := partials stem named
    rw [he, textOf_eq_ok_iff.mpr read]
    exact ⟨_, rfl⟩
  · exact ⟨{}, he⟩

lemma Yields.length_le {name place : String} {content : ByteArray} {folder : PromptFolder}
    (h : Yields name place content folder) :
    folder.prompts.length ≤ 1 ∧ folder.partials.length ≤ 1 := by
  cases h <;> simp

lemma Yields.mem_prompts_iff {name place : String} {content : ByteArray} {folder : PromptFolder}
    (h : Yields name place content folder) {source : PromptSource} :
    source ∈ folder.prompts ↔ ∃ stem text, name = stem ++ ".prompt" ∧
      stem.toList.head? ≠ some '_' ∧ String.fromUTF8? content = some text ∧
        PromptSource.parse (place ++ stem) text = .ok source := by
  cases h with
  | @prompt stem text own named plain read parsed =>
    rw [List.mem_singleton]
    constructor
    · rintro rfl
      exact ⟨stem, text, named, plain, read, parsed⟩
    · rintro ⟨stem', text', named', -, read', parsed'⟩
      obtain rfl := stem_inj (named.symm.trans named')
      obtain rfl := Option.some.inj (read.symm.trans read')
      exact (Except.ok.inj (parsed.symm.trans parsed')).symm
  | @part stem text named read =>
    refine iff_of_false List.not_mem_nil ?_
    rintro ⟨stem', _, named', plain, -⟩
    obtain rfl := stem_inj (named.symm.trans named')
    exact plain (by simp)
  | nothing named =>
    refine iff_of_false List.not_mem_nil ?_
    rintro ⟨stem, _, named', -⟩
    exact named stem named'

lemma Yields.mem_partials_iff {name place : String} {content : ByteArray} {folder : PromptFolder}
    (h : Yields name place content folder) {part : String × String} :
    part ∈ folder.partials ↔ ∃ stem, name = "_" ++ stem ++ ".prompt" ∧
      part.1 = place ++ stem ∧ String.fromUTF8? content = some part.2 := by
  cases h with
  | @prompt stem text own named plain read parsed =>
    refine iff_of_false List.not_mem_nil ?_
    rintro ⟨stem', named', -⟩
    obtain rfl := stem_inj (named.symm.trans named')
    exact plain (by simp)
  | @part stem text named read =>
    rw [List.mem_singleton]
    constructor
    · rintro rfl
      exact ⟨stem, named, rfl, read⟩
    · rintro ⟨stem', named', hp, read'⟩
      have stems : "_" ++ stem = "_" ++ stem' := stem_inj (named.symm.trans named')
      obtain rfl : stem = stem' := by simpa using stems
      exact Prod.ext hp (Option.some.inj (read'.symm.trans read))
  | nothing named =>
    refine iff_of_false List.not_mem_nil ?_
    rintro ⟨stem, named', -⟩
    exact named _ named'

/-! ## Walking a directory -/

/-- Several contents one after the other. -/
def concat (folders : List PromptFolder) : PromptFolder :=
  ⟨folders.flatMap prompts, folders.flatMap partials⟩

lemma concat_flatMap {α : Type} (f : α → List PromptFolder) (as : List α) :
    concat (as.flatMap f) = concat (as.map fun a => concat (f a)) := by
  simp [concat, List.flatMap_assoc, List.flatMap_map]

lemma collect_ok (rows : List (String × PromptFolder)) :
    collect (rows.map fun r => (r.1, .ok r.2)) = .ok (concat ((ordered rows).map Prod.snd)) := by
  have folded (rows : List (String × PromptFolder)) (acc : PromptFolder) :
      (rows.map fun r => (r.1, (Except.ok r.2 : Except PromptError PromptFolder))).foldlM
        (fun acc r => return acc.append (← r.2)) acc =
          .ok (acc.append (concat (rows.map Prod.snd))) := by
    induction rows generalizing acc with
    | nil => simp [concat, append, pure, Except.pure]
    | cons r rows ih =>
      rw [List.map_cons, List.foldlM_cons]
      exact (ih _).trans (by simp [concat, append])
  have sorted := ordered_map (fun _ folder => (Except.ok folder : Except PromptError PromptFolder))
    rows
  rw [collect, ← ordered, sorted]
  exact folded (ordered rows) {}

/-- What the file at the end of some steps holds. -/
def ofSteps (place path : String) : List String → ByteArray → Except PromptError PromptFolder
  | [], _ => .ok {}
  | [name], content => ofFile name place (Path.join path name) (.file content)
  | name :: steps, content => ofSteps (place ++ name ++ "/") (Path.join path name) steps content

/-- What a file holds that can be read. -/
def contentsAt (place path : String) (f : List String × ByteArray) : PromptFolder :=
  (ofSteps place path f.1 f.2).toOption.getD {}

/-- All files of a tree can be read. -/
def Readable (place path : String) (files : List (List String × ByteArray)) : Prop :=
  ∀ f ∈ files, ∃ folder, ofSteps place path f.1 f.2 = .ok folder

lemma ofEntries_eq (place path : String) (entries : List (String × FileTree)) :
    ofEntries place path entries = (entries.filter fun m => isShown m.1).map fun m =>
      (m.1, ofEntry m.1 place (Path.join path m.1) m.2) := by
  induction entries with
  | nil => rfl
  | cons m rest ih =>
    obtain ⟨name, tree⟩ := m
    have shown : isShown name = !isHidden name := rfl
    rw [ofEntries, List.filter_cons, ih, shown]
    cases isHidden name <;> rfl

/-- A directory holds what its files hold, if what its entries hold is known. -/
lemma collect_ofEntries {place path : String} {entries : List (String × FileTree)}
    (readable : Readable place path (directory entries).listing)
    (inside : ∀ m ∈ entries, Readable place path (m.2.listing.map fun f => (m.1 :: f.1, f.2)) →
      ofEntry m.1 place (Path.join path m.1) m.2 = .ok (concat
        (m.2.listing.map fun f => contentsAt place path (m.1 :: f.1, f.2)))) :
    collect (ofEntries place path entries) =
      .ok (concat ((directory entries).listing.map (contentsAt place path))) := by
  have rows : ofEntries place path entries =
      ((entries.filter fun m => isShown m.1).map fun m => (m.1, concat
        (m.2.listing.map fun f => contentsAt place path (m.1 :: f.1, f.2)))).map
          fun r => (r.1, .ok r.2) := by
    rw [ofEntries_eq, List.map_map]
    refine List.map_congr_left fun m hm => ?_
    have own : Readable place path (m.2.listing.map fun f => (m.1 :: f.1, f.2)) := by
      intro f hf
      refine readable f ?_
      rw [listing_directory]
      exact List.mem_flatMap_of_mem (mem_ordered.mpr hm) hf
    rw [inside m (List.mem_filter.mp hm).1 own]
    rfl
  rw [rows, collect_ok, ordered_map fun name (tree : FileTree) => concat
    (tree.listing.map fun f => contentsAt place path (name :: f.1, f.2))]
  rw [listing_directory, List.map_flatMap, concat_flatMap]
  simp [List.map_map, Function.comp_def]

/-- An entry holds what its files hold. -/
lemma ofEntry_eq (tree : FileTree) (name place path : String)
    (readable : Readable place path (tree.listing.map fun f => (name :: f.1, f.2))) :
    ofEntry name place (Path.join path name) tree =
      .ok (concat (tree.listing.map fun f => contentsAt place path (name :: f.1, f.2))) := by
  induction tree using entries_induction generalizing name place path with
  | file content =>
    obtain ⟨folder, h⟩ := readable ([name], content) (by simp [listing])
    rw [ofSteps] at h
    simp [ofEntry, listing, contentsAt, ofSteps, h, concat, Except.toOption]
  | directory entries ih =>
    -- The files of the directory are one step further in.
    have further : ∀ f ∈ (directory entries).listing,
        ofSteps place path (name :: f.1) f.2 =
          ofSteps (place ++ name ++ "/") (Path.join path name) f.1 f.2 := by
      intro f hf
      rw [listing_directory] at hf
      obtain ⟨m, -, hf⟩ := List.mem_flatMap.mp hf
      obtain ⟨g, -, rfl⟩ := List.mem_map.mp hf
      rfl
    have inner : Readable (place ++ name ++ "/") (Path.join path name)
        (directory entries).listing := by
      intro f hf
      obtain ⟨folder, h⟩ := readable _ (List.mem_map_of_mem hf)
      exact ⟨folder, (further f hf).symm.trans h⟩
    rw [ofEntry, collect_ofEntries inner fun m hm => ih m hm _ _ _]
    refine congrArg (fun folders => Except.ok (concat folders)) (List.map_congr_left fun f hf => ?_)
    rw [contentsAt, contentsAt, further f hf]

/-! ## What is listed -/

/-- There is a prompt file in the tree: its name without the extension does not begin with an
underscore, and nothing on the way to it is hidden. -/
structure HoldsPrompt (tree : FileTree) (folders : List String) (stem : String)
    (content : ByteArray) : Prop where
  held : tree.Holds (folders ++ [stem ++ ".prompt"]) content
  shown : Shown (folders ++ [stem ++ ".prompt"])
  plain : stem.toList.head? ≠ some '_'

/-- There is a file with a partial in the tree. -/
structure HoldsPartial (tree : FileTree) (folders : List String) (stem : String)
    (content : ByteArray) : Prop where
  held : tree.Holds (folders ++ ["_" ++ stem ++ ".prompt"]) content
  shown : Shown (folders ++ ["_" ++ stem ++ ".prompt"])

/-- The prompts are those of the prompt files, each under its path: in the order of the paths, each
once, and with keys of their own unless they set names. -/
structure ListsPrompts (tree : FileTree) (prompts : List PromptSource)
    (listed : List (List String × PromptSource)) : Prop where
  prompts_eq : listed.map Prod.snd = prompts
  ordered : listed.Pairwise fun a b => a.1 < b.1
  mem_iff : ∀ steps source, (steps, source) ∈ listed ↔ ∃ folders stem content text,
    HoldsPrompt tree folders stem content ∧ steps = folders ++ [stem ++ ".prompt"] ∧
      String.fromUTF8? content = some text ∧
        PromptSource.parse (nameAt folders stem) text = .ok source
  key : ∀ folders stem source, (folders ++ [stem ++ ".prompt"], source) ∈ listed →
    source.Unnamed → promptKey source.name source.variant = nameAt folders stem
  distinct : ∀ a ∈ listed, ∀ b ∈ listed, a.2.Unnamed → b.2.Unnamed →
    promptKey a.2.name a.2.variant = promptKey b.2.name b.2.variant → a.1 = b.1

/-- The partials are those of the files with partials, with their whole texts. -/
structure ListsPartials (tree : FileTree) (partials : List (String × String))
    (listed : List (List String × String × String)) : Prop where
  partials_eq : listed.map Prod.snd = partials
  ordered : listed.Pairwise fun a b => a.1 < b.1
  mem_iff : ∀ steps name text, (steps, name, text) ∈ listed ↔ ∃ folders stem content,
    HoldsPartial tree folders stem content ∧ steps = folders ++ ["_" ++ stem ++ ".prompt"] ∧
      name = nameAt folders stem ∧ String.fromUTF8? content = some text
  distinct : ∀ a ∈ listed, ∀ b ∈ listed, a.2.1 = b.2.1 → a.1 = b.1

/-- The steps to a file end with its name, and what stands before it makes up its place. -/
lemma exists_ofSteps (folders : List String) (name place path : String) (content : ByteArray) :
    ∃ place' path', ofSteps place path (folders ++ [name]) content =
        ofFile name place' path' (.file content) ∧
      ∀ stem, place' ++ stem = place ++ nameAt folders stem := by
  induction folders generalizing place path with
  | nil => exact ⟨place, _, rfl, fun stem => rfl⟩
  | cons folder folders ih =>
    obtain ⟨place', path', he, hp⟩ := ih (place ++ folder ++ "/") (Path.join path folder)
    refine ⟨place', path', ?_, fun stem => ?_⟩
    · rw [← he]
      cases folders <;> rfl
    · rw [hp, nameAt_cons]
      simp only [String.append_assoc]

lemma exists_of_mem_listing {entries : List (String × FileTree)} {f : List String × ByteArray}
    (h : f ∈ (directory entries).listing) : ∃ folders name, f.1 = folders ++ [name] ∧
      name.toList.head? ≠ some '.' := by
  obtain ⟨held, shown⟩ := mem_listing_iff.mp (show (f.1, f.2) ∈ _ from h)
  rcases List.eq_nil_or_concat' f.1 with he | ⟨folders, name, he⟩
  · rw [he] at held
    cases held
  · exact ⟨folders, name, he, shown name (by simp [he])⟩

section Listing

variable {entries : List (String × FileTree)}

/-- A directory can be read if its prompt files and partials can. -/
lemma readable_listing (path : String)
    (prompts : ∀ folders stem content, HoldsPrompt (directory entries) folders stem content →
      ∃ text source, String.fromUTF8? content = some text ∧
        PromptSource.parse (nameAt folders stem) text = .ok source)
    (partials : ∀ folders stem content, HoldsPartial (directory entries) folders stem content →
      ∃ text, String.fromUTF8? content = some text) :
    Readable "" path (directory entries).listing := by
  rintro ⟨steps, content⟩ hf
  obtain ⟨held, shown⟩ := mem_listing_iff.mp hf
  obtain ⟨folders, name, he, visible⟩ := exists_of_mem_listing hf
  obtain rfl : steps = folders ++ [name] := he
  obtain ⟨place, path', hs, hp⟩ := exists_ofSteps folders name "" path content
  rw [hs]
  refine exists_ofFile_eq_ok path' visible ?_ ?_
  · rintro stem rfl plain
    rw [hp, String.empty_append]
    exact prompts folders stem content ⟨held, shown, plain⟩
  · rintro stem rfl
    exact partials folders stem content ⟨held, shown⟩

/-- What a file that is come upon gives. -/
lemma yields_contentsAt {path : String} (readable : Readable "" path (directory entries).listing)
    {f : List String × ByteArray} (h : f ∈ (directory entries).listing) :
    ∃ folders name place, f.1 = folders ++ [name] ∧ (∀ stem, place ++ stem = nameAt folders stem) ∧
      Yields name place f.2 (contentsAt "" path f) := by
  obtain ⟨folders, name, he, visible⟩ := exists_of_mem_listing h
  obtain ⟨place, path', hs, hp⟩ := exists_ofSteps folders name "" path f.2
  obtain ⟨folder, hr⟩ := readable f h
  refine ⟨folders, name, place, he, fun stem => by rw [hp, String.empty_append], ?_⟩
  rw [contentsAt, hr]
  rw [he, hs] at hr
  exact yields_of_ofFile visible hr

/-- What files give is listed in their order, if none gives more than one thing. -/
lemma pairwise_listed {α : Type} {files : List (List String × ByteArray)}
    (ordered : files.Pairwise fun f g => f.1 < g.1) {given : List String × ByteArray → List α}
    (single : ∀ f ∈ files, (given f).length ≤ 1) :
    (files.flatMap fun f => (given f).map fun a => (f.1, a)).Pairwise fun a b => a.1 < b.1 := by
  rw [List.pairwise_flatMap]
  constructor
  · intro f hf
    have := single f hf
    match hg : given f with
    | [] => simp
    | [a] => simp
    | _ :: _ :: _ => simp [hg] at this
  · refine ordered.imp fun h a ha b hb => ?_
    obtain ⟨_, _, rfl⟩ := List.mem_map.mp ha
    obtain ⟨_, _, rfl⟩ := List.mem_map.mp hb
    exact h

lemma mem_listed_iff {α : Type} {files : List (List String × ByteArray)}
    {given : List String × ByteArray → List α} {steps : List String} {a : α} :
    (steps, a) ∈ files.flatMap (fun f => (given f).map fun a => (f.1, a)) ↔
      ∃ content, (steps, content) ∈ files ∧ a ∈ given (steps, content) := by
  simp only [List.mem_flatMap, List.mem_map, Prod.mk.injEq]
  constructor
  · rintro ⟨⟨_, content⟩, hf, a, ha, rfl, rfl⟩
    exact ⟨content, hf, ha⟩
  · rintro ⟨content, hf, ha⟩
    exact ⟨(steps, content), hf, a, ha, rfl, rfl⟩

/-- The prompts that the files of a directory give, each under the steps to its file. -/
def listedPrompts (path : String) (entries : List (String × FileTree)) :
    List (List String × PromptSource) :=
  (directory entries).listing.flatMap fun f => (contentsAt "" path f).prompts.map fun s => (f.1, s)

/-- The partials that the files of a directory give. -/
def listedPartials (path : String) (entries : List (String × FileTree)) :
    List (List String × String × String) :=
  (directory entries).listing.flatMap fun f => (contentsAt "" path f).partials.map fun p => (f.1, p)

lemma mem_listedPrompts_iff {path : String}
    (readable : Readable "" path (directory entries).listing) {steps : List String}
    {source : PromptSource} :
    (steps, source) ∈ listedPrompts path entries ↔ ∃ folders stem content text,
      HoldsPrompt (directory entries) folders stem content ∧
        steps = folders ++ [stem ++ ".prompt"] ∧ String.fromUTF8? content = some text ∧
          PromptSource.parse (nameAt folders stem) text = .ok source := by
  rw [listedPrompts, mem_listed_iff]
  constructor
  · rintro ⟨content, hf, hs⟩
    obtain ⟨folders, name, place, he, hp, yields⟩ := yields_contentsAt readable hf
    obtain ⟨stem, text, rfl, plain, read, parsed⟩ := yields.mem_prompts_iff.mp hs
    obtain rfl : steps = folders ++ [stem ++ ".prompt"] := he
    obtain ⟨held, shown⟩ := mem_listing_iff.mp hf
    exact ⟨folders, stem, content, text, ⟨held, shown, plain⟩, rfl, read, hp stem ▸ parsed⟩
  · rintro ⟨folders, stem, content, text, file, rfl, read, parsed⟩
    have hf := mem_listing_iff.mpr ⟨file.held, file.shown⟩
    obtain ⟨folders', name, place, he, hp, yields⟩ := yields_contentsAt readable hf
    obtain ⟨rfl, hn⟩ := List.append_inj' he rfl
    obtain rfl := (List.cons.inj hn).1
    rw [← hp] at parsed
    exact ⟨content, hf, yields.mem_prompts_iff.mpr ⟨stem, text, rfl, file.plain, read, parsed⟩⟩

lemma mem_listedPartials_iff {path : String}
    (readable : Readable "" path (directory entries).listing) {steps : List String}
    {name text : String} :
    (steps, name, text) ∈ listedPartials path entries ↔ ∃ folders stem content,
      HoldsPartial (directory entries) folders stem content ∧
        steps = folders ++ ["_" ++ stem ++ ".prompt"] ∧ name = nameAt folders stem ∧
          String.fromUTF8? content = some text := by
  rw [listedPartials, mem_listed_iff]
  constructor
  · rintro ⟨content, hf, hs⟩
    obtain ⟨folders, _, place, he, hp, yields⟩ := yields_contentsAt readable hf
    obtain ⟨stem, rfl, hn, read⟩ := yields.mem_partials_iff.mp hs
    obtain rfl : steps = folders ++ ["_" ++ stem ++ ".prompt"] := he
    obtain ⟨held, shown⟩ := mem_listing_iff.mp hf
    exact ⟨folders, stem, content, ⟨held, shown⟩, rfl, hn.trans (hp stem), read⟩
  · rintro ⟨folders, stem, content, file, rfl, rfl, read⟩
    have hf := mem_listing_iff.mpr ⟨file.held, file.shown⟩
    obtain ⟨folders', _, place, he, hp, yields⟩ := yields_contentsAt readable hf
    obtain ⟨rfl, hn⟩ := List.append_inj' he rfl
    obtain rfl := (List.cons.inj hn).1
    exact ⟨content, hf, yields.mem_partials_iff.mpr ⟨stem, rfl, (hp stem).symm, read⟩⟩

/-- What a file is named by has no slashes in its steps. -/
lemma slash_notMem_of_holds {tree : FileTree} (proper : tree.Proper) {folders : List String}
    {name stem : String} {content : ByteArray} (h : tree.Holds (folders ++ [name]) content)
    (part : stem.toList ⊆ name.toList) : ∀ step ∈ folders ++ [stem], '/' ∉ step.toList := by
  intro step hs
  have inside := h.slash_notMem proper
  rcases List.mem_append.mp hs with hs | hs
  · exact inside step (List.mem_append_left _ hs)
  · obtain rfl := List.mem_singleton.mp hs
    exact fun hm => inside name (List.mem_append_right _ List.mem_cons_self) (part hm)

/-- Files of a proper tree are told apart by what they are named by. -/
lemma eq_of_nameAt {tree : FileTree} (proper : tree.Proper) {folders folders' : List String}
    {name name' stem stem' : String} {content content' : ByteArray}
    (h : tree.Holds (folders ++ [name]) content) (h' : tree.Holds (folders' ++ [name']) content')
    (part : stem.toList ⊆ name.toList) (part' : stem'.toList ⊆ name'.toList)
    (same : nameAt folders stem = nameAt folders' stem') : folders = folders' ∧ stem = stem' :=
  nameAt_inj (slash_notMem_of_holds proper h part) (slash_notMem_of_holds proper h' part') same

lemma listsPrompts {path : String} (proper : (directory entries).Proper)
    (readable : Readable "" path (directory entries).listing) :
    ListsPrompts (directory entries)
      (concat ((directory entries).listing.map (contentsAt "" path))).prompts
      (listedPrompts path entries) where
  prompts_eq := by simp [concat, listedPrompts, List.map_flatMap, List.flatMap_map, Function.comp_def]
  ordered := pairwise_listed (pairwise_listing proper) fun f hf => by
    obtain ⟨_, _, _, _, _, yields⟩ := yields_contentsAt readable hf
    exact yields.length_le.1
  mem_iff _ _ := mem_listedPrompts_iff readable
  key folders stem source h unnamed := by
    obtain ⟨_, stem', _, _, -, he, -, parsed⟩ := (mem_listedPrompts_iff readable).mp h
    obtain ⟨rfl, hn⟩ := List.append_inj' he rfl
    obtain rfl := stem_inj (List.cons.inj hn).1
    exact PromptSource.promptKey_of_parse parsed unnamed
  distinct := by
    rintro ⟨_, source⟩ ha ⟨_, source'⟩ hb unnamed unnamed' same
    obtain ⟨folders, stem, _, _, file, rfl, -, parsed⟩ := (mem_listedPrompts_iff readable).mp ha
    obtain ⟨folders', stem', _, _, file', rfl, -, parsed'⟩ := (mem_listedPrompts_iff readable).mp hb
    rw [PromptSource.promptKey_of_parse parsed unnamed,
      PromptSource.promptKey_of_parse parsed' unnamed'] at same
    obtain ⟨rfl, rfl⟩ := eq_of_nameAt proper file.held file'.held (by simp) (by simp) same
    rfl

lemma listsPartials {path : String} (proper : (directory entries).Proper)
    (readable : Readable "" path (directory entries).listing) :
    ListsPartials (directory entries)
      (concat ((directory entries).listing.map (contentsAt "" path))).partials
      (listedPartials path entries) where
  partials_eq := by
    simp [concat, listedPartials, List.map_flatMap, List.flatMap_map, Function.comp_def]
  ordered := pairwise_listed (pairwise_listing proper) fun f hf => by
    obtain ⟨_, _, _, _, _, yields⟩ := yields_contentsAt readable hf
    exact yields.length_le.2
  mem_iff _ _ _ := mem_listedPartials_iff readable
  distinct := by
    rintro ⟨_, name, _⟩ ha ⟨_, name', _⟩ hb same
    obtain ⟨folders, stem, _, file, rfl, rfl, -⟩ := (mem_listedPartials_iff readable).mp ha
    obtain ⟨folders', stem', _, file', rfl, rfl, -⟩ := (mem_listedPartials_iff readable).mp hb
    obtain ⟨rfl, rfl⟩ := eq_of_nameAt proper file.held file'.held (by simp) (by simp) same
    rfl

end Listing

/-- A variant of a prompt and a partial below a folder whose name has a point, and a hidden folder
with a file that is no text. -/
def triageEntries : List (String × FileTree) :=
  [("v1.2", .directory
      [("triage.brief.prompt", .file "Hi".toUTF8), ("_card.prompt", .file "Card".toUTF8)]),
    (".git", .directory [("old.prompt", .file ⟨#[0xff]⟩)])]

lemma of_holds_triage {steps : List String} {content : ByteArray}
    (h : (directory triageEntries).Holds steps content) (shown : Shown steps) :
    (steps = ["v1.2"] ++ ["triage.brief" ++ ".prompt"] ∧ content = "Hi".toUTF8) ∨
      (steps = ["v1.2"] ++ ["_" ++ "card" ++ ".prompt"] ∧ content = "Card".toUTF8) := by
  have listed : ∃ inner, ((content = "Hi".toUTF8 ∧ ["triage.brief.prompt"] = inner) ∨
      (content = "Card".toUTF8 ∧ ["_card.prompt"] = inner)) ∧ "v1.2" :: inner = steps := by
    simpa [listing, triageEntries, listings, isShown] using mem_listing_iff.mpr ⟨h, shown⟩
  obtain ⟨_, ⟨rfl, rfl⟩ | ⟨rfl, rfl⟩, rfl⟩ := listed
  · exact .inl ⟨rfl, rfl⟩
  · exact .inr ⟨rfl, rfl⟩

lemma fromUTF8?_toUTF8 (s : String) : String.fromUTF8? s.toUTF8 = some s := by
  simp only [String.fromUTF8?, Option.dite_none_right_eq_some]
  exact ⟨s.isValidUTF8, rfl⟩

end PromptFolder

end Colloquy
