import Colloquy.Prompt.Source

/-!
# Prompt directories

A directory holds prompts in files whose extension is `prompt`; a file whose name begins with an
underscore holds a partial.  Both are named by where they lie in the directory, and they are listed
in the order of their paths.  Hidden entries, whose names begin with a point, are passed over.
-/

namespace Colloquy

/-- What a directory holds. -/
structure PromptFolder where
  prompts : List PromptSource := []
  /-- Names with template sources. -/
  partials : List (String × String) := []
  deriving DecidableEq, Repr

namespace PromptFolder

/-- The extension of prompt files. -/
def fileExtension : String := "prompt"

/-- The contents of one directory and then those of another. -/
def append (a b : PromptFolder) : PromptFolder :=
  ⟨a.prompts ++ b.prompts, a.partials ++ b.partials⟩

/-- A name is that of a hidden entry. -/
def isHidden (name : String) : Bool := name.toList.head? == some '.'

/-- The text of a file under a path. -/
def textOf (path : String) (tree : FileTree) : Except PromptError String :=
  tree.text.mapError (.unreadable path)

/-- What a file holds, from its name, where it lies and its path. -/
def ofFile (name place path : String) (tree : FileTree) : Except PromptError PromptFolder :=
  match Path.splitExtension name with
  | (stem, some extension) =>
    if extension ≠ fileExtension then .ok {}
    else match stem.toList with
      | '_' :: rest => do
        return { partials := [(place ++ String.ofList rest, ← textOf path tree)] }
      | _ => do
        return { prompts := [← PromptSource.parse (place ++ stem) (← textOf path tree)] }
  | (_, none) => .ok {}

/-- Several contents one after the other, in the order of the names under which they were found. -/
def collect (found : List (String × Except PromptError PromptFolder)) :
    Except PromptError PromptFolder :=
  let sorted := found.mergeSort fun a b => a.1 ≤ b.1
  sorted.foldlM (fun acc (_, folder) => return acc.append (← folder)) {}

mutual

/-- What an entry of a directory holds. -/
def ofEntry (name place path : String) : FileTree → Except PromptError PromptFolder
  | .file content => ofFile name place path (.file content)
  | .directory entries => collect (ofEntries (place ++ name ++ "/") path entries)
termination_by structural tree => tree

/-- What the entries of a directory hold, each under its name. -/
def ofEntries (place path : String) :
    List (String × FileTree) → List (String × Except PromptError PromptFolder)
  | [] => []
  | (name, tree) :: rest =>
    if isHidden name then ofEntries place path rest
    else (name, ofEntry name place (Path.join path name) tree) :: ofEntries place path rest
termination_by structural entries => entries

end

/-- What the directory under a path holds. -/
def load (files : Files) (path : String) : Except PromptError PromptFolder := do
  match ← (files path).mapError (.unreadable path) with
  | .file _ => throw (.unreadable path .notDirectory)
  | .directory entries => collect (ofEntries "" path entries)

end PromptFolder

namespace PromptSource

/-- The prompt source in the file under a path, named by the name of the file. -/
def load (files : Files) (path : String) : Except PromptError PromptSource := do
  parse (Path.stem path) (← (files.read path).mapError (.unreadable path))

end PromptSource

end Colloquy
