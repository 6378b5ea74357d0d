import Colloquy.Text.Cut

/-!
# Files and directories

A directory tree as a value, so that what is read from files can be computed and reasoned about
without any files.  A path is followed step by step from the directory at the top; a path that
begins with a slash, or that leads out of the tree, finds nothing.  Whoever reads gets a function
from paths to what is found under them, of which a tree is one and the entries read from a disk are
another.
-/

namespace Colloquy

/-- Why a file or a directory cannot be read. -/
inductive ReadError where
  | notFound
  | isDirectory
  | notDirectory
  | denied
  /-- The bytes are no text. -/
  | notText
  /-- A reason that only the system of files knows. -/
  | failed (reason : String)
  deriving DecidableEq, Repr

def ReadError.message : ReadError → String
  | notFound => "No such file or directory (os error 2)"
  | isDirectory => "Is a directory (os error 21)"
  | notDirectory => "Not a directory (os error 20)"
  | denied => "Permission denied (os error 13)"
  | notText => "stream did not contain valid UTF-8"
  | failed reason => reason

/-! ## Paths -/

namespace Path

/-- The steps of a path, as they are written. -/
def steps (path : String) : List String :=
  (Text.pieces (· == '/') path.toList).map String.ofList

/-- What a path names in its directory.  Empty steps and steps that stay in place are passed
over. -/
def fileName? (path : String) : Option String :=
  match ((steps path).filter fun s => s != "" && s != ".").getLast? with
  | some ".." => none
  | name => name

/-- A name without its extension, and the extension.  A point at the start of a name begins none. -/
def splitExtension (name : String) : String × Option String :=
  match Text.cutAtLast? (· == '.') name.toList with
  | some ([], _) => (name, none)
  | some (stem, extension) => (String.ofList stem, some (String.ofList extension))
  | none => (name, none)

/-- The name at the end of a path without its extension. -/
def stem (path : String) : String :=
  match fileName? path with
  | some name => (splitExtension name).1
  | none => ""

/-- The extension of a path. -/
def extension? (path : String) : Option String :=
  (fileName? path).bind fun name => (splitExtension name).2

/-- The path of an entry of a directory. -/
def join (folder name : String) : String :=
  if folder.toList.getLast? == some '/' then folder ++ name else folder ++ "/" ++ name

end Path

/-! ## Trees -/

/-- A file with its bytes, or a directory with its entries. -/
inductive FileTree where
  | file (content : ByteArray)
  | directory (entries : List (String × FileTree))
  deriving Inhabited

namespace FileTree

/-- The text of a file. -/
def text : FileTree → Except ReadError String
  | file content =>
    match String.fromUTF8? content with
    | some text => .ok text
    | none => .error .notText
  | directory _ => .error .isDirectory

/-- Follows steps from a directory.  `above` are the directories that lead to where the steps begin,
the nearest first. -/
def follow : List String → (above : List FileTree) → FileTree → Except ReadError FileTree
  | [], _, tree => .ok tree
  | step :: steps, above, tree =>
    match tree with
    | file _ => .error .notDirectory
    | directory entries =>
      if step = "" ∨ step = "." then follow steps above tree
      else if step = ".." then
        match above with
        | [] => .error .notFound
        | parent :: above => follow steps above parent
      else
        match entries.lookup step with
        | some next => follow steps (tree :: above) next
        | none => .error .notFound

/-- What is found under a path. -/
def find (root : FileTree) (path : String) : Except ReadError FileTree :=
  if path = "" ∨ path.toList.head? = some '/' then .error .notFound
  else root.follow (Path.steps path) []

end FileTree

/-! ## Places to read from -/

/-- A place to read from says what is under each path. -/
abbrev Files := String → Except ReadError FileTree

/-- The text of the file under a path. -/
def Files.read (files : Files) (path : String) : Except ReadError String := do
  (← files path).text

end Colloquy
