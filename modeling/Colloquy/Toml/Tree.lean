import Colloquy.Toml.Basic

/-!
# The tree of a TOML document

A document gives values to keys, section after section.  A key is a path of names, and so is the
header of a section.  While a document is put together each table remembers where it came from,
because that says what may still be added to it:

- a table that a header names has all its keys in its own section;
- a table that only lies on the way to another header may still get a section of its own;
- a table that the path of a dotted key made grows by more dotted keys of the same section only;
- a value is closed, even when it is a table.
-/

namespace Colloquy.Toml

/-- Where a table came from. -/
inductive Origin where
  /-- A header names it. -/
  | header
  /-- It lies on the way to a header. -/
  | way
  /-- It lies on the way to a dotted key. -/
  | dotted
  deriving DecidableEq, Repr

/-- What a name stands for while a document is put together. -/
inductive Node where
  | value (value : Toml)
  | table (origin : Origin) (entries : List (String × Node))
  /-- Tables that headers in double brackets made; only the last is open. -/
  | tables (closed : List (List (String × Node))) (last : List (String × Node))
  deriving Inhabited

/-- Names with what they stand for. -/
abbrev Branch := Table Node

namespace Node

mutual

/-- What a node is when the document has come to its end. -/
def freeze : Node → Toml
  | value v => v
  | table _ entries => .table (freezeEntries entries)
  | tables closed last => .array (freezeTables closed ++ [.table (freezeEntries last)])

def freezeEntries : List (String × Node) → List (String × Toml)
  | [] => []
  | (key, node) :: rest => (key, freeze node) :: freezeEntries rest

def freezeTables : List (List (String × Node)) → List Toml
  | [] => []
  | entries :: rest => .table (freezeEntries entries) :: freezeTables rest

end

end Node

/-- A key: the names on the way to it, and its own. -/
structure Key where
  path : List String
  name : String
  deriving DecidableEq, Repr

namespace Branch

/-- Gives a key at the end of a path a value.  What the path leads through has to be made by dotted
keys; only farther up may it be the way to a header. -/
def insert (value : Toml) (name : String) : List String → Branch → Option Branch
  | [], branch => if branch.has name then none else some (branch.set name (.value value))
  | step :: path, branch =>
    match branch.get? step with
    | none => (insert value name path []).map fun b => branch.set step (.table .dotted b)
    | some (.table origin inner) =>
      if origin = .header ∨ (path.isEmpty ∧ origin ≠ .dotted) then none
      else (insert value name path inner).map fun b => branch.set step (.table origin b)
    | some _ => none

/-- Gives each of some keys its value. -/
def insertAll (pairs : List (Key × Toml)) (branch : Branch) : Option Branch :=
  pairs.foldlM (fun branch (key, value) => insert value key.name key.path branch) branch

/-- Changes the table at the end of the path of a header. -/
def descend (change : Branch → Option Branch) : List String → Branch → Option Branch
  | [], branch => change branch
  | step :: path, branch =>
    match branch.get? step with
    | none => (descend change path []).map fun b => branch.set step (.table .way b)
    | some (.table origin inner) =>
      (descend change path inner).map fun b => branch.set step (.table origin b)
    | some (.tables closed last) =>
      (descend change path last).map fun b => branch.set step (.tables closed b)
    | some (.value _) => none

end Branch

/-- The header of a section. -/
inductive Header where
  /-- The section is a table. -/
  | table (key : Key)
  /-- The section is one more table of an array. -/
  | tables (key : Key)
  deriving DecidableEq, Repr

/-- A section: its keys with their values; the first section of a document has no header. -/
structure Section where
  header : Option Header
  pairs : List (Key × Toml)

/-- Adds a section to a document.  A table that gets its section only now moves to the end. -/
def Section.addTo (s : Section) (root : Branch) : Option Branch :=
  match s.header with
  | none => Branch.insertAll s.pairs root
  | some (.table key) =>
    Branch.descend (fun branch => do
      let (others, start) ← match branch.get? key.name with
        | none => some (branch, [])
        | some (.table .way inner) => some (branch.filter fun e => e.1 != key.name, inner)
        | some _ => none
      return others ++ [(key.name, .table .header (← Branch.insertAll s.pairs start))])
      key.path root
  | some (.tables key) =>
    Branch.descend (fun branch => do
      let entries ← Branch.insertAll s.pairs []
      match branch.get? key.name with
      | none => return branch.set key.name (.tables [] entries)
      | some (.tables closed last) =>
        return branch.set key.name (.tables (closed ++ [last]) entries)
      | some _ => none)
      key.path root

/-- The entries of a document that consists of some sections. -/
def ofSections (sections : List Section) : Option (Table Toml) :=
  (sections.foldlM (fun root (s : Section) => s.addTo root) []).map Node.freezeEntries

end Colloquy.Toml
