import Colloquy.Toml.Quoted
import Colloquy.Toml.Scalar
import Colloquy.Toml.Tree

/-!
# Reading TOML

A document is read in two steps.  The text is a list of statements, each on a line of its own: a
header, or a key with its value.  The statements fall into sections, and the sections make up the
tree of the document.  Inside brackets and braces a value may go on over several lines, with
comments, and a comma may follow the last entry.

A reader only says whether a text is TOML; why it is not is not told.
-/

namespace Colloquy.Toml

/-! ## Between the parts -/

/-- A character of no meaning on a line.  A carriage return is one because it only stands before a
line feed. -/
def isGap (c : Char) : Bool := c == ' ' || c == '\t' || c == '\r'

/-- The next character on the line that is not a blank, and what follows it. -/
def nextMark? (s : List Char) : Option (Char × Rest s) := Rest.next? isGap s

/-- The next character that is not a blank, a line end or part of a comment, and what follows it;
`inComment` says that a comment has begun. -/
def nextInLines? (inComment : Bool) : (s : List Char) → Option (Char × Rest s)
  | [] => none
  | c :: s =>
    if inComment then (nextInLines? (c != '\n') s).map fun (d, r) => (d, r.cons c)
    else if c = '#' then (nextInLines? true s).map fun (d, r) => (d, r.cons c)
    else if isGap c ∨ c = '\n' then (nextInLines? false s).map fun (d, r) => (d, r.cons c)
    else some (c, .tail c s)

/-- What follows a line of which only blanks and a comment are left. -/
def endLine (s : List Char) : Option (Remainder s) :=
  match nextMark? s with
  | none => some (.nothing s)
  | some ('\n', r) => some r
  | some ('#', r) => some (r.trans (.dropWhile (· != '\n') r.1))
  | some _ => none

/-! ## Keys -/

/-- A character of a name without quotes. -/
def isNameChar (c : Char) : Bool := c.isAlphanum || c == '_' || c == '-'

/-- One name of a key, with the blanks before it. -/
def readName (s : List Char) : Option (String × Rest s) := do
  let (c, r) ← nextMark? s
  if c = '"' then
    let (cs, r₁) ← readBasic r.1
    return (String.ofList cs, r.trans r₁)
  else if c = '\'' then
    let (cs, r₁) ← readLiteral r.1
    return (String.ofList cs, r.trans r₁)
  else
    let here := r.restore c
    let (cs, r₁) ← Rest.run? isNameChar here.1
    return (String.ofList cs, here.trans r₁)

/-- A key: names with points between them. -/
def readKey (s : List Char) : Option (Key × Rest s) := do
  let (name, r) ← readName s
  match nextMark? r.1 with
  | some ('.', r₁) =>
    let (key, r₂) ← readKey (r.trans r₁).1
    return ({ key with path := name :: key.path }, (r.trans r₁).trans r₂)
  | _ => return (⟨[], name⟩, r)
termination_by s.length
decreasing_by exact (r.trans r₁).2

/-! ## Values -/

/-- The deepest nesting of arrays and inline tables that is read. -/
def maxDepth : Nat := 80

/-- A key and the value that it gets. -/
def readPair (read : (s : List Char) → Option (Toml × Rest s)) (s : List Char) :
    Option ((Key × Toml) × Rest s) := do
  let (key, r) ← readKey s
  let ('=', r₁) ← nextMark? r.1 | none
  let (value, r₂) ← read r₁.1
  return ((key, value), r.trans (r₁.trans r₂))

/-- Entries with commas between them, from the first entry to the closing bracket. -/
def readEntries {α : Type} (close : Char) (read : (s : List Char) → Option (α × Rest s))
    (s : List Char) : Option (List α × Rest s) := do
  let (entry, r) ← read s
  let (c, r₁) ← nextInLines? false r.1
  if c = close then return ([entry], r.trans r₁)
  else if c = ',' then
    let (d, r₂) ← nextInLines? false r₁.1
    if d = close then return ([entry], r.trans (r₁.trans r₂))
    else
      let (entries, r₃) ← readEntries close read (r₂.restore d).1
      return (entry :: entries, r.trans (r₁.trans ((r₂.restore d).trans r₃)))
  else none
termination_by s.length
decreasing_by exact (r.trans (r₁.trans (r₂.restore d))).2

/-- Entries up to a closing bracket, or none at all, from what follows the opening bracket. -/
def readEnclosed {α : Type} (close : Char) (read : (s : List Char) → Option (α × Rest s))
    (s : List Char) : Option (List α × Rest s) := do
  let (c, r) ← nextInLines? false s
  if c = close then return ([], r)
  else
    let here := r.restore c
    let (entries, r₁) ← readEntries close read here.1
    return (entries, here.trans r₁)

/-- The word is a date. -/
def isDate (word : List Char) : Bool :=
  match Moment.read? word with
  | some (.date _) => true
  | _ => false

/-- A word behind a single blank. -/
def readSecondWord (s : List Char) : Option (List Char × Rest s) := do
  let r ← Rest.after? ' ' s
  let (word, r₁) ← Rest.run? isWordChar r.1
  return (word, r.trans r₁)

/-- A bare scalar.  A blank may stand between a date and a time. -/
def readScalar (s : List Char) : Option (Toml × Rest s) := do
  let (word, r) ← Rest.run? isWordChar s
  match if isDate word then readSecondWord r.1 else none with
  | some (time, r₁) => return (← ofWord? (word ++ ' ' :: time), r.trans r₁)
  | none => return (← ofWord? word, r)

/-- Reads a value with brackets nested at most `depth` deep, with the blanks before it. -/
def readValue (depth : Nat) (s : List Char) : Option (Toml × Rest s) := do
  let (c, r) ← nextMark? s
  match c, depth with
  | '[', 0 => none
  | '[', depth + 1 =>
    let (items, r₁) ← readEnclosed ']' (readValue depth) r.1
    return (.array items, r.trans r₁)
  | '{', 0 => none
  | '{', depth + 1 =>
    let (pairs, r₁) ← readEnclosed '}' (readPair (readValue depth)) r.1
    let branch ← Branch.insertAll pairs []
    return (.table (Node.freezeEntries branch), r.trans r₁)
  | c, _ =>
    let here := r.restore c
    if c = '"' ∨ c = '\'' then
      let (cs, r₁) ← readQuoted here.1
      return (.string (String.ofList cs), here.trans r₁)
    else
      let (scalar, r₁) ← readScalar here.1
      return (scalar, here.trans r₁)

/-! ## Statements -/

/-- A line of a document. -/
inductive Statement where
  | header (header : Header)
  | pair (key : Key) (value : Toml)

/-- A header in its brackets. -/
def readHeader : (s : List Char) → Option (Header × Rest s)
  | '[' :: '[' :: s => do
    let (key, r) ← readKey s
    let (']', r₁) ← nextMark? r.1 | none
    let r₂ ← Rest.after? ']' r₁.1
    return (.tables key, ((r.trans (r₁.trans r₂)).cons _).cons _)
  | '[' :: s => do
    let (key, r) ← readKey s
    let (']', r₁) ← nextMark? r.1 | none
    return (.table key, (r.trans r₁).cons _)
  | _ => none

/-- A statement, from its first character on. -/
def readStatement (s : List Char) : Option (Statement × Rest s) :=
  if s.head? = some '[' then (readHeader s).map fun (header, r) => (.header header, r)
  else (readPair (readValue maxDepth) s).map fun ((key, value), r) => (.pair key value, r)

/-- The statements of a whole text. -/
def readStatements (s : List Char) : Option (List Statement) :=
  match nextInLines? false s with
  | none => some []
  | some (c, r) => do
    let here := r.restore c
    let (statement, r₁) ← readStatement here.1
    let r₂ ← endLine r₁.1
    return statement :: (← readStatements r₂.1)
termination_by s.length
decreasing_by exact (here.trans (r₁.trans r₂)).2

/-- The sections that some statements make up, where the first of them go on with a section. -/
def sectionsFrom (current : Section) : List Statement → List Section
  | [] => [current]
  | .pair key value :: rest =>
    sectionsFrom { current with pairs := current.pairs ++ [(key, value)] } rest
  | .header header :: rest => current :: sectionsFrom ⟨some header, []⟩ rest

/-- A text can be a document: besides tabs and line ends it holds no control characters, and a
carriage return only stands before a line feed. -/
def isClean : List Char → Bool
  | [] => true
  | '\r' :: s => s.head? == some '\n' && isClean s
  | c :: s => (0x20 ≤ c.toNat && c.toNat != 0x7F || c == '\t' || c == '\n') && isClean s

/-- The text without the mark that some editors put at the start of a file. -/
def withoutMark : List Char → List Char
  | '\uFEFF' :: s => s
  | s => s

/-- The entries of the document that a whole text is. -/
def parse? (text : String) : Option (Table Toml) :=
  let s := withoutMark text.toList
  if isClean s then
    (readStatements s).bind fun statements => ofSections (sectionsFrom ⟨none, []⟩ statements)
  else none

end Colloquy.Toml
