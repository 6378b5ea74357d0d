import Colloquy.Json.Numeral
import Colloquy.Template.Node
import Colloquy.Text.Cut

/-!
# Arguments of a tag

The inside of a tag is a row of arguments set apart by blanks.  Inside quotes a blank is part of the
argument, and a backslash takes away the meaning of the character after it.  An argument is read as
an expression: a string, a word for a constant, a number, or else a path.
-/

namespace Colloquy.Template

/-- Quotes that may enclose a string. -/
def isQuote (c : Char) : Bool := c == '"' || c == '\''

/-- The arguments of a tag, from inside a quote or not and with the characters of the argument in
progress. -/
def splitArgs (quote : Option Char) (current : List Char) :
    List Char → Except Fault (List (List Char))
  | [] =>
    if quote.isSome then .error .unterminatedString
    else .ok (if current.isEmpty then [] else [current])
  | c :: rest =>
    match quote with
    | some q =>
      if c = '\\' then
        match rest with
        | [] => splitArgs quote (current ++ [c]) []
        | next :: rest => splitArgs quote (current ++ [c, next]) rest
      else splitArgs (if c = q then none else quote) (current ++ [c]) rest
    | none =>
      if isQuote c then splitArgs (some c) (current ++ [c]) rest
      else if Text.isBlank c then
        if current.isEmpty then splitArgs none [] rest
        else (splitArgs none [] rest).map (current :: ·)
      else if c = '(' ∨ c = ')' then .error .subexpression
      else splitArgs none (current ++ [c]) rest

/-- The arguments that a tag holds. -/
def arguments (body : List Char) : Except Fault (List (List Char)) := splitArgs none [] body

/-- The characters that stand for themselves or for another after a backslash. -/
def unescape : List Char → List Char
  | [] => []
  | ['\\'] => ['\\']
  | '\\' :: 'n' :: rest => '\n' :: unescape rest
  | '\\' :: 't' :: rest => '\t' :: unescape rest
  | '\\' :: c :: rest => c :: unescape rest
  | c :: rest => c :: unescape rest

/-- The text that a quoted argument stands for. -/
def unquote? : List Char → Option (List Char)
  | q :: rest =>
    if isQuote q && rest.getLast? == some q then some (unescape rest.dropLast) else none
  | [] => none

/-! ## Paths -/

/-- The number of steps up at the start of a path, and the path after them. -/
def stepsUp : List Char → Nat × List Char
  | '.' :: '.' :: '/' :: rest => let (n, rest) := stepsUp rest; (n + 1, rest)
  | s => (0, s)

/-- The characters between the segments of a path. -/
def isStep (c : Char) : Bool := c == '.' || c == '/'

/-- A segment without the brackets around it. -/
def withoutBrackets : List Char → List Char
  | '[' :: rest => if rest.getLast? == some ']' then rest.dropLast else '[' :: rest
  | s => s

/-- The segments of a path after its start.  An empty segment is an error unless the whole text is
empty or a point, and `this` as the first segment names the start itself. -/
def readSegments (raw s : List Char) : Except Fault (List String) :=
  let pieces := (Text.pieces isStep s).map withoutBrackets
  let pieces := if s.isEmpty || s == ['.'] then pieces.filter (!·.isEmpty) else pieces
  if pieces.any List.isEmpty then .error (.invalidPath (String.ofList raw))
  else
    .ok <| match pieces with
      | first :: rest => ((if first = "this".toList then [] else [first]) ++ rest).map String.ofList
      | [] => []

/-- Reads a path. -/
def readPath (raw : List Char) : Except Fault Path := do
  let (depth, s) := stepsUp raw
  let (root, s) ← match s with
    | '@' :: data =>
      let (name, rest) := (Text.cutAt? isStep data).getD (data, [])
      if name.isEmpty then throw (Fault.invalidData (String.ofList raw))
      pure (PathRoot.data (String.ofList name), rest)
    | s => pure (PathRoot.scope depth, s)
  let s := (Text.leading? "./".toList s).getD s
  return ⟨root, ← readSegments raw s⟩

/-! ## Expressions -/

/-- The constant that a word stands for. -/
def constant? (raw : List Char) : Option Json :=
  if raw = "true".toList then some (.bool true)
  else if raw = "false".toList then some (.bool false)
  else if raw = "null".toList ∨ raw = "undefined".toList then some .null
  else none

/-- The number that an argument stands for. -/
def number? (raw : List Char) : Option Number :=
  match raw with
  | c :: _ => if c.isDigit || c == '-' then Numeral.read? raw else none
  | [] => none

/-- Reads an argument as an expression. -/
def readExpr (raw : List Char) : Except Fault Expr :=
  match unquote? raw with
  | some s => .ok (.literal (.str (String.ofList s)))
  | none =>
    match constant? raw with
    | some v => .ok (.literal v)
    | none =>
      match number? raw with
      | some n => .ok (.literal (.num n))
      | none => (readPath raw).map .path

/-- The arguments of a directive: those without a name, and those with one. -/
structure Arguments where
  positional : List Expr
  named : List (String × Expr)

/-- An argument with a name, `name=value`; a quoted argument has none. -/
def nameAndValue? (raw : List Char) : Option (List Char × List Char) :=
  match raw with
  | [] => none
  | c :: _ =>
    if isQuote c then none
    else match Text.cutAt? (· == '=') raw with
      | some ([], _) => none
      | cut => cut

/-- Reads the arguments of a directive in order. -/
def readArguments : List (List Char) → Except Fault Arguments
  | [] => .ok ⟨[], []⟩
  | raw :: rest => do
    match nameAndValue? raw with
    | some (name, value) =>
      let value ← readExpr value
      let others ← readArguments rest
      return { others with named := (String.ofList name, value) :: others.named }
    | none =>
      let value ← readExpr raw
      let others ← readArguments rest
      return { others with positional := value :: others.positional }

end Colloquy.Template
