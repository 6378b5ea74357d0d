import Colloquy.Json.Basic

/-!
# Templates as trees

What a template is once it is read: a list of nodes, in which a block holds the nodes of its
branches.  Expressions are literals and paths.  The errors of reading and rendering a template are
here too, with the position that a reading error carries.
-/

namespace Colloquy.Template

/-- Where a path starts. -/
inductive PathRoot where
  /-- The current scope, or a number of scopes above it. -/
  | scope (depth : Nat)
  /-- A data variable, written with an at sign. -/
  | data (name : String)
  deriving DecidableEq, Repr

/-- A way into the variables: a start and the members to follow from there. -/
structure Path where
  root : PathRoot
  segments : List String
  deriving DecidableEq, Repr

inductive Expr where
  | literal (value : Json)
  | path (path : Path)
  deriving DecidableEq, Repr

/-- What a block does with its argument. -/
inductive BlockKind where
  /-- Renders its body when the argument is truthy. -/
  | ifTruthy
  /-- Renders its body when the argument is not truthy. -/
  | unlessTruthy
  /-- Renders its body once for each member of the argument. -/
  | forEach
  /-- Renders its body with the argument as scope. -/
  | inScope
  deriving DecidableEq, Repr

namespace BlockKind

/-- The word by which a tag names the kind. -/
def keyword : BlockKind → String
  | ifTruthy => "if"
  | unlessTruthy => "unless"
  | forEach => "each"
  | inScope => "with"

/-- The kind that a word names. -/
def ofKeyword? (word : String) : Option BlockKind :=
  [ifTruthy, unlessTruthy, forEach, inScope].find? fun kind => kind.keyword == word

end BlockKind

/-- A tag that writes something other than the text of an expression. -/
inductive Directive where
  | role (name : Expr)
  | media (url : Expr) (contentType : Option Expr)
  | json (value : Expr) (indent : Option Expr)
  | history
  deriving DecidableEq, Repr

inductive Node where
  | text (text : String)
  | expression (expr : Expr)
  | directive (directive : Directive)
  | block (kind : BlockKind) (param : Expr) (body inverse : List Node)
  /-- Another template by its name, perhaps with a scope of its own. -/
  | call (name : String) (context : Option Expr)
  deriving Repr

/-- The node is no block. -/
def Node.isLeaf : Node → Bool
  | .block .. => false
  | _ => true

/-! ## Errors -/

/-- A place in a source: a line, and a byte of that line, both counted from one. -/
structure Position where
  line : Nat
  column : Nat
  deriving DecidableEq, Repr

namespace Position

/-- The first place of a source. -/
def origin : Position := ⟨1, 1⟩

/-- The place after a character. -/
def step (p : Position) (c : Char) : Position :=
  if c = '\n' then ⟨p.line + 1, 1⟩ else ⟨p.line, p.column + c.utf8Size⟩

/-- The place after some text. -/
def advance (p : Position) (s : List Char) : Position := s.foldl step p

end Position

/-- What is wrong at a place of a source. -/
inductive Fault where
  | unclosedTag
  | unclosedComment
  | emptyTag
  | blockWithoutName
  | unknownBlock (name : String)
  | unclosedBlock (kind : BlockKind)
  | unexpectedClose (name : String)
  | mismatchedClose (name : String) (opened : BlockKind)
  | elseOutside
  | duplicateElse
  | malformedElse
  | partialWithoutName
  | partialArguments
  | unknownHelper (name : String)
  | oneArgument (helper : String)
  | unknownRole (name : String)
  | mediaWithoutUrl
  | jsonArguments
  | historyArguments
  | subexpression
  | unterminatedString
  | invalidData (raw : String)
  | invalidPath (raw : String)
  deriving DecidableEq, Repr

def Fault.message : Fault → String
  | unclosedTag => "unclosed tag"
  | unclosedComment => "unclosed comment"
  | emptyTag => "empty tag"
  | blockWithoutName => "block tag without a helper name"
  | unknownBlock name => s!"unknown block helper '{name}'"
  | unclosedBlock kind => s!"unclosed '{kind.keyword}' block"
  | unexpectedClose name => s!"unexpected closing tag '{name}'"
  | mismatchedClose name opened =>
    s!"closing tag '{name}' does not match open block '{opened.keyword}'"
  | elseOutside => "'else' outside of a block"
  | duplicateElse => "duplicate 'else' in block"
  | malformedElse => "malformed 'else'"
  | partialWithoutName => "partial tag without a name"
  | partialArguments => "partials take at most one context argument"
  | unknownHelper name => s!"unknown helper '{name}'"
  | oneArgument helper => s!"'{helper}' takes exactly one argument"
  | unknownRole name => s!"unknown role '{name}'"
  | mediaWithoutUrl => "'media' requires a url"
  | jsonArguments => "'json' takes exactly one value"
  | historyArguments => "'history' takes no arguments"
  | subexpression => "subexpressions are not supported"
  | unterminatedString => "unterminated string literal"
  | invalidData raw => s!"invalid data variable '{raw}'"
  | invalidPath raw => s!"invalid path '{raw}'"

end Colloquy.Template

namespace Colloquy

/-- Why a template cannot be read or rendered. -/
inductive TemplateError where
  | parse (position : Template.Position) (fault : Template.Fault)
  | missingPartial (name : String)
  | partialDepth (limit : Nat)
  deriving DecidableEq, Repr

/-- The message of an error. -/
def TemplateError.message : TemplateError → String
  | parse position fault =>
    s!"template parse error at line {position.line}, column {position.column}: {fault.message}"
  | missingPartial name => s!"template render error: partial '{name}' is not registered"
  | partialDepth limit => s!"template render error: partials nested deeper than {limit} levels"

end Colloquy
