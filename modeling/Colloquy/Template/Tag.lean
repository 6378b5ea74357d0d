import Colloquy.Message
import Colloquy.Template.Argument

/-!
# Tags

What a tag means on its own, from the text inside it: a node that stands by itself, the opening of a
block, the closing of one, or an `else`.  Whether the tags of a template fit together is settled
when its tree is built.
-/

namespace Colloquy.Template

/-- The head of a block: what it does, and its argument. -/
structure Clause where
  kind : BlockKind
  param : Expr
  deriving DecidableEq, Repr

inductive Tag where
  | leaf (node : Node)
  | opening (clause : Clause)
  | closing (name : String)
  /-- An `else`, perhaps with the clause of a further block.  A clause that cannot be read is an
  error only where an `else` may stand at all, so the error is kept here. -/
  | alternative (clause : Option (Except Fault Clause))

/-- Reads the only argument of a block. -/
def readParam (kind : BlockKind) : List (List Char) → Except Fault Expr
  | [raw] => readExpr raw
  | _ => .error (.oneArgument kind.keyword)

/-- Reads the head of a block from its arguments; `unnamed` is the error when there are none. -/
def readClause (unnamed : Fault) (body : List Char) : Except Fault Clause := do
  match ← arguments body with
  | [] => throw unnamed
  | name :: rest =>
    match BlockKind.ofKeyword? (String.ofList name) with
    | none => throw (.unknownBlock (String.ofList name))
    | some kind => return ⟨kind, ← readParam kind rest⟩

/-- Reads the call of another template. -/
def readCall (body : List Char) : Except Fault Node := do
  match ← arguments body with
  | [] => throw .partialWithoutName
  | name :: rest =>
    let name := String.ofList ((unquote? name).getD name)
    match rest with
    | [] => return .call name none
    | [raw] => return .call name (some (← readExpr raw))
    | _ => throw .partialArguments

/-! ## Directives -/

/-- The directive `role`; a role that is written out has to be known. -/
def roleDirective (args : Arguments) : Except Fault Directive :=
  match args.positional with
  | [.literal (.str name)] =>
    if (Role.ofName? name).isSome then .ok (.role (.literal (.str name)))
    else .error (.unknownRole name)
  | [name] => .ok (.role name)
  | _ => .error (.oneArgument "role")

/-- The directive `media`, whose url may be given by position or by name. -/
def mediaDirective (args : Arguments) : Except Fault Directive :=
  match args.positional, args.named.lookup "url" with
  | [url], _ => .ok (.media url (args.named.lookup "contentType"))
  | [], some url => .ok (.media url (args.named.lookup "contentType"))
  | _, _ => .error .mediaWithoutUrl

/-- The directive `json`. -/
def jsonDirective (args : Arguments) : Except Fault Directive :=
  match args.positional with
  | [value] => .ok (.json value (args.named.lookup "indent"))
  | _ => .error .jsonArguments

/-- The directive `history`. -/
def historyDirective (args : Arguments) : Except Fault Directive :=
  if args.positional.isEmpty && args.named.isEmpty then .ok .history else .error .historyArguments

/-- The directives by name. -/
def directives : List (String × (Arguments → Except Fault Directive)) :=
  [("role", roleDirective), ("media", mediaDirective), ("json", jsonDirective),
   ("history", historyDirective)]

/-- Reads a tag that begins with no sign: a directive, or an expression on its own. -/
def readPlain (body : List Char) : Except Fault Node := do
  match ← arguments body with
  | [] => throw .emptyTag
  | head :: rest =>
    match directives.lookup (String.ofList head) with
    | some directive => return .directive (← directive (← readArguments rest))
    | none =>
      if rest.isEmpty then return .expression (← readExpr head)
      else throw (.unknownHelper (String.ofList head))

/-- What follows the word `else`, if the tag is one: the word alone, or the word and a plain
space. -/
def elseClause? (body : List Char) : Option (List Char) :=
  match Text.leading? "else".toList body with
  | some [] => some []
  | some (' ' :: rest) => some (Text.trim rest)
  | _ => none

/-- Reads a tag from the text inside it. -/
def Tag.read (body : List Char) : Except Fault Tag :=
  match body with
  | [] => .error .emptyTag
  | '#' :: rest => (readClause .blockWithoutName rest).map .opening
  | '/' :: rest => .ok (.closing (String.ofList (Text.trim rest)))
  | _ =>
    match elseClause? body with
    | some [] => .ok (.alternative none)
    | some clause => .ok (.alternative (some (readClause .malformedElse clause)))
    | none =>
      match body with
      | '>' :: rest => (readCall rest).map .leaf
      | _ => (readPlain body).map .leaf

end Colloquy.Template
