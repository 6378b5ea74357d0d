import Colloquy.Marker
import Colloquy.Template.Value

/-!
# Rendering

Rendering a template gives a list of pieces, texts and markers in the order in which they come up,
and only at the end are the pieces written one after the other.  What stands in data is stripped of
the characters that markers are built from, so no data can look like a marker.

A template may call others, and those may call it back; rendering ends because calls may only be
nested to a fixed depth.
-/

namespace Colloquy.Template

/-- What a node writes. -/
inductive Piece where
  | text (text : List Char)
  | marker (marker : Marker)
  deriving DecidableEq, Repr

/-- A piece as it stands in the output. -/
def Piece.encode : Piece → List Char
  | text s => s
  | marker m => m.encode

/-- What a directive writes. -/
def Directive.piece (ctx : Context) : Directive → Piece
  | role name => .marker (.role (String.ofList (ctx.text name)))
  | media url contentType =>
    let contentType := (contentType.map ctx.text).filter (!·.isEmpty)
    .marker (.media (String.ofList (ctx.text url)) (contentType.map String.ofList))
  | json value indent =>
    let width := indent.bind fun e => match (ctx.eval e).json with
      | .num n => n.toNat?
      | _ => none
    .text (jsonText width (ctx.eval value).json)
  | history => .marker .history

/-- The scopes that a loop over a value enters, one for each member.  A value that is no array and
no object has none, and neither has a computed one. -/
def loopScopes : Value → List Scope
  | .stored (.arr items) =>
    items.mapIdx fun i item => ⟨item, some ⟨i, none, i == 0, i + 1 == items.length⟩⟩
  | .stored (.obj fields) =>
    fields.mapIdx fun i (key, item) => ⟨item, some ⟨i, some key, i == 0, i + 1 == fields.length⟩⟩
  | _ => []

/-- What rendering gives: pieces, or why it failed. -/
abbrev Rendered := Except TemplateError (List Piece)

mutual

/-- Renders nodes in order.  `call` renders a called template by its name in a context. -/
def renderNodes (call : String → Option Expr → Context → Rendered) (ctx : Context) :
    List Node → Rendered
  | [] => .ok []
  | node :: rest => do
    let first ← renderNode call ctx node
    return first ++ (← renderNodes call ctx rest)

/-- Renders a node. -/
def renderNode (call : String → Option Expr → Context → Rendered) (ctx : Context) : Node → Rendered
  | .text s => .ok [.text s.toList]
  | .expression e => .ok [.text (Marker.stripChars (ctx.text e))]
  | .directive d => .ok [d.piece ctx]
  | .block kind param body inverse =>
    let value := ctx.eval param
    match kind with
    | .ifTruthy =>
      if truthy value.json then renderNodes call ctx body else renderNodes call ctx inverse
    | .unlessTruthy =>
      if truthy value.json then renderNodes call ctx inverse else renderNodes call ctx body
    | .inScope =>
      if !truthy value.json then renderNodes call ctx inverse
      else match value with
        | .stored json => renderNodes call (ctx.enter ⟨json, none⟩) body
        | .computed _ => renderNodes call ctx body
    | .forEach =>
      match loopScopes value with
      | [] => renderNodes call ctx inverse
      | scopes => do
        let rounds ← scopes.mapM fun scope => renderNodes call (ctx.enter scope) body
        return rounds.flatten
  | .call name context => call name context ctx

end

/-- How many calls of other templates may be nested. -/
def maxDepth : Nat := 16

/-- Renders a called template when that many more calls may be nested. -/
def renderCall (templates : Table (List Node)) :
    Nat → String → Option Expr → Context → Rendered
  | depth, name, context, ctx =>
    match templates.get? name with
    | none => .error (.missingPartial name)
    | some nodes =>
      match depth with
      | 0 => .error (.partialDepth maxDepth)
      | depth + 1 =>
        let inner := match context.map ctx.eval with
          | some (.stored json) => ctx.enter ⟨json, none⟩
          | _ => ctx
        renderNodes (renderCall templates depth) inner nodes

/-- Renders a tree with the templates that it may call. -/
def renderTree (templates : Table (List Node)) (ctx : Context) (nodes : List Node) : Rendered :=
  renderNodes (renderCall templates maxDepth) ctx nodes

end Colloquy.Template
