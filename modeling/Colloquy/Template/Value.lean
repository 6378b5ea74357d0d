import Colloquy.Json.Printer
import Colloquy.Template.Node

/-!
# Values in a template

How a template looks at a JSON value: whether it counts as true, what text it stands for, and what
an expression evaluates to in a context.

The scopes of a context are the values that `with`, `each` and a called template have entered, the
innermost first; below them all lies the root.  Most expressions refer to a value that is stored
somewhere in the variables, but the position and the key of a loop are computed on the spot.  Only a
stored value can become a scope or be looped over.
-/

namespace Colloquy.Template

/-- Everything is truthy but null, false, zero, and the empty text and array. -/
def truthy : Json → Bool
  | .null => false
  | .bool b => b
  | .num n => !n.isZero
  | .str s => !s.isEmpty
  | .arr items => !items.isEmpty
  | .obj _ => true

mutual

/-- The text that a value stands for: nothing for null, the items of an array with commas between
them, and JSON for an object. -/
def textOf : Json → List Char
  | .null => []
  | .str s => s.toList
  | .arr [] => []
  | .arr (item :: items) => textOf item ++ textOfItems items
  | value => Json.print .compact 0 value

/-- The texts of the items after the first, each after a comma. -/
def textOfItems : List Json → List Char
  | [] => []
  | item :: items => ',' :: textOf item ++ textOfItems items

end

/-- A value as JSON, indented by at most sixteen spaces a level; no indent and an indent of zero are
one line. -/
def jsonText (indent : Option Nat) (value : Json) : List Char :=
  match indent with
  | none | some 0 => Json.print .compact 0 value
  | some width => Json.print (.indented (min width 16)) 0 value

/-! ## Contexts -/

/-- What a loop knows about the round it is in. -/
structure Loop where
  index : Nat
  key : Option String
  first : Bool
  last : Bool
  deriving DecidableEq, Repr

/-- A value that was entered, and the round of the loop that entered it. -/
structure Scope where
  value : Json
  loop : Option Loop := none
  deriving DecidableEq, Repr

/-- What expressions are evaluated in.  `scopes` lists the scopes entered, the innermost first,
without the root below them. -/
structure Context where
  root : Json
  data : Fields := []
  scopes : List Scope := []
  deriving Repr

/-- The value of an expression. -/
inductive Value where
  /-- A value that is part of the variables. -/
  | stored (json : Json)
  /-- A value that was made up for the occasion. -/
  | computed (json : Json)
  deriving DecidableEq, Repr

namespace Value

/-- The value itself. -/
def json : Value → Json
  | stored v => v
  | computed v => v

/-- The same kind of value, changed. -/
def map (f : Json → Json) : Value → Value
  | stored v => stored (f v)
  | computed v => computed (f v)

end Value

/-- The position that a segment stands for: a number, perhaps with a plus sign. -/
def position? (segment : String) : Option Nat :=
  let digits := match segment.toList with
    | '+' :: rest => rest
    | s => s
  if digits.isEmpty || !digits.all Char.isDigit then none
  else some (digits.foldl (fun n c => 10 * n + (c.toNat - 0x30)) 0)

/-- The value at the end of a row of segments: members of objects by key, items of arrays by
position. -/
def follow (value : Json) : List String → Option Json
  | [] => some value
  | segment :: rest =>
    match value with
    | .obj fields => (Table.get? fields segment).bind fun v => follow v rest
    | .arr items => ((position? segment).bind fun i => items[i]?).bind fun v => follow v rest
    | _ => none

namespace Context

/-- The context after a scope was entered. -/
def enter (ctx : Context) (scope : Scope) : Context := { ctx with scopes := scope :: ctx.scopes }

/-- The value of the scope a number of steps up; there is none above the root. -/
def scopeValue (ctx : Context) (depth : Nat) : Json :=
  (ctx.scopes[depth]?.map Scope.value).getD ctx.root

/-- The round of the innermost loop. -/
def loop? (ctx : Context) : Option Loop := ctx.scopes.findSome? Scope.loop

/-- The value of a data variable.  The names of the loop variables belong to loops alone. -/
def dataValue (ctx : Context) (name : String) : Value :=
  if name = "root" then .stored ctx.root
  else if name = "index" ∨ name = "key" ∨ name = "first" ∨ name = "last" then
    match ctx.loop? with
    | none => .stored .null
    | some loop =>
      if name = "index" then .computed (Json.ofNat loop.index)
      else if name = "first" then .computed (.bool loop.first)
      else if name = "last" then .computed (.bool loop.last)
      else match loop.key with
        | some key => .computed (.str key)
        | none => .stored .null
  else .stored ((ctx.data.get? name).getD .null)

/-- The value of an expression; a path that leads nowhere is null. -/
def eval (ctx : Context) : Expr → Value
  | .literal value => .stored value
  | .path ⟨.scope depth, segments⟩ =>
    .stored ((follow (ctx.scopeValue depth) segments).getD .null)
  | .path ⟨.data name, segments⟩ =>
    (ctx.dataValue name).map fun base => (follow base segments).getD .null

/-- The text of an expression. -/
def text (ctx : Context) (e : Expr) : List Char := textOf (ctx.eval e).json

end Context

end Colloquy.Template
