import Colloquy.Template.Lexeme
import Colloquy.Template.Tag

/-!
# The tree of a template

Tags are put together by recursive descent.  `readBody` collects nodes up to a tag that ends the
body it is in, and `readBlock` reads a body, its alternatives and its closing tag.  An `else` with a
clause opens a block inside the inverse of the block before it, and one closing tag, which bears the
name of the first, closes the whole chain; so the name and the place of the first block are handed
down.

Items are what the descent runs over.  A tag that is wrong on its own is an error when the descent
reaches it and not before, so that of several errors the first in the source is reported.
-/

namespace Colloquy.Template

/-- A tag, or why it is none, with its place; plain text is a tag that stands by itself. -/
structure Item where
  position : Position
  tag : Except Fault Tag

/-- The items of some tokens; an empty text is none. -/
def Item.ofTokens : List Token → List Item
  | [] => []
  | .text s :: rest =>
    if s.isEmpty then ofTokens rest
    else ⟨.origin, .ok (.leaf (.text (String.ofList s)))⟩ :: ofTokens rest
  | .tag position body :: rest => ⟨position, Tag.read body⟩ :: ofTokens rest

/-- How a body of fewer than `n` items ends, with what follows the tag that ends it. -/
inductive Stop (n : Nat) where
  | finish
  | closing (position : Position) (name : String) (rest : { l : List Item // l.length < n })
  | alternative (position : Position) (clause : Option (Except Fault Clause))
    (rest : { l : List Item // l.length < n })

/-- A body that ends within some items ends within more. -/
def Stop.within {m n : Nat} (stop : Stop m) (h : m ≤ n) : Stop n :=
  match stop with
  | finish => finish
  | closing position name ⟨rest, hr⟩ => closing position name ⟨rest, Nat.lt_of_lt_of_le hr h⟩
  | alternative position clause ⟨rest, hr⟩ =>
    alternative position clause ⟨rest, Nat.lt_of_lt_of_le hr h⟩

/-- The head of a chain of clauses: the place of its opening tag and the name that closes it. -/
structure Head where
  position : Position
  kind : BlockKind

/-- The error when a block is not closed. -/
def Head.unclosed (head : Head) : TemplateError := .parse head.position (.unclosedBlock head.kind)

/-- A closing tag has to bear the name of the head. -/
def Head.close (head : Head) (position : Position) (name : String) : Except TemplateError Unit :=
  if name = head.kind.keyword then .ok ()
  else .error (.parse position (.mismatchedClose name head.kind))

mutual

/-- Reads nodes up to the end of a body. -/
def readBody (items : List Item) : Except TemplateError (List Node × Stop items.length) :=
  match items with
  | [] => .ok ([], .finish)
  | ⟨position, tag⟩ :: rest =>
    match tag with
    | .error fault => .error (.parse position fault)
    | .ok (.leaf node) => do
      let (nodes, stop) ← readBody rest
      return (node :: nodes, stop.within (by simp))
    | .ok (.opening clause) => do
      let (block, ⟨rest₁, h⟩) ← readBlock ⟨position, clause.kind⟩ clause rest
      let (nodes, stop) ← readBody rest₁
      return (block :: nodes, stop.within (by simp; omega))
    | .ok (.closing name) => .ok ([], .closing position name ⟨rest, by simp⟩)
    | .ok (.alternative clause) => .ok ([], .alternative position clause ⟨rest, by simp⟩)
termination_by (items.length, 0)

/-- Reads a block from behind its head, up to and with the tag that closes the chain. -/
def readBlock (head : Head) (clause : Clause) (items : List Item) :
    Except TemplateError (Node × { l : List Item // l.length < items.length }) := do
  let (body, stop) ← readBody items
  match stop with
  | .finish => throw head.unclosed
  | .closing position name rest =>
    head.close position name
    return (.block clause.kind clause.param body [], rest)
  | .alternative _ none ⟨rest, h⟩ =>
    let (inverse, stop) ← readBody rest
    match stop with
    | .finish => throw head.unclosed
    | .closing position name ⟨rest₁, h₁⟩ =>
      head.close position name
      return (.block clause.kind clause.param body inverse, ⟨rest₁, by omega⟩)
    | .alternative position _ _ => throw (.parse position .duplicateElse)
  | .alternative position (some (.error fault)) _ => throw (.parse position fault)
  | .alternative _ (some (.ok next)) ⟨rest, h⟩ =>
    let (inner, ⟨rest₁, h₁⟩) ← readBlock head next rest
    return (.block clause.kind clause.param body [inner], ⟨rest₁, by omega⟩)
termination_by (items.length, 1)

end

/-- The tree of some items. -/
def treeOfItems (items : List Item) : Except TemplateError (List Node) := do
  let (nodes, stop) ← readBody items
  match stop with
  | .finish => return nodes
  | .closing position name _ => throw (.parse position (.unexpectedClose name))
  | .alternative position _ _ => throw (.parse position .elseOutside)

/-- Reads a template source as a tree. -/
def readTree (source : List Char) : Except TemplateError (List Node) := do
  treeOfItems (Item.ofTokens (controlled false (← Lexeme.scan source)))

end Colloquy.Template
