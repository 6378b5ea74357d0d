import Colloquy.Digest
import Colloquy.Template.Render
import Colloquy.Template.Tree

/-!
# Compiled templates

A template that was read: its tree, and the digest of its source, by which it is known.  A cache
keeps compiled templates by digest, so that a source that comes again is not read again.  A source
that cannot be read is not kept.
-/

namespace Colloquy

/-- A template that was read. -/
structure Template where
  /-- The digest of the source. -/
  hash : String
  nodes : List Template.Node
  deriving Repr

/-- Templates that others may call, by name. -/
abbrev Partials := Table Template

namespace Template

/-- Reads a template source. -/
def compile (source : String) : Except TemplateError Template := do
  return ⟨Digest.ofText source, ← readTree source.toList⟩

/-- What the template writes in a context, piece by piece. -/
def pieces (t : Template) (partials : Partials) (ctx : Context) : Rendered :=
  renderTree (partials.map fun (name, called) => (name, called.nodes)) ctx t.nodes

/-- The text that the template writes in a context. -/
def render (t : Template) (partials : Partials) (ctx : Context) : Except TemplateError String := do
  return String.ofList ((← t.pieces partials ctx).flatMap Piece.encode)

end Template

namespace Partials

/-- Reads a template source and registers it under a name. -/
def register (partials : Partials) (name source : String) : Except TemplateError Partials := do
  return Table.set partials name (← Template.compile source)

end Partials

/-- Compiled templates by the digests of their sources. -/
structure TemplateCache where
  entries : Table Template := []

namespace TemplateCache

/-- The template of a source, read unless the cache has it, and the cache afterwards. -/
def getOrCompile (cache : TemplateCache) (source : String) :
    Except TemplateError (Template × TemplateCache) := do
  let hash := Digest.ofText source
  match cache.entries.get? hash with
  | some hit => return (hit, cache)
  | none =>
    let compiled ← Template.compile source
    return (compiled, ⟨cache.entries.set hash compiled⟩)

/-- The template of a source. -/
def compile (cache : TemplateCache) (source : String) : Except TemplateError Template :=
  (cache.getOrCompile source).map (·.1)

/-- The cache after the template of a source was asked for. -/
def remember (cache : TemplateCache) (source : String) : TemplateCache :=
  match cache.getOrCompile source with
  | .ok (_, after) => after
  | .error _ => cache

/-- The number of templates in the cache. -/
def size (cache : TemplateCache) : Nat := cache.entries.length

end TemplateCache

end Colloquy
