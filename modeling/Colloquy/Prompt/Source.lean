import Colloquy.Prompt.Draft

/-!
# Prompt sources

A prompt source is the text of a prompt file: frontmatter between two fences, and behind it the
template.  A text that does not begin with a fence, or in which no second one follows, is all
template.

A source is named by its path.  In the last step of the path the first point sets the variant apart;
frontmatter may give another name and another variant.
-/

namespace Colloquy

/-- A prompt source that was taken apart. -/
structure PromptSource where
  name : String
  variant : Option String
  frontmatter : Frontmatter
  template : String
  deriving DecidableEq, Repr

namespace PromptSource

/-- The line between which frontmatter stands. -/
def fence : List Char := "---".toList

/-- The line is a fence; blanks behind it do not matter. -/
def isFence (line : List Char) : Bool := Text.trimEnd line == fence

/-- What follows a fence that the text starts with.  Nothing but the line end stands behind it. -/
def afterOpening? (text : List Char) : Option (List Char) :=
  match Text.leading? fence text with
  | some ('\n' :: rest) => some rest
  | some ('\r' :: '\n' :: rest) => some rest
  | _ => none

/-- The frontmatter of a text, if it has one, and the rest. -/
def split (text : List Char) : Option (List Char) × List Char :=
  match afterOpening? text with
  | none => (none, text)
  | some rest =>
    let lines := Text.lines rest
    let front := lines.takeWhile fun line => !isFence line
    match lines.dropWhile fun line => !isFence line with
    | [] => (none, text)
    | _ :: body => (some front.flatten, body.flatten)

/-- The name and the variant that a path stands for. -/
def splitName (path : List Char) : String × Option String :=
  let (folder, stem) := match Text.cutAtLast? (· == '/') path with
    | some (folder, stem) => (folder ++ ['/'], stem)
    | none => ([], path)
  match Text.cutAt? (· == '.') stem with
  | some (base, variant) => (String.ofList (folder ++ base), some (String.ofList variant))
  | none => (String.ofList (folder ++ stem), none)

/-- Takes the text of a prompt file apart. -/
def parse (path text : String) : Except PromptError PromptSource := do
  let (front, body) := split text.toList
  let frontmatter ← match front with
    | some front => (Frontmatter.read (String.ofList front)).mapError (.frontmatter path)
    | none => pure {}
  let (name, variant) := splitName path.toList
  return {
    name := frontmatter.name.getD name
    variant := frontmatter.variant.or variant
    frontmatter
    template := String.ofList body }

/-- An option, if there is a value for it. -/
def option {ω α : Type} (make : α → PromptOption ω) (value : Option α) : List (PromptOption ω) :=
  (value.map make).toList

/-- The value, unless it is empty. -/
def unlessEmpty {α : Type} (value : List α) : Option (List α) :=
  if value.isEmpty then none else some value

/-- A draft with all that the source sets. -/
def draft {ω : Type} (s : PromptSource) : PromptDraft ω where
  name := s.name
  options :=
    let f := s.frontmatter
    [.template s.template] ++ option .variant s.variant ++ option .modelName f.model ++
      option .description f.description ++ option .tools (unlessEmpty f.tools) ++
      option .toolChoice f.toolChoice ++ option .maxTurns f.maxTurns ++ option .config f.config ++
      option .inputSchema f.input.schema ++ option .defaultVariables f.input.defaults ++
      option .outputFormat f.output.format ++ option .outputSchema f.output.schema ++
      option .metadata (unlessEmpty f.metadata)

end PromptSource

end Colloquy
