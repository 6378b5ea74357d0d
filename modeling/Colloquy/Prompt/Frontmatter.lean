import Colloquy.Toml.Decode
import Colloquy.Toml.Reader

/-!
# Frontmatter

The settings that a prompt file carries in front of its template, written in TOML.
-/

namespace Colloquy

/-- What frontmatter says about the input of a prompt. -/
structure InputSection where
  /-- Picoschema or JSON Schema. -/
  schema : Option Json := none
  /-- Values for variables that are not given. -/
  defaults : Option Fields := none
  deriving DecidableEq, Repr

/-- What frontmatter says about the output of a prompt. -/
structure OutputSection where
  format : Option OutputFormat := none
  /-- Picoschema or JSON Schema. -/
  schema : Option Json := none
  deriving DecidableEq, Repr

/-- The settings in front of a template. -/
structure Frontmatter where
  name : Option String := none
  variant : Option String := none
  model : Option String := none
  description : Option String := none
  tools : List String := []
  toolChoice : Option ToolChoice := none
  maxTurns : Option Nat := none
  config : Option Config := none
  input : InputSection := {}
  output : OutputSection := {}
  metadata : Fields := []
  deriving DecidableEq, Repr

namespace InputSection

def members : List String := ["schema", "default"]

def ofToml : Toml → Decoded InputSection :=
  Toml.record "InputSection" members fun m =>
    let schema := Toml.member m "schema" Toml.json
    let defaults := Toml.member m "default" Toml.toFields
    Toml.settle members m [("schema", Decode.fault schema), ("default", Decode.fault defaults)] do
      return ⟨← schema, ← defaults⟩

end InputSection

namespace OutputSection

def members : List String := ["format", "schema"]

def ofToml : Toml → Decoded OutputSection :=
  Toml.record "OutputSection" members fun m =>
    let format := Toml.member m "format" (Toml.toVariant OutputFormat.table)
    let schema := Toml.member m "schema" Toml.json
    Toml.settle members m [("format", Decode.fault format), ("schema", Decode.fault schema)] do
      return ⟨← format, ← schema⟩

end OutputSection

/-- Why a text is no frontmatter. -/
inductive FrontmatterError where
  | notToml
  | unfit (error : DecodeError)
  deriving DecidableEq, Repr

namespace Frontmatter

def members : List String :=
  ["name", "variant", "model", "description", "tools", "tool_choice", "max_turns", "config",
   "input", "output", "metadata"]

def ofTable (entries : Table Toml) : Decoded Frontmatter :=
  let m : Decode.Members Toml := { fields := entries }
  let name := Toml.member m "name" Toml.toText
  let variant := Toml.member m "variant" Toml.toText
  let model := Toml.member m "model" Toml.toText
  let description := Toml.member m "description" Toml.toText
  let tools := m.withDefault "tools" (Toml.toList Toml.toText) []
  let toolChoice := Toml.member m "tool_choice" (Toml.toVariant ToolChoice.table)
  let maxTurns := Toml.member m "max_turns" (Toml.toNatural 32)
  let config := Toml.member m "config" Toml.toConfig
  let input := m.withDefault "input" InputSection.ofToml {}
  let output := m.withDefault "output" OutputSection.ofToml {}
  let metadata := m.withDefault "metadata" Toml.toFields []
  let faults :=
    [("name", Decode.fault name), ("variant", Decode.fault variant), ("model", Decode.fault model),
     ("description", Decode.fault description), ("tools", Decode.fault tools),
     ("tool_choice", Decode.fault toolChoice), ("max_turns", Decode.fault maxTurns),
     ("config", Decode.fault config), ("input", Decode.fault input),
     ("output", Decode.fault output), ("metadata", Decode.fault metadata)]
  Toml.settle members m faults do
    return ⟨← name, ← variant, ← model, ← description, ← tools, ← toolChoice, ← maxTurns, ← config,
      ← input, ← output, ← metadata⟩

/-- Reads frontmatter. -/
def read (text : String) : Except FrontmatterError Frontmatter :=
  match Toml.parse? text with
  | none => .error .notToml
  | some entries => (ofTable entries).mapError .unfit

end Frontmatter

/-- What is wrong, but for texts that are not TOML, of which nothing is told. -/
def FrontmatterError.detail? : FrontmatterError → Option String
  | notToml => none
  | unfit error => some (error.messageIn Toml.numberLayout)

end Colloquy
