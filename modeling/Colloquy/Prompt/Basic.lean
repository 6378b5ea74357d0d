import Colloquy.Assembly
import Colloquy.FileTree
import Colloquy.Prompt.Frontmatter
import Colloquy.Schema.Pico
import Colloquy.Schema.Validation
import Colloquy.Template.Cache
import Colloquy.Tool

/-!
# Prompts

A prompt is a compiled template with all that belongs to it: the schemas of its input and output,
values for variables that are not given, the model, the tools, and settings.  It is rendered with an
input into messages, or into a whole request.
-/

namespace Colloquy

/-- Why a prompt cannot be built or rendered.  Most errors name the prompt by its key. -/
inductive PromptError where
  | schema (error : SchemaError)
  | template (error : TemplateError)
  | duplicateOption (prompt option : String)
  /-- Both a model and the name of one are given. -/
  | conflictingModel (prompt : String)
  | missingModel (prompt : String)
  | missingTemplate (prompt : String)
  | structuredWithoutSchema (prompt : String)
  | invalidInput (prompt : String) (violations : List String)
  | inputNotObject (prompt : String) (found : Json)
  | unknownTool (prompt tool : String)
  | frontmatter (source : String) (error : FrontmatterError)
  | unreadable (path : String) (error : ReadError)
  deriving DecidableEq, Repr

def PromptError.message : PromptError → String
  | schema e => e.message
  | template e => e.message
  | duplicateOption prompt option => s!"prompt '{prompt}': option '{option}' was set more than once"
  | conflictingModel prompt =>
    s!"prompt '{prompt}': set either a model reference or a model name, not both"
  | missingModel prompt => s!"prompt '{prompt}': no model configured"
  | missingTemplate prompt => s!"prompt '{prompt}': no template text"
  | structuredWithoutSchema prompt =>
    s!"prompt '{prompt}': structured output requires an output schema"
  | invalidInput prompt violations =>
    s!"prompt '{prompt}': input does not match schema: " ++ "; ".intercalate violations
  | inputNotObject prompt found =>
    s!"prompt '{prompt}': input must be an object, got {found.shapeName}"
  | unknownTool prompt tool => s!"prompt '{prompt}': unknown tool '{tool}'"
  | frontmatter source e =>
    s!"invalid frontmatter in '{source}'" ++ (match e.detail? with
      | some detail => ": " ++ detail
      | none => "")
  | unreadable path e => s!"failed to read prompt source '{path}': {e.message}"

/-- How a prompt chooses its model. -/
inductive ModelChoice (ω : Type) where
  /-- By a name, looked up when the prompt is used. -/
  | named (name : String)
  | given (model : Model ω)

/-- A prompt that is ready for use. -/
structure Prompt (ω : Type) where
  name : String
  variant : Option String
  template : Template
  inputSchema : Option Schema
  outputSchema : Option Schema
  outputFormat : OutputFormat
  /-- The values of variables that are not given. -/
  defaults : Fields
  config : Config
  /-- The names of the tools that the model is told about. -/
  tools : List String
  toolChoice : Option ToolChoice
  model : ModelChoice ω
  maxTurns : Option Nat
  description : Option String
  metadata : Fields

/-- What a prompt is known by: its name, with the variant behind a point. -/
def promptKey (name : String) : Option String → String
  | some variant => s!"{name}.{variant}"
  | none => name

/-- What a prompt is rendered with beside its input. -/
structure RenderOptions where
  /-- The conversation so far. -/
  history : List Message := []
  partials : Partials := []
  /-- The values that a template names with an at sign. -/
  data : Fields := []

namespace Prompt

variable {ω : Type}

def key (p : Prompt ω) : String := promptKey p.name p.variant

/-- The variables that an input gives; null gives none. -/
def inputFields (p : Prompt ω) : Json → Except PromptError Fields
  | .obj fields => .ok fields
  | .null => .ok []
  | found => .error (.inputNotObject p.key found)

/-- Checks the variables of a rendering against the input schema. -/
def checkInput (p : Prompt ω) (root : Json) : Except PromptError Unit :=
  match p.inputSchema with
  | none => .ok ()
  | some schema =>
    match JsonSchema.violations schema.toJson root with
    | [] => .ok ()
    | violations => .error (.invalidInput p.key violations)

/-- The messages that an input gives.  The input is laid over the defaults, and the result has to
satisfy the input schema. -/
def render (p : Prompt ω) (input : Json) (options : RenderOptions) :
    Except PromptError (List Message) := do
  let root := Json.obj (p.defaults.overlay (← p.inputFields input))
  p.checkInput root
  let text ← (p.template.render options.partials { root, data := options.data }).mapError .template
  return Message.assemble text options.history

/-- The definitions of the tools that the prompt names. -/
def toolDefinitions (p : Prompt ω) (tools : ToolLookup ω) :
    Except PromptError (List ToolDefinition) :=
  p.tools.mapM fun name =>
    match tools name with
    | some tool => .ok tool.definition
    | none => .error (.unknownTool p.key name)

/-- The request that an input gives. -/
def request (p : Prompt ω) (input : Json) (options : RenderOptions) (tools : ToolLookup ω) :
    Except PromptError Request := do
  let messages ← p.render input options
  return {
    messages
    config := p.config
    outputFormat := p.outputFormat
    outputSchema := p.outputSchema.map Schema.toJson
    tools := ← p.toolDefinitions tools
    toolChoice := p.toolChoice }

end Prompt

end Colloquy
