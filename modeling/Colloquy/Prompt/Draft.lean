import Colloquy.Prompt.Basic

/-!
# Drafts of prompts

A draft is a name with the options that were set for it, in order.  Each option may be set once; a
draft that sets one twice cannot be built, but for all else the last value of an option counts.
-/

namespace Colloquy

/-- An option of a prompt with its value. -/
inductive PromptOption (ω : Type) where
  | variant (variant : String)
  | template (source : String)
  /-- The model under a name, looked up when the prompt is used. -/
  | modelName (name : String)
  | model (model : Model ω)
  /-- Picoschema or JSON Schema. -/
  | inputSchema (schema : Json)
  /-- An input that gives the defaults, and the input schema when there is no other. -/
  | inputExample (input : Json)
  | defaultVariables (defaults : Fields)
  | outputFormat (format : OutputFormat)
  /-- Picoschema or JSON Schema; with it the output is JSON unless a format is set. -/
  | outputSchema (schema : Json)
  | config (config : Config)
  | tools (names : List String)
  | toolChoice (choice : ToolChoice)
  | maxTurns (turns : Nat)
  | description (description : String)
  | metadata (metadata : Fields)

namespace PromptOption

variable {ω : Type}

/-- The name of the option. -/
def name : PromptOption ω → String
  | variant _ => "variant"
  | template _ => "template"
  | modelName _ => "model_name"
  | model _ => "model"
  | inputSchema _ => "input_schema"
  | inputExample _ => "input_example"
  | defaultVariables _ => "default_variables"
  | outputFormat _ => "output_format"
  | outputSchema _ => "output_schema"
  | config _ => "config"
  | tools _ => "tools"
  | toolChoice _ => "tool_choice"
  | maxTurns _ => "max_turns"
  | description _ => "description"
  | metadata _ => "metadata"

/-- The first name that came before, where some names came before already. -/
def firstRepeated (seen : List String) : List (PromptOption ω) → Option String
  | [] => none
  | o :: rest =>
    if seen.contains o.name then some o.name else firstRepeated (o.name :: seen) rest

end PromptOption

/-- A prompt that is being put together. -/
structure PromptDraft (ω : Type) where
  name : String
  options : List (PromptOption ω) := []

namespace PromptDraft

variable {ω α : Type}

/-- The draft with some options more. -/
def set (d : PromptDraft ω) (options : List (PromptOption ω)) : PromptDraft ω :=
  { d with options := d.options ++ options }

/-- The last value that the options have for something. -/
def last? (d : PromptDraft ω) (pick : PromptOption ω → Option α) : Option α :=
  (d.options.filterMap pick).getLast?

def variant? (d : PromptDraft ω) : Option String :=
  d.last? fun
    | .variant variant => some variant
    | _ => none

/-- What the prompt will be known by. -/
def key (d : PromptDraft ω) : String := promptKey d.name d.variant?

def modelName? (d : PromptDraft ω) : Option String :=
  d.last? fun
    | .modelName name => some name
    | _ => none

def model? (d : PromptDraft ω) : Option (Model ω) :=
  d.last? fun
    | .model model => some model
    | _ => none

/-- A model is chosen in one way or the other. -/
def hasModel (d : PromptDraft ω) : Bool := d.model?.isSome || d.modelName?.isSome

def template? (d : PromptDraft ω) : Option String :=
  d.last? fun
    | .template source => some source
    | _ => none

def outputFormat? (d : PromptDraft ω) : Option OutputFormat :=
  d.last? fun
    | .outputFormat format => some format
    | _ => none

/-! ## Building -/

/-- The model that a draft chooses. -/
def modelChoice (d : PromptDraft ω) : Except PromptError (ModelChoice ω) :=
  match d.model?, d.modelName? with
  | some _, some _ => .error (.conflictingModel d.key)
  | some model, none => .ok (.given model)
  | none, some name => .ok (.named name)
  | none, none => .error (.missingModel d.key)

/-- What a prompt cannot do without: its model and the source of its template. -/
def essentials (d : PromptDraft ω) : Except PromptError (ModelChoice ω × String) := do
  if let some option := PromptOption.firstRepeated [] d.options then
    throw (.duplicateOption d.key option)
  let model ← d.modelChoice
  match d.template? with
  | some source => return (model, source)
  | none => throw (.missingTemplate d.key)

/-- Compiles the schema that an option gives. -/
def schema (d : PromptDraft ω) (resolve : Schema.Resolver) (pick : PromptOption ω → Option Json) :
    Except PromptError (Option Schema) :=
  match d.last? pick with
  | some value => ((Schema.compile resolve value).map some).mapError .schema
  | none => .ok none

/-- The input schema and the defaults.  An example gives both where no others are set. -/
def input (d : PromptDraft ω) (resolve : Schema.Resolver) :
    Except PromptError (Option Schema × Fields) := do
  let schema ← d.schema resolve fun
    | .inputSchema schema => some schema
    | _ => none
  let defaults := (d.last? fun
    | .defaultVariables defaults => some defaults
    | _ => none).getD []
  let inputExample := d.last? fun
    | .inputExample input => some input
    | _ => none
  match inputExample with
  | none => return (schema, defaults)
  | some (.obj fields) =>
    return (schema.or (some (Schema.infer (.obj fields))), Table.overlay fields defaults)
  | some found => throw (.inputNotObject d.key found)

/-- The output schema and the output format. -/
def output (d : PromptDraft ω) (resolve : Schema.Resolver) :
    Except PromptError (Option Schema × OutputFormat) := do
  let schema ← d.schema resolve fun
    | .outputSchema schema => some schema
    | _ => none
  let format := d.outputFormat?.getD (if schema.isSome then .json else .text)
  if format = .structured ∧ schema.isNone then throw (.structuredWithoutSchema d.key)
  return (schema, format)

/-- Builds the prompt, with templates compiled in some way and schemas known by name. -/
def buildWith (compile : String → Except TemplateError Template) (resolve : Schema.Resolver)
    (d : PromptDraft ω) : Except PromptError (Prompt ω) := do
  let (model, source) ← d.essentials
  let template ← (compile source).mapError .template
  let (inputSchema, defaults) ← d.input resolve
  let (outputSchema, outputFormat) ← d.output resolve
  return {
    name := d.name
    variant := d.variant?
    template
    inputSchema
    outputSchema
    outputFormat
    defaults
    config := (d.last? fun
      | .config config => some config
      | _ => none).getD {}
    tools := (d.last? fun
      | .tools names => some names
      | _ => none).getD []
    toolChoice := d.last? fun
      | .toolChoice choice => some choice
      | _ => none
    model
    maxTurns := d.last? fun
      | .maxTurns turns => some turns
      | _ => none
    description := d.last? fun
      | .description description => some description
      | _ => none
    metadata := (d.last? fun
      | .metadata metadata => some metadata
      | _ => none).getD [] }

/-- Builds the prompt. -/
def build (d : PromptDraft ω) : Except PromptError (Prompt ω) :=
  d.buildWith Template.compile Schema.noNames

/-- Builds the prompt with the template taken from a cache, and the cache afterwards. -/
def buildCached (cache : TemplateCache) (resolve : Schema.Resolver) (d : PromptDraft ω) :
    TemplateCache × Except PromptError (Prompt ω) :=
  let after := match d.essentials with
    | .ok (_, source) => cache.remember source
    | .error _ => cache
  (after, d.buildWith cache.compile resolve)

end PromptDraft

end Colloquy
