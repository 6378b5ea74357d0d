import Colloquy.Loop.Run
import Colloquy.Prompt.Folder

/-!
# Registries

A registry knows models, tools, prompts, partials and schemas by name.  Prompts are known by their
key, and whatever is registered under a name or key replaces what was there.  A prompt is generated
by rendering it and running the loop with what the registry knows.
-/

namespace Colloquy

structure Registry (ω : Type) where
  models : Table (Model ω) := []
  /-- The name of the model for prompts that choose none. -/
  defaultModel : Option String := none
  tools : ToolSet ω := []
  prompts : Table (Prompt ω) := []
  partials : Partials := []
  schemas : Table Schema := []
  templates : TemplateCache := {}

namespace Registry

variable {ω : Type}

/-- Registers a model under its own name. -/
def addModel (r : Registry ω) (model : Model ω) : Registry ω :=
  { r with models := r.models.set model.name model }

def addTool (r : Registry ω) (tool : Tool ω) : Registry ω := { r with tools := r.tools.add tool }

/-- Registers a schema under a name.  It may refer to the schemas that are registered. -/
def addSchema (r : Registry ω) (name : String) (value : Json) :
    Except PromptError (Registry ω) := do
  let schema ← (Schema.compile r.schemas.get? value).mapError .schema
  return { r with schemas := r.schemas.set name schema }

/-- Registers a partial under a name. -/
def addPartial (r : Registry ω) (name source : String) : Except PromptError (Registry ω) := do
  let (template, templates) ← (r.templates.getOrCompile source).mapError .template
  return { r with partials := Table.set r.partials name template, templates }

/-- The draft with the default model, unless it chooses a model itself. -/
def complete (r : Registry ω) (d : PromptDraft ω) : PromptDraft ω :=
  match r.defaultModel with
  | some name => if d.hasModel then d else d.set [.modelName name]
  | none => d

/-- Builds a prompt and registers it. -/
def define (r : Registry ω) (d : PromptDraft ω) : Registry ω × Except PromptError (Prompt ω) :=
  let (templates, result) := (r.complete d).buildCached r.templates r.schemas.get?
  match result with
  | .ok prompt => ({ r with templates, prompts := r.prompts.set prompt.key prompt }, .ok prompt)
  | .error e => ({ r with templates }, .error e)

def prompt? (r : Registry ω) (name : String) (variant : Option String) : Option (Prompt ω) :=
  r.prompts.get? (promptKey name variant)

/-! ## Directories -/

/-- Registers some partials.  Those before one that cannot be read stay registered. -/
def addPartials (r : Registry ω) : List (String × String) → Registry ω × Except PromptError Unit
  | [] => (r, .ok ())
  | (name, source) :: rest =>
    match r.addPartial name source with
    | .ok r => addPartials r rest
    | .error e => (r, .error e)

/-- Defines the prompts of some sources.  Those before one that cannot be built stay defined. -/
def defineAll (r : Registry ω) : List PromptSource → Registry ω × Except PromptError Unit
  | [] => (r, .ok ())
  | source :: rest =>
    match r.define source.draft with
    | (r, .ok _) => defineAll r rest
    | (r, .error e) => (r, .error e)

/-- Registers all that a directory holds, partials first. -/
def addFolder (r : Registry ω) (folder : PromptFolder) : Registry ω × Except PromptError Unit :=
  match r.addPartials folder.partials with
  | (r, .ok ()) => r.defineAll folder.prompts
  | (r, .error e) => (r, .error e)

/-! ## Overview -/

/-- Names in order, as literals in brackets. -/
def listing (names : List String) : String :=
  "[" ++ ", ".intercalate ((names.mergeSort (· ≤ ·)).map Text.literal) ++ "]"

/-- What is registered, in one line. -/
def overview (r : Registry ω) : String :=
  "Registry \x7b models: " ++ listing r.models.keys ++
    ", tools: ToolSet \x7b tools: " ++ listing r.tools.names ++ " \x7d, prompts: " ++
    listing r.prompts.keys ++ s!", partials: {r.partials.length}" ++ " \x7d"

end Registry

/-! ## Generating -/

/-- Why a prompt cannot be generated. -/
inductive GenerateError where
  | prompt (error : PromptError)
  | unknownModel (name : String)
  | run (error : RunError)
  deriving DecidableEq, Repr

def GenerateError.message : GenerateError → String
  | prompt e => e.message
  | unknownModel name => s!"unknown model '{name}'"
  | run e => e.message

/-- What a prompt is generated with beside its input. -/
structure PromptCall where
  options : RunOptions := {}
  /-- The conversation so far; when a run is resumed, all of it up to where the run paused. -/
  history : List Message := []
  directives : List Directive := []
  /-- Settings that are laid over those of the prompt. -/
  config : Config := {}
  data : Fields := []

namespace PromptCall

/-- The call takes a run up again that paused. -/
def isResumption (c : PromptCall) : Bool := !c.directives.isEmpty

/-- The options of the run; the turns that a prompt allows win. -/
def runOptions {ω : Type} (c : PromptCall) (p : Prompt ω) : RunOptions :=
  match p.maxTurns with
  | some maxTurns => { c.options with maxTurns }
  | none => c.options

end PromptCall

namespace Registry

variable {ω : Type}

/-- The model that a prompt chooses. -/
def modelOf (r : Registry ω) (p : Prompt ω) : Except GenerateError (Model ω) :=
  match p.model with
  | .given model => .ok model
  | .named name =>
    match r.models.get? name with
    | some model => .ok model
    | none => .error (.unknownModel name)

/-- The request of a call.  A run that is resumed goes on with its own messages, and the prompt is
rendered for all else. -/
def requestOf (r : Registry ω) (p : Prompt ω) (input : Json) (c : PromptCall) :
    Except PromptError Request := do
  let rendering : RenderOptions :=
    { history := if c.isResumption then [] else c.history, partials := r.partials, data := c.data }
  let request ← p.request input rendering r.tools.get?
  return { request with
    messages := if c.isResumption then c.history else request.messages
    config := request.config.merge c.config }

/-- Renders a prompt and runs it. -/
def generate (r : Registry ω) (p : Prompt ω) (input : Json) (c : PromptCall) (s : Session ω) :
    Session ω × Except GenerateError Response :=
  match r.modelOf p with
  | .error e => (s, .error e)
  | .ok model =>
    match r.requestOf p input c with
    | .error e => (s, .error (.prompt e))
    | .ok request =>
      let (s, result) := run model r.tools.get? (c.runOptions p) c.directives request s
      (s, result.mapError .run)

end Registry

end Colloquy
