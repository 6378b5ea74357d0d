import Colloquy.Activity
import Colloquy.Request
import Colloquy.Schema.Validation

/-!
# Tools and models

A tool has a definition, which a model is told, and is invoked with an input.  An invocation is an
activity on what surrounds a run: whatever state tools and models share, and whether the run has
been cancelled.  It ends with an outcome, or it panics.

A model answers a request with a message.  It may report chunks of that message on the way.
-/

namespace Colloquy

/-- What surrounds the tools and the model of a run. -/
structure Surroundings (ω : Type) where
  /-- The run has been cancelled. -/
  cancelled : Bool
  /-- The state that tools and models share. -/
  world : ω

/-- The result of a tool call. -/
inductive Outcome where
  | success (output : Json)
  /-- The run pauses, with metadata for the caller. -/
  | interrupt (metadata : Json)
  | failure (message : String)
  deriving DecidableEq, Repr

/-- How an invocation ends. -/
inductive Ending where
  | returned (outcome : Outcome)
  /-- The tool broke down, with a message if it left one. -/
  | panicked (message : Option String)
  deriving DecidableEq, Repr

/-- What a tool is told about a call beside its input. -/
structure CallContext where
  reference : Option String := none
  /-- What the caller has to say to a call that interrupted and is now made again. -/
  resumed : Option Json := none
  deriving DecidableEq, Repr

structure Tool (ω : Type) where
  definition : ToolDefinition
  invoke : CallContext → Json → Activity (Surroundings ω) Ending

namespace Tool

variable {ω : Type}

/-- A tool that decodes its input; an input that cannot be decoded is a failure. -/
def typed {α : Type} (definition : ToolDefinition) (decode : Json → Decoded α)
    (handler : CallContext → α → Activity (Surroundings ω) Ending) : Tool ω where
  definition
  invoke context input :=
    match decode input with
    | .ok a => handler context a
    | .error e => .done (.returned (.failure ("invalid tool input: " ++ e.message)))

/-- A tool that asks a person: it interrupts with its input as metadata, and when the call is made
again the answer is its output. -/
def asking (definition : ToolDefinition) : Tool ω where
  definition
  invoke context input :=
    match context.resumed with
    | some answer => .done (.returned (.success answer))
    | none => .done (.returned (.interrupt input))

end Tool

/-- The tools that a run can find by name. -/
abbrev ToolLookup (ω : Type) := String → Option (Tool ω)

/-- Tools under their names; a tool that is added replaces the one of the same name. -/
abbrev ToolSet (ω : Type) := Table (Tool ω)

namespace ToolSet

variable {ω : Type}

/-- Adds a tool under its name. -/
def add (tools : ToolSet ω) (tool : Tool ω) : ToolSet ω := Table.set tools tool.definition.name tool

/-- The names in order. -/
def names (tools : ToolSet ω) : List String := (Table.keys tools).mergeSort (· ≤ ·)

/-- The definitions in the order of the names. -/
def definitions (tools : ToolSet ω) : List ToolDefinition :=
  ((tools.map fun (_, tool) => tool.definition).mergeSort fun a b => a.name ≤ b.name)

end ToolSet

/-- The tools of one lookup, and those of another where the first knows none. -/
def ToolLookup.orElse {ω : Type} (first second : ToolLookup ω) : ToolLookup ω :=
  fun name => (first name).or (second name)

/-- Why the input of a call is refused, if it does not satisfy the schema that the tool declares. -/
def ToolDefinition.rejection? (d : ToolDefinition) (input : Json) : Option String :=
  match JsonSchema.violations d.inputSchema input with
  | [] => none
  | violations =>
    some (s!"input validation failed for tool '{d.name}': " ++ "; ".intercalate violations)

/-! ## Models -/

/-- What a model answers. -/
structure Reply where
  message : Message
  finishReason : FinishReason := .stop
  usage : Option Usage := none
  deriving DecidableEq, Repr

/-- A failure that a model reports. -/
structure ModelError where
  model : String
  message : String
  deriving DecidableEq, Repr

/-- What a model call comes to. -/
structure ModelCall (ω : Type) where
  /-- The chunks that were reported on the way, each a list of parts. -/
  chunks : List (List Part)
  result : Except ModelError Reply
  after : Surroundings ω

structure Model (ω : Type) where
  name : String
  call : Request → Surroundings ω → ModelCall ω

end Colloquy
