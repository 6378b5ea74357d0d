import Colloquy.Tool

/-!
# What happens in a run

A run reports its progress as events, and it keeps a journal in which the events stand together with
what was asked of the model, what was invoked and what came back.  Nothing in a run depends on the
journal; it is there to be looked at.
-/

namespace Colloquy

/-- A tool call that paused a run. -/
structure Interrupt where
  toolName : String
  reference : Option String
  /-- The input that the model passed to the tool. -/
  input : Json
  /-- What the tool has to say about the interrupt. -/
  metadata : Json
  deriving DecidableEq, Repr

/-- Progress of a run. -/
inductive Event where
  /-- A model call is about to start. -/
  | turnStart (turn maxTurns messages : Nat)
  /-- The model reported a chunk. -/
  | chunk (turn : Nat) (content : List Part)
  | modelResponse (turn : Nat) (message : Message) (finishReason : FinishReason)
  | tokenUsage (usage : Usage)
  /-- The response asks for tool calls. -/
  | toolCallsReceived (turn count : Nat)
  | toolExecuting (name : String) (reference : Option String) (input : Json)
  | toolResult (name : String) (reference : Option String) (output : Json)
  | interrupted (interrupts : List Interrupt)
  /-- Resume directives were applied before the first model call. -/
  | resumed (responses : Nat)
  /-- The run came to its end after that many turns. -/
  | finished (turns : Nat)
  | turnLimitReached (maxTurns : Nat)
  deriving DecidableEq, Repr

/-- A reference as JSON; there may be none. -/
def referenceJson (reference : Option String) : Json := (reference.map Json.str).getD .null

def Interrupt.toJson (i : Interrupt) : Json :=
  .obj [("toolName", .str i.toolName), ("ref", referenceJson i.reference), ("input", i.input),
    ("metadata", i.metadata)]

/-- An event as JSON: its name with what it tells, in an array. -/
def Event.toJson : Event → Json
  | turnStart turn maxTurns messages =>
    .arr [.str "TurnStart", .ofNat turn, .ofNat maxTurns, .ofNat messages]
  | chunk turn content => .arr [.str "Chunk", .ofNat turn, .arr (content.map Part.toJson)]
  | modelResponse turn message finishReason =>
    .arr [.str "ModelResponse", .ofNat turn, .str message.text, finishReason.toJson]
  | tokenUsage usage => .arr [.str "TokenUsage", usage.toJson]
  | toolCallsReceived turn count => .arr [.str "ToolCallsReceived", .ofNat turn, .ofNat count]
  | toolExecuting name reference input =>
    .arr [.str "ToolExecuting", .str name, referenceJson reference, input]
  | toolResult name reference output =>
    .arr [.str "ToolResult", .str name, referenceJson reference, output]
  | interrupted interrupts => .arr [.str "Interrupted", .arr (interrupts.map Interrupt.toJson)]
  | resumed responses => .arr [.str "Resumed", .ofNat responses]
  | finished turns => .arr [.str "Finished", .ofNat turns]
  | turnLimitReached maxTurns => .arr [.str "TurnLimitReached", .ofNat maxTurns]

/-- Something that goes on but should be looked at. -/
inductive Warning where
  | unknownTool (name : String)
  | toolPanicked (name message : String)
  | turnLimitExceeded (maxTurns : Nat)
  | unusedDirective (name : String) (reference : Option String)
  deriving DecidableEq, Repr

/-- An entry of a journal. -/
inductive Entry where
  | event (event : Event)
  | warning (warning : Warning)
  /-- A request went to a model. -/
  | asked (model : String) (request : Request)
  /-- A tool was invoked. -/
  | invoked (tool : ToolDefinition) (context : CallContext) (input : Json)
  /-- An invocation came back. -/
  | returned (tool : ToolDefinition) (context : CallContext) (outcome : Outcome)
  deriving DecidableEq, Repr

/-- A run as it goes on: what happened, and what surrounds it. -/
structure Session (ω : Type) where
  journal : List Entry := []
  around : Surroundings ω

namespace Session

variable {ω : Type}

/-- Notes that something happened. -/
def note (entry : Entry) (s : Session ω) : Session ω := { s with journal := s.journal ++ [entry] }

/-- Notes some events. -/
def noteEvents (events : List Event) (s : Session ω) : Session ω :=
  { s with journal := s.journal ++ events.map .event }

/-- An activity that notes something. -/
def noting (entry : Entry) : Activity (Session ω) Unit := .modify (note entry)

/-- The events of a journal. -/
def events (s : Session ω) : List Event :=
  s.journal.filterMap fun
    | .event e => some e
    | _ => none

end Session

end Colloquy
