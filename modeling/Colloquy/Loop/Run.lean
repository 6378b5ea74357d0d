import Colloquy.Loop.Batch
import Colloquy.Loop.Resume
import Colloquy.Output

/-!
# The loop

A run asks the model, has the tool calls of its answer run, appends both to the conversation, and
asks again.  It ends when an answer asks for no tool calls, when a tool call interrupts, or when the
turns that are allowed are used up.  A turn is a batch of tool calls that completed; the loop
recurses on the number of turns that are left.
-/

namespace Colloquy

/-- How a run is made. -/
structure RunOptions where
  /-- The turns that are allowed. -/
  maxTurns : Nat := 5
  /-- The calls of a batch run side by side. -/
  concurrent : Bool := true
  calls : CallOptions := {}
  /-- Tool calls are left to the caller: the run ends with the first answer. -/
  returnToolRequests : Bool := false
  deriving DecidableEq, Repr

/-- How a run ended. -/
inductive RunState where
  | done
  | interrupted
  /-- The model asks for tool calls, and the caller makes them. -/
  | toolRequests
  deriving DecidableEq, Repr

/-- What a run comes to. -/
structure Response where
  /-- The last message of the model.  When the run was interrupted its requests carry
  annotations. -/
  message : Message
  finishReason : FinishReason
  state : RunState
  interrupts : List Interrupt
  /-- The whole conversation with the last message; a run is resumed with it. -/
  messages : List Message
  /-- The usage of all model calls together. -/
  usage : Usage
  turns : Nat
  /-- The last request that went to the model. -/
  request : Request
  deriving DecidableEq, Repr

namespace Response

def text (r : Response) : String := r.message.text

/-- The output of the run, which has to satisfy the output schema of the request. -/
def output (r : Response) : Except OutputError Json := Output.read r.request.outputSchema r.text

end Response

namespace Run

variable {ω : Type}

/-- How far a run has come: what goes to the model next, what was used, and the turns so far. -/
structure Progress where
  request : Request
  usage : Usage
  turn : Nat
  deriving DecidableEq, Repr

namespace Progress

/-- The progress with the usage of one more model call. -/
def use (p : Progress) (usage : Option Usage) : Progress :=
  match usage with
  | some u => { p with usage := p.usage.add u }
  | none => p

/-- The progress after a turn: the answer of the model and the responses to it are appended. -/
def advance (p : Progress) (answer : Message) (responses : List ToolResponse) : Progress where
  request := { p.request with
    messages := p.request.messages ++ [answer, Message.ofResponses responses] }
  usage := p.usage
  turn := p.turn + 1

/-- What the run comes to when it ends with a message. -/
def response (p : Progress) (message : Message) (finishReason : FinishReason) (state : RunState)
    (interrupts : List Interrupt) : Response where
  message
  finishReason
  state
  interrupts
  messages := p.request.messages ++ [message]
  usage := p.usage
  turns := p.turn
  request := p.request

end Progress

/-- The result of a run. -/
abbrev Result (ω : Type) := Session ω × Except RunError Response

/-- The events that report the answer of a model. -/
def replyEvents (turn : Nat) (reply : Reply) : List Event :=
  (match reply.usage with
    | some usage => [.tokenUsage usage]
    | none => []) ++
  [.modelResponse turn reply.message reply.finishReason]

/-- Asks the model.  Asking is noted, and so are the chunks that the model reports. -/
def ask (model : Model ω) (p : Progress) (s : Session ω) :
    Session ω × Except ModelError Reply :=
  let call := model.call p.request s.around
  let s := s.note (.asked model.name p.request)
  let s := s.noteEvents (call.chunks.map (.chunk p.turn))
  ({ s with around := call.after }, call.result)

/-- Ends a run that did not pause. -/
def finish (p : Progress) (reply : Reply) (state : RunState) (s : Session ω) : Result ω :=
  (s.note (.event (.finished p.turn)),
    .ok (p.response reply.message reply.finishReason state []))

/-- Ends a run because a tool call interrupted. -/
def pause (p : Progress) (message : Message) (interrupts : List Interrupt) (s : Session ω) :
    Result ω :=
  (s.note (.event (.interrupted interrupts)),
    .ok (p.response message .interrupted .interrupted interrupts))

/-- Fails a run because no turns are left. -/
def exceed (options : RunOptions) (s : Session ω) : Result ω :=
  let s := s.note (.warning (.turnLimitExceeded options.maxTurns))
  (s.note (.event (.turnLimitReached options.maxTurns)),
    .error (.turnLimitExceeded options.maxTurns))

/-- Runs the batch of an answer; there are no outcomes when the run is cancelled. -/
def runBatch (tools : ToolLookup ω) (options : RunOptions) (p : Progress) (message : Message)
    (s : Session ω) : Session ω × Option (List Outcome) :=
  let requests := message.toolRequests
  let s := s.note (.event (.toolCallsReceived p.turn requests.length))
  (Batch.run tools options.calls options.concurrent requests).run s

/-- Notes the results of a batch. -/
def noteResults (message : Message) (outcomes : List Outcome) (s : Session ω) : Session ω :=
  s.noteEvents (Batch.resultEvents (Batch.answers message.toolRequests outcomes))

/-- Runs turns as long as some are left. -/
def turns (model : Model ω) (tools : ToolLookup ω) (options : RunOptions) :
    (left : Nat) → Progress → Session ω → Result ω
  | left, p, s =>
    let s := s.note (.event (.turnStart p.turn options.maxTurns p.request.messages.length))
    if s.around.cancelled then (s, .error .cancelled)
    else
      match ask model p s with
      | (s, .error e) => (s, .error (.model e))
      | (s, .ok reply) =>
        let s := s.noteEvents (replyEvents p.turn reply)
        let p := p.use reply.usage
        if !reply.message.hasToolRequests then finish p reply .done s
        else if options.returnToolRequests then finish p reply .toolRequests s
        else
          match left with
          | 0 => exceed options s
          | left + 1 =>
            match runBatch tools options p reply.message s with
            | (s, none) => (s, .error .cancelled)
            | (s, some outcomes) =>
              let s := noteResults reply.message outcomes s
              match Batch.settle reply.message outcomes with
              | .answered responses =>
                turns model tools options left (p.advance reply.message responses) s
              | .paused message interrupts => pause p message interrupts s

/-- Applies directives before the first turn, if there are any. -/
def resume (tools : ToolLookup ω) (options : RunOptions) (directives : List Directive)
    (request : Request) (s : Session ω) : Session ω × Except RunError Request :=
  if directives.isEmpty then (s, .ok request)
  else
    match Resume.apply tools options.calls request.messages directives s with
    | (s, .error e) => (s, .error e)
    | (s, .ok (messages, responses)) =>
      (s.note (.event (.resumed responses)), .ok { request with messages })

end Run

/-- Runs a request with a model and tools, after following directives if there are any. -/
def run {ω : Type} (model : Model ω) (tools : ToolLookup ω) (options : RunOptions)
    (directives : List Directive) (request : Request) (s : Session ω) : Run.Result ω :=
  match Run.resume tools options directives request s with
  | (s, .error e) => (s, .error e)
  | (s, .ok request) => Run.turns model tools options options.maxTurns ⟨request, {}, 0⟩ s

end Colloquy
