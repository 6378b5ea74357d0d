import Colloquy.Loop.Call

/-!
# Tool batches

The tool calls that one message of the model asks for are a batch.  They run side by side or one
after the other, and either way their outcomes are settled in the order of the requests.

If no call interrupts, each has a response.  If one does, there is no response at all: the message
is annotated instead, so that each of its requests carries either its interrupt or, for a call that
completed, its output for later.
-/

namespace Colloquy

/-- What a call of a batch came to: a response, or the metadata of an interrupt. -/
inductive Answer where
  | response (response : ToolResponse)
  | interrupt (metadata : Json)
  deriving DecidableEq, Repr

/-- The answer to a request from the outcome of its call.  A failure is told as an error payload,
and an interrupt without metadata has `true` for it. -/
def Answer.ofOutcome (r : ToolRequest) : Outcome → Answer
  | .success output => response ⟨r.name, r.reference, output⟩
  | .failure message => response ⟨r.name, r.reference, ToolResponse.errorPayload message⟩
  | .interrupt metadata => interrupt (if metadata.isNull then .bool true else metadata)

namespace Batch

variable {ω : Type}

/-- Runs the call that a request asks for. -/
def runRequest (tools : ToolLookup ω) (options : CallOptions) (r : ToolRequest) :
    Activity (Session ω) Outcome :=
  (Session.noting (.event (.toolExecuting r.name r.reference r.input))).bind fun _ =>
    match tools r.name with
    | some tool => tool.run options ⟨r.reference, none⟩ r.input
    | none =>
      (Session.noting (.warning (.unknownTool r.name))).bind fun _ =>
        .done (.failure s!"unknown tool '{r.name}'")

/-- Runs all calls of a batch, unless the run is cancelled before or while they wait. -/
def run (tools : ToolLookup ω) (options : CallOptions) (concurrent : Bool)
    (requests : List ToolRequest) : Activity (Session ω) (Option (List Outcome)) :=
  let calls := requests.map (runRequest tools options)
  Activity.guarded (fun s => s.around.cancelled)
    (if concurrent then Activity.together calls else Activity.inOrder calls)

/-! ## Settling -/

/-- The answers to some requests from the outcomes of their calls. -/
def answers (requests : List ToolRequest) (outcomes : List Outcome) : List Answer :=
  requests.zipWith Answer.ofOutcome outcomes

/-- The events that report the answers that are responses. -/
def resultEvents (answers : List Answer) : List Event :=
  answers.filterMap fun
    | .response r => some (.toolResult r.name r.reference r.output)
    | .interrupt _ => none

/-- The responses among some answers. -/
def responses (answers : List Answer) : List ToolResponse :=
  answers.filterMap fun
    | .response r => some r
    | .interrupt _ => none

/-- The interrupts among the answers to some requests. -/
def interrupts : List ToolRequest → List Answer → List Interrupt
  | r :: requests, .interrupt metadata :: answers =>
    ⟨r.name, r.reference, r.input, metadata⟩ :: interrupts requests answers
  | _ :: requests, .response _ :: answers => interrupts requests answers
  | _, _ => []

/-- A request that carries the answer to it. -/
def mark (r : ToolRequest) : Answer → ToolRequest
  | .response response => { r with pendingOutput := some response.output }
  | .interrupt metadata => { r with interrupt := some metadata }

/-- Parts in which each tool request in turn carries the next answer. -/
def annotate : List Part → List Answer → List Part
  | .toolRequest r :: parts, answer :: answers =>
    .toolRequest (mark r answer) :: annotate parts answers
  | part :: parts, answers => part :: annotate parts answers
  | [], _ => []

/-- What a batch comes to. -/
inductive Settled where
  /-- Every call has a response. -/
  | answered (responses : List ToolResponse)
  /-- Some call interrupted, and the message carries the answers. -/
  | paused (message : Message) (interrupts : List Interrupt)
  deriving DecidableEq, Repr

/-- Settles a batch from the outcomes of its calls, in the order of the requests. -/
def settle (message : Message) (outcomes : List Outcome) : Settled :=
  let requests := message.toolRequests
  let answers := answers requests outcomes
  match interrupts requests answers with
  | [] => .answered (responses answers)
  | interrupts => .paused { message with content := annotate message.content answers } interrupts

end Batch

end Colloquy
