import Colloquy.Loop.Call

/-!
# Resuming a paused run

A run that paused is taken up again with one directive for each interrupt.  A directive gives the
output of the call, or has the tool called again.  The requests of the last message are answered in
order: one that carries an output from before is answered with it, and every other needs a directive
with its name and reference; of several such directives the first counts.
-/

namespace Colloquy

/-- What to do about a call that interrupted. -/
inductive Directive where
  /-- Take this as the output of the call. -/
  | respond (name : String) (reference : Option String) (output : Json)
  /-- Call the tool again, with another input if there is one. -/
  | restart (name : String) (reference : Option String) (input resumed : Option Json)
  deriving DecidableEq, Repr

namespace Directive

def name : Directive → String
  | respond name .. => name
  | restart name .. => name

def reference : Directive → Option String
  | respond _ reference _ => reference
  | restart _ reference .. => reference

/-- Answers an interrupt. -/
def answering (i : Interrupt) (output : Json) : Directive := respond i.toolName i.reference output

/-- Has the tool of an interrupt called again. -/
def restarting (i : Interrupt) : Directive := restart i.toolName i.reference none none

/-- A restart with something to say to the tool; no other directive changes. -/
def withResumed (value : Json) : Directive → Directive
  | restart name reference input _ => restart name reference input (some value)
  | d => d

/-- A restart with another input; no other directive changes. -/
def withInput (value : Json) : Directive → Directive
  | restart name reference _ resumed => restart name reference (some value) resumed
  | d => d

/-- Takes the first directive for a request out of a list. -/
def take? (r : ToolRequest) : List Directive → Option (Directive × List Directive)
  | [] => none
  | d :: rest =>
    if r.isCall d.name d.reference then some (d, rest)
    else (take? r rest).map fun (found, others) => (found, d :: others)

end Directive

/-- Why a run fails. -/
inductive RunError where
  | cancelled
  | model (error : ModelError)
  | turnLimitExceeded (maxTurns : Nat)
  /-- The transcript to resume does not end with a message of the model. -/
  | resumeRequiresModelMessage (found : Option Role)
  /-- No directive answers a request. -/
  | unresolvedInterrupt (tool : String) (reference : Option String)
  | unknownRestartTool (name : String)
  | reinterruptOnRestart (tool : String) (reference : Option String)
  deriving DecidableEq, Repr

/-- The word for a role in a message about it. -/
def Role.word : Role → String
  | system => "System"
  | user => "User"
  | model => "Model"
  | tool => "Tool"

def RunError.message : RunError → String
  | cancelled => "generation cancelled"
  | model e => s!"model '{e.model}' failed: {e.message}"
  | turnLimitExceeded maxTurns => s!"exceeded maximum tool call turns ({maxTurns})"
  | resumeRequiresModelMessage found =>
    let word := match found with
      | some role => s!"Some({role.word})"
      | none => "None"
    s!"resume requires the last message to be a model message, found {word}"
  | unresolvedInterrupt tool reference =>
    s!"interrupted tool request '{tool}' ({Text.optionalLiteral reference}) " ++
      "was not answered by any resume directive"
  | unknownRestartTool name => s!"restart directive names unknown tool '{name}'"
  | reinterruptOnRestart tool reference =>
    s!"tool '{tool}' interrupted again while restarting request {Text.optionalLiteral reference}"

namespace Resume

variable {ω : Type}

/-- A run that goes on, or that failed; what happened up to then is kept either way. -/
abbrev Result (ω α : Type) := Session ω × Except RunError α

/-- The response to a request from the outcome of a call that was made again. -/
def restarted (r : ToolRequest) : Outcome → Except RunError ToolResponse
  | .success output => .ok ⟨r.name, r.reference, output⟩
  | .failure message => .ok ⟨r.name, r.reference, ToolResponse.errorPayload message⟩
  | .interrupt _ => .error (.reinterruptOnRestart r.name r.reference)

/-- Follows a directive for a request: the request, perhaps with another input, and its response. -/
def follow (tools : ToolLookup ω) (options : CallOptions) (s : Session ω) (r : ToolRequest) :
    Directive → Result ω (ToolRequest × ToolResponse)
  | .respond _ _ output => (s, .ok (r, ⟨r.name, r.reference, output⟩))
  | .restart name _ input resumed =>
    let r := { r with input := input.getD r.input }
    match tools name with
    | none => (s, .error (.unknownRestartTool name))
    | some tool =>
      let call := Activity.guarded (fun s : Session ω => s.around.cancelled)
        (tool.run options ⟨r.reference, resumed⟩ r.input)
      match call.run s with
      | (s, none) => (s, .error .cancelled)
      | (s, some outcome) => (s, (restarted r outcome).map fun response => (r, response))

/-- A request whose interrupt has been answered. -/
def resolve (r : ToolRequest) : ToolRequest :=
  match r.interrupt with
  | some metadata => { r with interrupt := none, resolvedInterrupt := some metadata }
  | none => r

/-- Answers a request: from its pending output, or else by the first directive for it.  What is left
of the directives comes with it. -/
def answerRequest (tools : ToolLookup ω) (options : CallOptions) (s : Session ω) (r : ToolRequest)
    (directives : List Directive) : Result ω (ToolRequest × ToolResponse × List Directive) :=
  match r.pendingOutput with
  | some output =>
    (s, .ok ({ r with pendingOutput := none }, ⟨r.name, r.reference, output⟩, directives))
  | none =>
    match Directive.take? r directives with
    | none => (s, .error (.unresolvedInterrupt r.name r.reference))
    | some (directive, rest) =>
      match follow tools options s r directive with
      | (s, .error e) => (s, .error e)
      | (s, .ok (r, response)) => (s, .ok (resolve r, response, rest))

/-- The parts of a message after all of its requests were answered. -/
structure Answered where
  content : List Part
  responses : List ToolResponse
  /-- The directives that no request took. -/
  unused : List Directive

/-- Answers the requests among some parts in order. -/
def answerParts (tools : ToolLookup ω) (options : CallOptions) :
    List Part → List Directive → Session ω → Result ω Answered
  | [], directives, s => (s, .ok ⟨[], [], directives⟩)
  | .toolRequest r :: parts, directives, s =>
    match answerRequest tools options s r directives with
    | (s, .error e) => (s, .error e)
    | (s, .ok (r, response, directives)) =>
      match answerParts tools options parts directives s with
      | (s, .error e) => (s, .error e)
      | (s, .ok a) =>
        (s, .ok { a with
          content := .toolRequest r :: a.content, responses := response :: a.responses })
  | part :: parts, directives, s =>
    match answerParts tools options parts directives s with
    | (s, .error e) => (s, .error e)
    | (s, .ok a) => (s, .ok { a with content := part :: a.content })

/-- Notes the directives that no request took. -/
def noteUnused (unused : List Directive) (s : Session ω) : Session ω :=
  { s with journal :=
      s.journal ++ unused.map fun d => .warning (.unusedDirective d.name d.reference) }

/-- Answers all requests of the last message and appends a message with the responses, if there are
any.  The number of responses comes with the messages. -/
def apply (tools : ToolLookup ω) (options : CallOptions) (messages : List Message)
    (directives : List Directive) (s : Session ω) : Result ω (List Message × Nat) :=
  match messages.getLast? with
  | none => (s, .error (.resumeRequiresModelMessage none))
  | some last =>
    if last.role ≠ .model then (s, .error (.resumeRequiresModelMessage (some last.role)))
    else
      match answerParts tools options last.content directives s with
      | (s, .error e) => (s, .error e)
      | (s, .ok a) =>
        let answered := messages.dropLast ++ [{ last with content := a.content }]
        let appended := if a.responses.isEmpty then [] else [Message.ofResponses a.responses]
        (noteUnused a.unused s, .ok (answered ++ appended, a.responses.length))

end Resume

end Colloquy
