import Colloquy.Tool

/-!
# Rehearsals

Models and tools that follow a script, to rehearse a conversation without a model.  A scripted model
gives its replies one after the other, and a scripted tool behaves in each call as its script says.
How often each of them was called is the state that they share.
-/

namespace Colloquy.Rehearsal

/-- How often each player of a rehearsal was called so far, under a key of its own. -/
structure Stage where
  calls : Table Nat := []
  deriving DecidableEq, Repr

namespace Stage

/-- The number of calls that a player had so far. -/
def count (s : Stage) (key : String) : Nat := (s.calls.get? key).getD 0

/-- One more call of a player. -/
def advance (s : Stage) (key : String) : Stage := ⟨s.calls.set key (s.count key + 1)⟩

end Stage

/-- The surroundings after one more call of a player. -/
def advance (key : String) (s : Surroundings Stage) : Surroundings Stage :=
  { s with world := s.world.advance key }

/-! ## Tools -/

/-- What a scripted tool does in a call. -/
inductive Behaviour where
  | sleep (ms : Nat) (next : Behaviour)
  /-- Cancels the run. -/
  | cancel (next : Behaviour)
  | succeed (output : Json)
  | fail (message : String)
  | interrupt (metadata : Json)
  | panic (message : Option String)
  /-- Interrupts with the input, and succeeds with the answer when called again. -/
  | ask
  /-- Succeeds with what the tool is told about the call. -/
  | report
  /-- Succeeds with the input. -/
  | echo
  deriving DecidableEq, Repr, Inhabited

/-- What a tool is told about a call, as JSON. -/
def reportOf (context : CallContext) (input : Json) (cancelled : Bool) : Json :=
  .obj [("ref", (context.reference.map Json.str).getD .null),
    ("resumed", context.resumed.getD .null), ("input", input), ("cancelled", .bool cancelled)]

/-- Behaves in a call. -/
def perform (context : CallContext) (input : Json) :
    Behaviour → Activity (Surroundings Stage) Ending
  | .sleep ms next => .sleep ms (perform context input next)
  | .cancel next =>
    .step (fun s => { s with cancelled := true }) fun _ => perform context input next
  | .succeed output => .done (.returned (.success output))
  | .fail message => .done (.returned (.failure message))
  | .interrupt metadata => .done (.returned (.interrupt metadata))
  | .panic message => .done (.panicked message)
  | .ask =>
    match context.resumed with
    | some answer => .done (.returned (.success answer))
    | none => .done (.returned (.interrupt input))
  | .report => .inspect fun s => .done (.returned (.success (reportOf context input s.cancelled)))
  | .echo => .done (.returned (.success input))

/-- The entry of a script for a call; the last entry stands for all later calls too. -/
def scriptAt {α : Type} (script : List α) (call : Nat) : Option α :=
  script[call]?.or script.getLast?

/-- A tool that behaves as a script says, and always the same way when the script is empty. -/
def tool (key : String) (definition : ToolDefinition) (script : List Behaviour)
    (always : Behaviour) : Tool Stage where
  definition
  invoke context input :=
    .step (advance key) fun s =>
      perform context input ((scriptAt script (s.world.count key)).getD always)

/-! ## Models -/

/-- What a scripted model does in a call. -/
structure Line where
  /-- Cancels the run. -/
  cancel : Bool := false
  chunks : List (List Part) := []
  result : Except ModelError Reply

/-- The line of a model whose script has come to its end. -/
def exhausted : Line := { result := .ok { message := .ofText .model "script exhausted" } }

/-- A model that follows a script. -/
def model (key name : String) (script : List Line) : Model Stage where
  name
  call _ s :=
    let line := (script[s.world.count key]?).getD exhausted
    let after := advance key s
    { chunks := line.chunks
      result := line.result
      after := { after with cancelled := after.cancelled || line.cancel } }

end Colloquy.Rehearsal
