import Colloquy.Loop.Event

/-!
# Running a tool call

A tool call checks its input against the schema of the tool, invokes the tool, and breaks it off
when it takes too long.  Whatever goes wrong becomes a failure, which the model is told; only an
interrupt stops the run.
-/

namespace Colloquy

/-- How tool calls are run. -/
structure CallOptions where
  /-- Inputs are checked against the schema that a tool declares. -/
  validate : Bool := true
  /-- The time, in milliseconds, after which a call is broken off. -/
  timeout : Option Nat := none
  deriving DecidableEq, Repr

namespace Tool

variable {ω : Type}

/-- The failure of a call that took too long.  The time is told in whole seconds, a half going to
the even number. -/
def timedOut (name : String) (limit : Nat) : Outcome :=
  .failure s!"tool '{name}' timed out after {Decimal.roundedQuotient limit 1000} seconds"

/-- An activity of a tool as one of the run. -/
def inSession {α : Type} (x : Activity (Surroundings ω) α) : Activity (Session ω) α :=
  x.lift Session.around fun around s => { s with around }

/-- Invokes the tool and notes that it was and, if it comes back, that it did. -/
def invokeNoted (t : Tool ω) (context : CallContext) (input : Json) :
    Activity (Session ω) Ending :=
  (inSession (t.invoke context input)).bind fun ending =>
    match ending with
    | .returned outcome =>
      (Session.noting (.returned t.definition context outcome)).bind fun _ => .done ending
    | .panicked _ => .done ending

/-- The outcome of an invocation that ended; a panic is a failure, and is warned of. -/
def conclude (t : Tool ω) : Ending → Activity (Session ω) Outcome
  | .returned outcome => .done outcome
  | .panicked message =>
    let name := t.definition.name
    let message := message.getD "unknown panic"
    (Session.noting (.warning (.toolPanicked name message))).bind fun _ =>
      .done (.failure s!"tool '{name}' panicked: {message}")

/-- Runs a call of the tool. -/
def run (t : Tool ω) (options : CallOptions) (context : CallContext) (input : Json) :
    Activity (Session ω) Outcome :=
  match if options.validate then t.definition.rejection? input else none with
  | some message => .done (.failure message)
  | none =>
    (Session.noting (.invoked t.definition context input)).bind fun _ =>
      match options.timeout with
      | none => (t.invokeNoted context input).bind t.conclude
      | some limit =>
        (Activity.within limit (t.invokeNoted context input)).bind fun
          | some ending => t.conclude ending
          | none => .done (timedOut t.definition.name limit)

end Tool

end Colloquy
