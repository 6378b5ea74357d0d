import Colloquy.Loop.Event
import Colloquy.Output

/-!
# Log lines

How a journal reads as a log.  Each entry gives the lines that a logging handler writes for it.
Long texts are cut short, and the dots that show this depend on the length in bytes.
-/

namespace Colloquy

/-- How much a log line matters. -/
inductive Level where
  | warn
  | info
  | debug
  | trace
  deriving DecidableEq, Repr

/-- A line of a log. -/
structure LogLine where
  level : Level
  text : String
  deriving DecidableEq, Repr

namespace Log

/-- The first characters of a text, with dots when it has more bytes than that. -/
def excerpt (length : Nat) (text : String) : String :=
  String.ofList (text.toList.take length) ++ (if length < text.utf8ByteSize then "..." else "")

def ofEvent : Event → LogLine
  | .turnStart turn maxTurns messages =>
    ⟨.info, s!"[turn {turn}/{maxTurns}] calling model with {messages} message(s)"⟩
  | .chunk _ content => ⟨.trace, s!"Stream chunk: {content.length} part(s)"⟩
  | .modelResponse _ message finishReason =>
    ⟨.debug, s!"Model text ({finishReason.name}): {excerpt 200 message.text}"⟩
  | .tokenUsage usage =>
    ⟨.debug, s!"Tokens: input={usage.inputTokens}, output={usage.outputTokens}"⟩
  | .toolCallsReceived turn count => ⟨.debug, s!"{count} tool call(s) in turn {turn}"⟩
  | .toolExecuting name _ _ => ⟨.debug, s!"Executing tool: {name}"⟩
  | .toolResult name _ output =>
    ⟨.debug, s!"Tool {name} result: {output.compact.utf8ByteSize} bytes"⟩
  | .interrupted interrupts =>
    ⟨.info, "Generation interrupted by " ++ ", ".intercalate (interrupts.map Interrupt.toolName)⟩
  | .resumed responses => ⟨.info, s!"Resumed with {responses} tool response(s)"⟩
  | .finished turns => ⟨.info, s!"Generation finished after {turns} tool turn(s)"⟩
  | .turnLimitReached maxTurns => ⟨.info, s!"Generation hit turn limit ({maxTurns})"⟩

def ofWarning : Warning → LogLine
  | .unknownTool name => ⟨.warn, s!"Model requested unknown tool '{name}'"⟩
  | .toolPanicked name message => ⟨.warn, s!"Tool {name} panicked: {message}"⟩
  | .turnLimitExceeded maxTurns => ⟨.warn, s!"Turn limit ({maxTurns}) exceeded"⟩
  | .unusedDirective name reference =>
    ⟨.warn, s!"Resume directive for {name} ({Text.optionalLiteral reference}) " ++
      "matches no pending tool request"⟩

/-- The lines about an invocation: the input in short, and all of it. -/
def ofInvocation (name : String) (input : Json) : List LogLine :=
  [⟨.info, s!"[tool] {name}({excerpt 120 input.compact})"⟩,
   ⟨.trace, s!"[tool] {name} arguments: {input.compact}"⟩]

end Log

/-- The log lines of an entry. -/
def Entry.logLines : Entry → List LogLine
  | event e => [Log.ofEvent e]
  | warning w => [Log.ofWarning w]
  | asked .. => []
  | invoked tool _ input => Log.ofInvocation tool.name input
  | returned .. => []

end Colloquy
