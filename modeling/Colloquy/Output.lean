import Colloquy.Json.Reader
import Colloquy.Request
import Colloquy.Schema.Validation

/-!
# Output of a model as JSON

A model that should answer in JSON often puts prose around it.  A value is looked for in three
places: the whole text, the inside of the first fence of three backticks, and the stretch from the
first opening bracket to the last closing one.  The first of these that is JSON is the output, and
it has to satisfy the output schema if there is one.
-/

namespace Colloquy

/-- Why a text is no output. -/
inductive OutputError where
  /-- No JSON was found in the text. -/
  | notJson (text : String)
  /-- The output is JSON but not of the type that was asked for. -/
  | unfit (error : DecodeError)
  | mismatch (violations : List String)
  deriving DecidableEq, Repr

namespace Output

/-- The length of a text in a message. -/
def previewLength : Nat := 80

/-- The beginning of a text, with dots where more follows. -/
def preview (length : Nat) (text : String) : String :=
  let chars := text.toList
  String.ofList (chars.take length) ++ (if length < chars.length then "..." else "")

/-- Three backticks. -/
def fence : List Char := "```".toList

/-- The lines between the first fence and the next. -/
def fencedBody? (s : List Char) : Option (List Char) := do
  let (_, after) ← Text.cut? fence s
  let (_, body) ← Text.cutAt? (· == '\n') after
  let (inside, _) ← Text.cut? fence body
  return inside

/-- The stretch from the first opening bracket to the last closing one. -/
def bracketed? (s : List Char) : Option (List Char) :=
  let opens (c : Char) : Bool := c == '{' || c == '['
  let closes (c : Char) : Bool := c == '}' || c == ']'
  match s.dropWhile fun c => !opens c with
  | [] => none
  | rest =>
    match rest.reverse.dropWhile fun c => !closes c with
    | [] => none
    | stretch => some stretch.reverse

/-- The JSON in a text. -/
def find? (text : List Char) : Option Json :=
  let trimmed := Text.trim text
  Json.read? trimmed
    <|> (fencedBody? trimmed).bind (fun body => Json.read? (Text.trim body))
    <|> (bracketed? trimmed).bind Json.read?

/-- The output in a text, which has to satisfy the schema. -/
def read (schema : Option Json) (text : String) : Except OutputError Json :=
  match find? text.toList with
  | none => .error (.notJson text)
  | some value =>
    match schema with
    | none => .ok value
    | some schema =>
      match JsonSchema.violations schema value with
      | [] => .ok value
      | violations => .error (.mismatch violations)

/-- The output in a text as a value of some type. -/
def readAs {α : Type} (decode : Json → Decoded α) (schema : Option Json) (text : String) :
    Except OutputError α := do
  (decode (← read schema text)).mapError .unfit

end Output

def OutputError.message : OutputError → String
  | notJson text => "model output is not valid JSON: " ++ Output.preview Output.previewLength text
  | unfit error => "model output is not valid JSON: " ++ error.message
  | mismatch violations =>
    "model output does not match the output schema: " ++ "; ".intercalate violations

end Colloquy
