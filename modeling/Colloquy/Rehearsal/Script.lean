import Colloquy.Rehearsal

/-!
# Scripts

Scripts of rehearsals are written as JSON.  What a tool does is a word or an object with one member
that says it, and an object may go on with another behaviour under `then`.  A line of a model is an
object: the chunks, and an error or the message with its finish reason and usage.
-/

namespace Colloquy.Rehearsal

namespace Behaviour

/-- The panic that a value stands for; a value that is no text leaves no message. -/
def ofPanic : Json → Behaviour
  | .str "static" => panic (some "static text")
  | .str message => panic (some message)
  | _ => panic none

/-- The behaviour that the members of an object say, where `next` is what comes after it. -/
def ofFields (fields : Fields) (next : Behaviour) : Behaviour :=
  match fields.get? "sleep", fields.get? "cancel", fields.get? "return", fields.get? "fail",
    fields.get? "interrupt", fields.get? "panic" with
  | some (.num (.int ms)), _, _, _, _, _ => sleep ms.toNat next
  | _, some (.bool true), _, _, _, _ => cancel next
  | _, _, some output, _, _, _ => succeed output
  | _, _, _, some (.str message), _, _ => fail message
  | _, _, _, _, some metadata, _ => interrupt metadata
  | _, _, _, _, _, some payload => ofPanic payload
  | _, _, _, _, _, _ => echo

mutual

/-- What a tool does, as it is written in a script. -/
def ofJson : Json → Behaviour
  | .str "ask" => ask
  | .str "context" => report
  | .obj fields => ofFields fields (following fields)
  | _ => echo
termination_by structural v => v

/-- What stands under `then`. -/
def following : List (String × Json) → Behaviour
  | [] => echo
  | (key, v) :: rest => if key = "then" then ofJson v else following rest
termination_by structural fields => fields

end

end Behaviour

namespace Line

/-- A chunk: a text, or a list of parts. -/
def chunkOfJson : Json → Decoded (List Part)
  | .str text => .ok [.text text]
  | v => Decode.list Part.ofJson v

/-- A tool call: its name, its reference and its input. -/
def callOfJson? : Json → Option Part
  | .arr [.str name, reference, input] =>
    some (.toolRequest { name, reference := reference.asString?, input })
  | _ => none

/-- Usage as three numbers. -/
def usageOfJson? : Json → Option Usage
  | .arr [.num input, .num output, .num total] =>
    return ⟨← input.toNat?, ← output.toNat?, ← total.toNat?⟩
  | _ => none

/-- The message of a line: a whole message, tool calls, or a text. -/
def messageOfFields (fields : Fields) : Decoded Message :=
  match fields.get? "message", fields.get? "calls" with
  | some v, _ => Message.ofJson v
  | none, some (.arr calls) => .ok ⟨.model, calls.filterMap callOfJson?, none⟩
  | none, _ => .ok (.ofText .model (((fields.get? "text").bind Json.asString?).getD ""))

/-- A line of the script of a model; the model is named in errors. -/
def ofJson (model : String) (v : Json) : Decoded Line := do
  let fields : Fields := (v.asFields?.getD []).filter fun member => !member.2.isNull
  let chunks ← ((fields.get? "chunks").bind Json.asArray?).getD [] |>.mapM chunkOfJson
  let cancel := fields.get? "cancel" == some (.bool true)
  match (fields.get? "error").bind Json.asString? with
  | some message => return { cancel, chunks, result := .error ⟨model, message⟩ }
  | none =>
    let message ← messageOfFields fields
    let finishReason ← match fields.get? "finish" with
      | some v => FinishReason.ofJson v
      | none => pure .stop
    let usage := (fields.get? "usage").bind usageOfJson?
    return { cancel, chunks, result := .ok { message, finishReason, usage } }

end Line

end Colloquy.Rehearsal
