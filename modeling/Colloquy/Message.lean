import Colloquy.Json.Decode

/-!
# Messages

A conversation is a list of messages, each with a role and a list of parts: text, media, a tool call
that the model asks for, or the answer to one.  Messages are exchanged and stored as JSON, so each
type has an encoder `toJson` and a decoder `ofJson`.

A tool call can carry annotations.  They belong to a batch that stopped half way: the calls that
interrupted are marked `interrupt`, the calls that completed keep their output as `pendingOutput`,
and an interrupt that was answered later is remembered as `resolvedInterrupt`.
-/

namespace Colloquy

/-- Who speaks in a message. -/
inductive Role where
  | system
  | user
  | model
  | tool
  deriving DecidableEq, Repr, Inhabited

namespace Role

def name : Role → String
  | system => "system"
  | user => "user"
  | model => "model"
  | tool => "tool"

/-- The roles under their names. -/
def table : List (String × Role) := [system, user, model, tool].map fun r => (r.name, r)

/-- The role that a template names; blanks around the name do not matter, and `assistant` is another
name for `model`. -/
def ofName? (s : String) : Option Role :=
  let name := String.ofList (Text.trim s.toList)
  if name = "assistant" then some model else table.lookup name

def toJson (r : Role) : Json := .str r.name

def ofJson : Json → Decoded Role := Decode.variant table

end Role

/-- A member of an object that is left out when there is no value. -/
def Fields.optional (key : String) : Option Json → Fields
  | none => []
  | some v => [(key, v)]

/-- Media that a message refers to. -/
structure Media where
  /-- A remote address, or one that carries the data inline. -/
  url : String
  contentType : Option String := none
  deriving DecidableEq, Repr

namespace Media

def toJson (m : Media) : Json :=
  .obj (("url", .str m.url) :: Fields.optional "contentType" (m.contentType.map .str))

def ofJson : Json → Decoded Media :=
  Decode.record "MediaPart" ["url", "contentType"] fun m =>
    let url := m.required "url" Decode.string
    let contentType := m.optional "contentType" Decode.string
    m.settle [("url", Decode.fault url), ("contentType", Decode.fault contentType)] do
      return ⟨← url, ← contentType⟩

end Media

/-- A tool call that the model asks for.  It is known by the name of the tool and a reference, which
may be absent. -/
structure ToolRequest where
  name : String
  reference : Option String := none
  input : Json := .null
  /-- The metadata of the interrupt, when the tool interrupted instead of giving an output. -/
  interrupt : Option Json := none
  /-- The output of a call that completed while another call of its batch interrupted. -/
  pendingOutput : Option Json := none
  /-- The metadata of an interrupt that was answered. -/
  resolvedInterrupt : Option Json := none
  deriving DecidableEq, Repr

namespace ToolRequest

/-- The request is the call with this name and reference. -/
def isCall (r : ToolRequest) (name : String) (reference : Option String) : Bool :=
  r.name == name && r.reference == reference

/-- An interrupt annotation: an object with the metadata. -/
def annotation (metadata : Json) : Json := .obj [("metadata", metadata)]

def annotationOfJson : Json → Decoded Json :=
  Decode.record "InterruptMarker" ["metadata"] fun m => m.required "metadata" .ok

def toJson (r : ToolRequest) : Json :=
  .obj ([("name", .str r.name)] ++ Fields.optional "ref" (r.reference.map .str) ++
    [("input", r.input)] ++ Fields.optional "interrupt" (r.interrupt.map annotation) ++
    Fields.optional "pendingOutput" r.pendingOutput ++
    Fields.optional "resolvedInterrupt" (r.resolvedInterrupt.map annotation))

/-- The members of a request in the order of its array form. -/
def members : List String :=
  ["name", "ref", "input", "interrupt", "pendingOutput", "resolvedInterrupt"]

def ofJson : Json → Decoded ToolRequest :=
  Decode.record "ToolRequestPart" members fun m =>
    let name := m.required "name" Decode.string
    let reference := m.optional "ref" Decode.string
    let input := m.withDefault "input" .ok .null
    let interrupt := m.optional "interrupt" annotationOfJson
    let pendingOutput := m.optional "pendingOutput" .ok
    let resolvedInterrupt := m.optional "resolvedInterrupt" annotationOfJson
    m.settle [("name", Decode.fault name), ("ref", Decode.fault reference),
        ("interrupt", Decode.fault interrupt),
        ("resolvedInterrupt", Decode.fault resolvedInterrupt)] do
      return ⟨← name, ← reference, ← input, ← interrupt, ← pendingOutput, ← resolvedInterrupt⟩

end ToolRequest

/-- The answer to a tool call. -/
structure ToolResponse where
  name : String
  reference : Option String := none
  output : Json := .null
  deriving DecidableEq, Repr

namespace ToolResponse

/-- The output that stands for a failure: an object that holds nothing but the error. -/
def errorPayload (message : String) : Json := .obj [("error", .str message)]

/-- The output is an error payload. -/
def isError (r : ToolResponse) : Bool :=
  match r.output with
  | .obj [("error", .str _)] => true
  | _ => false

def toJson (r : ToolResponse) : Json :=
  .obj ([("name", .str r.name)] ++ Fields.optional "ref" (r.reference.map .str) ++
    [("output", r.output)])

def ofJson : Json → Decoded ToolResponse :=
  Decode.record "ToolResponsePart" ["name", "ref", "output"] fun m =>
    let name := m.required "name" Decode.string
    let reference := m.optional "ref" Decode.string
    let output := m.withDefault "output" .ok .null
    m.settle [("name", Decode.fault name), ("ref", Decode.fault reference)] do
      return ⟨← name, ← reference, ← output⟩

end ToolResponse

/-- One piece of a message. -/
inductive Part where
  | text (text : String)
  | media (media : Media)
  | toolRequest (request : ToolRequest)
  | toolResponse (response : ToolResponse)
  deriving DecidableEq, Repr

namespace Part

def text? : Part → Option String
  | text t => some t
  | _ => none

def toolRequest? : Part → Option ToolRequest
  | toolRequest r => some r
  | _ => none

def toolResponse? : Part → Option ToolResponse
  | toolResponse r => some r
  | _ => none

def toJson : Part → Json
  | text t => .obj [("text", .str t)]
  | media m => .obj [("media", m.toJson)]
  | toolRequest r => .obj [("toolRequest", r.toJson)]
  | toolResponse r => .obj [("toolResponse", r.toJson)]

def ofJson : Json → Decoded Part :=
  Decode.tagged
    [("text", fun v => (Decode.string v).map text),
     ("media", fun v => (Media.ofJson v).map media),
     ("toolRequest", fun v => (ToolRequest.ofJson v).map toolRequest),
     ("toolResponse", fun v => (ToolResponse.ofJson v).map toolResponse)]

end Part

/-- A message of a conversation. -/
structure Message where
  role : Role
  content : List Part
  metadata : Option Fields := none
  deriving DecidableEq, Repr

namespace Message

/-- A message of one text. -/
def ofText (role : Role) (text : String) : Message := ⟨role, [.text text], none⟩

/-- The message that answers tool calls. -/
def ofResponses (responses : List ToolResponse) : Message :=
  ⟨.tool, responses.map .toolResponse, none⟩

/-- All texts of the message, one after the other. -/
def text (m : Message) : String := String.join (m.content.filterMap Part.text?)

/-- The tool calls that the message asks for, in order. -/
def toolRequests (m : Message) : List ToolRequest := m.content.filterMap Part.toolRequest?

/-- The answers to tool calls that the message holds, in order. -/
def toolResponses (m : Message) : List ToolResponse := m.content.filterMap Part.toolResponse?

/-- The message asks for tool calls. -/
def hasToolRequests (m : Message) : Bool := !m.toolRequests.isEmpty

/-- The message with a metadata entry set. -/
def withMetadata (m : Message) (key : String) (value : Json) : Message :=
  { m with metadata := some ((m.metadata.getD []).set key value) }

/-- The metadata entry under a key. -/
def metadataValue? (m : Message) (key : String) : Option Json :=
  m.metadata.bind fun fields => fields.get? key

def toJson (m : Message) : Json :=
  .obj ([("role", m.role.toJson), ("content", .arr (m.content.map Part.toJson))] ++
    Fields.optional "metadata" (m.metadata.map .obj))

def ofJson : Json → Decoded Message :=
  Decode.record "Message" ["role", "content", "metadata"] fun m =>
    let role := m.required "role" Role.ofJson
    let content := m.required "content" (Decode.list Part.ofJson)
    let metadata := m.optional "metadata" Decode.fields
    m.settle [("role", Decode.fault role), ("content", Decode.fault content),
        ("metadata", Decode.fault metadata)] do
      return ⟨← role, ← content, ← metadata⟩

end Message

end Colloquy
