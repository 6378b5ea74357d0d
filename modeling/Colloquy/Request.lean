import Colloquy.Message

/-!
# Requests

What is sent to a model, a conversation together with its settings, and the small types of what
comes back.  Like messages they are exchanged as JSON.
-/

namespace Colloquy

/-! ## Sampling -/

/-- A number in single precision.  Numbers that are too large for it become infinite, and an
infinite number has no JSON of its own. -/
inductive Single where
  | finite (value : Decimal.Binary)
  | infinite
  deriving DecidableEq, Repr

namespace Single

/-- A number rounded to single precision, written as a double. -/
def ofNumber (n : Number) : Single :=
  let negative := match n with
    | .int i => i < 0
    | .double x => x.negative
  let rounded := (Decimal.Format.single.round? negative n.numerator.natAbs n.denominator).bind
    fun x => x.roundTo? .double
  match rounded with
  | some x => finite x
  | none => infinite

def toJson : Single → Json
  | finite x => .num (.double x)
  | infinite => .null

def ofJson : Json → Decoded Single
  | .num n => .ok (ofNumber n)
  | v => Decode.mismatch v "f32"

end Single

/-- How a model samples.  What is not set is left to the model. -/
structure Config where
  temperature : Option Single := none
  maxOutputTokens : Option Nat := none
  topK : Option Nat := none
  topP : Option Single := none
  stopSequences : List String := []
  /-- Settings of a particular model, passed on as they are. -/
  custom : Fields := []
  deriving DecidableEq, Repr

namespace Config

/-- The settings of the second on top of those of the first: everything that it sets wins. -/
def merge (base top : Config) : Config where
  temperature := top.temperature.or base.temperature
  maxOutputTokens := top.maxOutputTokens.or base.maxOutputTokens
  topK := top.topK.or base.topK
  topP := top.topP.or base.topP
  stopSequences := if top.stopSequences.isEmpty then base.stopSequences else top.stopSequences
  custom := base.custom.overlay top.custom

/-- The settings that are known by name. -/
def known : List String := ["temperature", "maxOutputTokens", "topK", "topP", "stopSequences"]

def toJson (c : Config) : Json :=
  .obj (Fields.optional "temperature" (c.temperature.map Single.toJson) ++
    Fields.optional "maxOutputTokens" (c.maxOutputTokens.map Json.ofNat) ++
    Fields.optional "topK" (c.topK.map Json.ofNat) ++
    Fields.optional "topP" (c.topP.map Single.toJson) ++
    (if c.stopSequences.isEmpty then []
      else [("stopSequences", .arr (c.stopSequences.map .str))]) ++
    c.custom)

/-- What a value that holds settings is expected to be. -/
def expected : String := "struct GenerationConfig"

/-- Reads settings from members of some kind of value, given how the values of the known settings
and of all others are read.  The members that are not known by name are custom. -/
def ofMembers {ν : Type} (m : Decode.Members ν) (single : ν → Decoded (Option Single))
    (natural : ν → Decoded (Option Nat)) (texts : ν → Decoded (List String))
    (other : ν → Decoded Json) : Decoded Config :=
  let temperature := m.withDefault "temperature" single none
  let maxOutputTokens := m.withDefault "maxOutputTokens" natural none
  let topK := m.withDefault "topK" natural none
  let topP := m.withDefault "topP" single none
  let stopSequences := m.withDefault "stopSequences" texts []
  let others := m.fields.filter fun member => !known.contains member.1
  let custom := others.mapM fun (key, v) => (other v).map fun v => (key, v)
  m.settle ([("temperature", Decode.fault temperature),
      ("maxOutputTokens", Decode.fault maxOutputTokens), ("topK", Decode.fault topK),
      ("topP", Decode.fault topP), ("stopSequences", Decode.fault stopSequences)] ++
      others.map fun (key, v) => (key, Decode.fault (other v))) do
    return ⟨← temperature, ← maxOutputTokens, ← topK, ← topP, ← stopSequences, ← custom⟩

/-- Reads settings from an object. -/
def ofJson : Json → Decoded Config
  | .obj fields =>
    ofMembers { fields } (Decode.nullable Single.ofJson) (Decode.nullable (Decode.natural 32))
      (Decode.list Decode.string) .ok
  | v => Decode.mismatch v expected

end Config

/-! ## Tools and output -/

/-- What a model is told about a tool. -/
structure ToolDefinition where
  name : String
  description : String
  inputSchema : Json
  outputSchema : Option Json := none
  deriving DecidableEq, Repr

namespace ToolDefinition

def toJson (d : ToolDefinition) : Json :=
  .obj ([("name", .str d.name), ("description", .str d.description),
    ("inputSchema", d.inputSchema)] ++ Fields.optional "outputSchema" d.outputSchema)

def ofJson : Json → Decoded ToolDefinition :=
  Decode.record "ToolDefinition" ["name", "description", "inputSchema", "outputSchema"] fun m =>
    let name := m.required "name" Decode.string
    let description := m.required "description" Decode.string
    let inputSchema := m.required "inputSchema" .ok
    let outputSchema := m.optional "outputSchema" .ok
    m.settle [("name", Decode.fault name), ("description", Decode.fault description)] do
      return ⟨← name, ← description, ← inputSchema, ← outputSchema⟩

end ToolDefinition

/-- How a model may use tools. -/
inductive ToolChoice where
  | auto
  | required
  | none
  deriving DecidableEq, Repr

namespace ToolChoice

def name : ToolChoice → String
  | auto => "auto"
  | required => "required"
  | none => "none"

def table : List (String × ToolChoice) := [auto, required, none].map fun c => (c.name, c)

def toJson (c : ToolChoice) : Json := .str c.name

def ofJson : Json → Decoded ToolChoice := Decode.variant table

end ToolChoice

/-- The form that the last message of a model should have. -/
inductive OutputFormat where
  | text
  | json
  /-- JSON that satisfies the output schema, which has to be there. -/
  | structured
  deriving DecidableEq, Repr, Inhabited

namespace OutputFormat

def name : OutputFormat → String
  | text => "text"
  | json => "json"
  | structured => "structured"

def table : List (String × OutputFormat) := [text, json, structured].map fun f => (f.name, f)

def toJson (f : OutputFormat) : Json := .str f.name

def ofJson : Json → Decoded OutputFormat := Decode.variant table

end OutputFormat

/-! ## Requests -/

/-- What is sent to a model. -/
structure Request where
  messages : List Message := []
  config : Config := {}
  outputFormat : OutputFormat := .text
  outputSchema : Option Json := none
  tools : List ToolDefinition := []
  toolChoice : Option ToolChoice := none
  deriving DecidableEq, Repr

namespace Request

/-- The request as JSON, with something in the place of its messages. -/
def toJsonWith (messages : Json) (r : Request) : Json :=
  .obj ([("messages", messages), ("config", r.config.toJson),
      ("outputFormat", r.outputFormat.toJson)] ++
    Fields.optional "outputSchema" r.outputSchema ++
    (if r.tools.isEmpty then [] else [("tools", .arr (r.tools.map ToolDefinition.toJson))]) ++
    Fields.optional "toolChoice" (r.toolChoice.map ToolChoice.toJson))

def toJson (r : Request) : Json := r.toJsonWith (.arr (r.messages.map Message.toJson))

/-- The members of a request in the order of its array form. -/
def members : List String :=
  ["messages", "config", "outputFormat", "outputSchema", "tools", "toolChoice"]

def ofJson : Json → Decoded Request :=
  Decode.record "GenerationRequest" members fun m =>
    let messages := m.required "messages" (Decode.list Message.ofJson)
    let config := m.withDefault "config" Config.ofJson {}
    let outputFormat := m.withDefault "outputFormat" OutputFormat.ofJson .text
    let outputSchema := m.optional "outputSchema" .ok
    let tools := m.withDefault "tools" (Decode.list ToolDefinition.ofJson) []
    let toolChoice := m.optional "toolChoice" ToolChoice.ofJson
    m.settle [("messages", Decode.fault messages), ("config", Decode.fault config),
        ("outputFormat", Decode.fault outputFormat), ("tools", Decode.fault tools),
        ("toolChoice", Decode.fault toolChoice)] do
      return ⟨← messages, ← config, ← outputFormat, ← outputSchema, ← tools, ← toolChoice⟩

end Request

/-! ## What comes back -/

/-- Why a model, or the loop around it, stopped. -/
inductive FinishReason where
  | stop
  | length
  | blocked
  /-- A tool call paused the run. -/
  | interrupted
  | other
  | unknown
  deriving DecidableEq, Repr, Inhabited

namespace FinishReason

def name : FinishReason → String
  | stop => "stop"
  | length => "length"
  | blocked => "blocked"
  | interrupted => "interrupted"
  | other => "other"
  | unknown => "unknown"

def table : List (String × FinishReason) :=
  [stop, length, blocked, interrupted, other, unknown].map fun r => (r.name, r)

def toJson (r : FinishReason) : Json := .str r.name

def ofJson : Json → Decoded FinishReason := Decode.variant table

end FinishReason

/-- How many tokens were used. -/
structure Usage where
  inputTokens : Nat := 0
  outputTokens : Nat := 0
  totalTokens : Nat := 0
  deriving DecidableEq, Repr

namespace Usage

/-- The sum, field by field. -/
def add (a b : Usage) : Usage :=
  ⟨a.inputTokens + b.inputTokens, a.outputTokens + b.outputTokens, a.totalTokens + b.totalTokens⟩

def toJson (u : Usage) : Json :=
  .obj [("inputTokens", Json.ofNat u.inputTokens), ("outputTokens", Json.ofNat u.outputTokens),
    ("totalTokens", Json.ofNat u.totalTokens)]

def ofJson : Json → Decoded Usage :=
  Decode.record "Usage" ["inputTokens", "outputTokens", "totalTokens"] fun m =>
    let inputTokens := m.required "inputTokens" (Decode.natural 64)
    let outputTokens := m.required "outputTokens" (Decode.natural 64)
    let totalTokens := m.required "totalTokens" (Decode.natural 64)
    m.settle [("inputTokens", Decode.fault inputTokens),
        ("outputTokens", Decode.fault outputTokens), ("totalTokens", Decode.fault totalTokens)] do
      return ⟨← inputTokens, ← outputTokens, ← totalTokens⟩

end Usage

end Colloquy
