import Colloquy.Registry

/-!
# The command line

Two commands work without a model: `render` prints the request that a prompt file gives, and
`schema` compiles a file of picoschema.  Both read files and print JSON; what they print is a
function of what is under the paths that they name.
-/

namespace Colloquy

/-- What to do. -/
inductive Command where
  /-- Renders a prompt file. -/
  | render (file : String) (input history : Option String)
  /-- Compiles a file of picoschema. -/
  | schema (file : String)
  deriving DecidableEq, Repr

/-- A command line that was understood. -/
structure Invocation where
  /-- The directory of the partials. -/
  prompts : Option String
  command : Command
  deriving DecidableEq, Repr

/-! ## Arguments -/

/-- Options with their values, and the other words. -/
structure Arguments where
  options : Table String := []
  words : List String := []
  deriving DecidableEq, Repr

namespace Arguments

/-- The argument begins like an option. -/
def looksLikeOption (argument : String) : Bool :=
  argument.toList.head? == some '-' && argument != "-"

/-- The name of a long option, and its value if that is part of the argument. -/
def long? (argument : String) : Option (String × Option String) :=
  match Text.leading? ['-', '-'] argument.toList with
  | none => none
  | some rest =>
    match Text.cutAt? (· == '=') rest with
    | some (name, value) => some (String.ofList name, some (String.ofList value))
    | none => some (String.ofList rest, none)

/-- The arguments with one option more; it is refused when it is not known or already there. -/
def addOption (known : List String) (a : Arguments) (name value : String) : Option Arguments :=
  if known.contains name && !a.options.has name then
    some { a with options := a.options.set name value }
  else none

/-- Sorts arguments into options and words.  Behind two dashes there are only words. -/
def sort (known : List String) (a : Arguments) : List String → Option Arguments
  | [] => some a
  | [argument] =>
    if argument = "--" then some a
    else if !looksLikeOption argument then some { a with words := a.words ++ [argument] }
    else match long? argument with
      | some (name, some value) => addOption known a name value
      | _ => none
  | argument :: next :: rest =>
    if argument = "--" then some { a with words := a.words ++ next :: rest }
    else if !looksLikeOption argument then
      sort known { a with words := a.words ++ [argument] } (next :: rest)
    else match long? argument with
      | some (name, some value) => do sort known (← addOption known a name value) (next :: rest)
      | some (name, none) =>
        if looksLikeOption next then none
        else do sort known (← addOption known a name next) rest
      | none => none

/-- The options in front of the first word, and the arguments from that word on. -/
def leading (known : List String) (a : Arguments) : List String → Option (Arguments × List String)
  | argument :: next :: rest =>
    if !looksLikeOption argument then some (a, argument :: next :: rest)
    else match long? argument with
      | some (name, some value) => do leading known (← addOption known a name value) (next :: rest)
      | some (name, none) =>
        if looksLikeOption next then none
        else do leading known (← addOption known a name next) rest
      | none => none
  | arguments => some (a, arguments)

end Arguments

namespace Invocation

/-- The options that stand for paths, which are not empty. -/
def pathOptions : List String := ["prompts", "history"]

/-- No path is empty. -/
def pathsGiven (a : Arguments) : Bool :=
  a.words.all (· != "") && pathOptions.all fun name => a.options.get? name != some ""

/-- Understands a command line.  The directory of the partials may be named before the command or
behind it, and the latter counts. -/
def parse (arguments : List String) : Option Invocation := do
  let (before, rest) ← Arguments.leading ["prompts"] {} arguments
  if !pathsGiven before then none
  match rest with
  | "render" :: rest =>
    let a ← Arguments.sort ["prompts", "input", "history"] {} rest
    if !pathsGiven a then none
    match a.words with
    | [file] =>
      return ⟨(a.options.get? "prompts").or (before.options.get? "prompts"),
        .render file (a.options.get? "input") (a.options.get? "history")⟩
    | _ => none
  | "schema" :: rest =>
    let a ← Arguments.sort ["prompts"] {} rest
    if !pathsGiven a then none
    match a.words with
    | [file] => return ⟨(a.options.get? "prompts").or (before.options.get? "prompts"), .schema file⟩
    | _ => none
  | _ => none

end Invocation

/-! ## Carrying it out -/

/-- Why a command fails. -/
inductive CommandError where
  | prompt (error : PromptError)
  | schema (error : SchemaError)
  | unreadable (path : String) (error : ReadError)
  /-- The input is not JSON. -/
  | badInput
  /-- The file of the history does not hold messages. -/
  | badHistory
  | notJson
  | notToml
  deriving DecidableEq, Repr

def CommandError.message : CommandError → String
  | prompt e => e.message
  | schema e => e.message
  | unreadable path e => s!"failed to read '{path}': {e.message}"
  | badInput => "invalid --input JSON"
  | badHistory => "invalid history file"
  | notJson => "invalid JSON"
  | notToml => "invalid TOML"

namespace Command

/-- The name of the model for prompts that choose none; no model is asked. -/
def offlineModel : String := "offline"

/-- A registry with the partials of a directory. -/
def registry (files : Files) (folder : Option String) :
    Except PromptError (Registry Unit) := do
  let empty : Registry Unit := { defaultModel := some offlineModel }
  match folder with
  | none => return empty
  | some path =>
    let folder ← PromptFolder.load files path
    let (registry, result) := empty.addPartials folder.partials
    result
    return registry

/-- The messages in the text of a file. -/
def readHistory (text : String) : Except CommandError (List Message) :=
  match Json.parse? text with
  | none => .error .badHistory
  | some v => (Decode.list Message.ofJson v).mapError fun _ => .badHistory

/-- The text of the file under a path. -/
def readFile (files : Files) (path : String) : Except CommandError String :=
  (files.read path).mapError (.unreadable path)

/-- What is printed about a rendered prompt. -/
def report (p : Prompt Unit) (messages : List Message) : Json :=
  .obj [("prompt", .str p.key), ("templateHash", .str p.template.hash),
    ("messages", .arr (messages.map Message.toJson)), ("config", p.config.toJson),
    ("tools", .arr (p.tools.map .str)), ("outputFormat", p.outputFormat.toJson),
    ("outputSchema", (p.outputSchema.map Schema.toJson).getD .null)]

/-- Renders a prompt file. -/
def runRender (files : Files) (folder : Option String) (file : String)
    (input history : Option String) : Except CommandError Json := do
  let registry ← (registry files folder).mapError .prompt
  let source ← (PromptSource.load files file).mapError .prompt
  let prompt ← ((registry.define source.draft).2).mapError .prompt
  let input ← match input with
    | none => pure .null
    | some text =>
      match Json.parse? text with
      | some v => pure v
      | none => throw .badInput
  let history ← match history with
    | none => pure []
    | some path => readHistory (← readFile files path)
  let messages ← (prompt.render input { history, partials := registry.partials }).mapError .prompt
  return report prompt messages

/-- Reads the value in a file: TOML if the extension says so, and JSON otherwise. -/
def readValue (files : Files) (path : String) : Except CommandError Json := do
  let text ← readFile files path
  if Path.extension? path = some "toml" then
    match Toml.parse? text with
    | some entries => (Toml.table entries).json.mapError fun _ => .notToml
    | none => throw .notToml
  else
    match Json.parse? text with
    | some v => return v
    | none => throw .notJson

/-- Compiles a file of picoschema. -/
def runSchema (files : Files) (file : String) : Except CommandError Json := do
  let value ← readValue files file
  return (← (Schema.compile Schema.noNames value).mapError .schema).toJson

end Command

/-- The paths that an invocation reads from. -/
def Invocation.paths (i : Invocation) : List String :=
  i.prompts.toList ++ match i.command with
    | .render file _ history => file :: history.toList
    | .schema file => [file]

/-- What an invocation prints. -/
def Invocation.run (files : Files) (i : Invocation) : Except CommandError String := do
  let value ← match i.command with
    | .render file input history => Command.runRender files i.prompts file input history
    | .schema file => Command.runSchema files file
  return value.pretty 2 ++ "\n"

end Colloquy
