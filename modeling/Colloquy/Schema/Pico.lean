import Colloquy.Schema.Standard
import Colloquy.Text.Cut

/-!
# Picoschema

A terse way to write schemas.  A text names a scalar type or a schema known by name, with a
description after a comma; a list is an enumeration; a map is an object that admits no other
members.  A key of a map may carry a question mark, which makes the property optional, and behind it
a kind and a description in parentheses.  The kind `*` stands for all members that are no
properties.

A value that already is JSON Schema is read as that.
-/

namespace Colloquy.Schema

/-- The schemas that can be referred to by name. -/
abbrev Resolver := String → Option Schema

/-- The resolver that knows no names. -/
def noNames : Resolver := fun _ => none

/-- What stands before and behind the first comma; an empty description is none. -/
def splitDescription (s : List Char) : String × Option String :=
  match Text.cutAt? (· == ',') s with
  | some (before, after) =>
    let description := Text.trim after
    (String.ofList (Text.trim before),
      if description.isEmpty then none else some (String.ofList description))
  | none => (String.ofList (Text.trim s), none)

/-- The kinds of scalars by name. -/
def scalars : List (String × SchemaKind) :=
  [("string", .string), ("boolean", .boolean), ("null", .null), ("number", .number),
   ("integer", .integer), ("any", .any)]

/-- The schema that a text names. -/
def ofScalar (resolve : Resolver) (path source : String) : Except SchemaError Schema :=
  let (name, description) := splitDescription source.toList
  match scalars.lookup name with
  | some kind => .ok { ofKind kind with description }
  | none =>
    match resolve name with
    | some schema => .ok (schema.describedBy description)
    | none => .error (.unsupportedType path name)

/-! ## Keys -/

/-- The kinds that a key can name for a property. -/
inductive Container where
  | array
  | object
  | enumeration
  deriving DecidableEq, Repr

/-- The container that a word names. -/
def Container.ofName? : String → Option Container
  | "array" => some .array
  | "object" => some .object
  | "enum" => some .enumeration
  | _ => none

/-- What a key says. -/
inductive Key where
  | property (name : String) (optional : Bool) (container : Option Container)
      (description : Option String)
  | wildcard (description : Option String)
  deriving DecidableEq, Repr

/-- The name before the parentheses, and whether a question mark follows it. -/
def readName (head : List Char) : List Char × Bool :=
  let head := Text.trim head
  if head.getLast? == some '?' then (Text.trim head.dropLast, true) else (head, false)

/-- Reads a key of the map at a path. -/
def Key.read (path key : String) : Except SchemaError Key := do
  let chars := key.toList
  match Text.cutAt? (· == '(') chars with
  | none =>
    let (name, optional) := readName chars
    if name.isEmpty then throw (.malformedKey path key)
    return .property (String.ofList name) optional none none
  | some (head, rest) =>
    if rest.getLast? != some ')' then throw (.malformedKey path key)
    let (name, optional) := readName head
    let (kind, description) := splitDescription rest.dropLast
    if kind = "*" then
      if !name.isEmpty then throw (.malformedKey path key)
      return .wildcard description
    if name.isEmpty then throw (.malformedKey path key)
    match Container.ofName? kind with
    | none => throw (.unsupportedKind (path ++ "." ++ key) kind)
    | some container => return .property (String.ofList name) optional (some container) description

/-- The schema of a property at a path, from the schema of its value. -/
def wrapIn (container : Option Container) (path : String) (schema : Schema) :
    Except SchemaError Schema :=
  match container with
  | some .array => .ok (Schema.array schema)
  | some .enumeration =>
    if isEnumeration schema.kind then .ok schema else .error (.enumRequiresList path)
  | _ => .ok schema

/-- The schema of an optional property: null will do as well. -/
def acceptNull (s : Schema) : Schema :=
  match s.kind with
  | .enumeration values =>
    if values.contains .null then s else { s with kind := .enumeration (values ++ [.null]) }
  | .any => s
  | _ => { s with nullable := true }

/-- A map that was compiled: its properties, and the schema of all other members, if there is
one. -/
structure Compiled where
  properties : List Property
  others : Option Schema

/-- The schema of a compiled map. -/
def Compiled.schema (c : Compiled) : Schema :=
  ofKind (.object c.properties (match c.others with
    | some s => .typed s
    | none => .disallowed))

/-- What a member of a map adds to it. -/
inductive Entry where
  | property (property : Property)
  | others (schema : Schema)

/-- What a member adds, from its key and the schema of its value. -/
def Key.entry (key : Key) (path : String) (schema : Schema) : Except SchemaError Entry :=
  match key with
  | .wildcard description => .ok (.others (schema.describedBy description))
  | .property name optional container description => do
    let schema := (← wrapIn container path schema).describedBy description
    return .property ⟨name, if optional then acceptNull schema else schema, optional⟩

/-- A compiled map with one member more in front; of several wildcards the last counts. -/
def Compiled.push (c : Compiled) : Entry → Compiled
  | .property p => { c with properties := p :: c.properties }
  | .others s => { c with others := c.others.or (some s) }

mutual

/-- Compiles a value that stands at a path. -/
def compileAt (resolve : Resolver) (path : String) : Json → Except SchemaError Schema
  | .str s => ofScalar resolve path s
  | .arr values => .ok (ofKind (.enumeration values))
  | .obj members => (compileMembers resolve path members).map Compiled.schema
  | other => .error (.unexpectedShape path other)
termination_by structural value => value

/-- Compiles the members of a map that stands at a path. -/
def compileMembers (resolve : Resolver) (path : String) :
    List (String × Json) → Except SchemaError Compiled
  | [] => .ok ⟨[], none⟩
  | (key, value) :: rest => do
    let parsed ← Key.read path key
    let keyPath := path ++ "." ++ key
    let entry ← parsed.entry keyPath (← compileAt resolve keyPath value)
    return (← compileMembers resolve path rest).push entry
termination_by structural members => members

end

/-- Compiles picoschema, or reads JSON Schema. -/
def compile (resolve : Resolver) (value : Json) : Except SchemaError Schema :=
  if isStandard value then ofJson value else compileAt resolve "$" value

end Colloquy.Schema
