import Colloquy.Schema.Basic

/-!
# Reading JSON Schema

A schema may be given as JSON Schema.  What the kinds model is taken apart, and every other keyword
is kept among the extensions.  An enumeration and a union of several types keep their `type` there
too.
-/

namespace Colloquy.Schema

/-- The keywords that are taken apart. -/
def modelledKeywords : List String :=
  ["type", "properties", "required", "items", "enum", "description", "additionalProperties"]

/-- The names of types that mark a value as JSON Schema. -/
def standardTypes : List String :=
  ["string", "number", "integer", "boolean", "null", "object", "array"]

/-- A value is JSON Schema rather than picoschema: it names a type, or it has properties. -/
def isStandard (value : Json) : Bool :=
  match value with
  | .obj fields =>
    let knownType := match Table.get? fields "type" with
      | some (.str t) => standardTypes.contains t
      | some (.arr ts) => (ts.filterMap Json.asString?).any standardTypes.contains
      | _ => false
    knownType || (Table.get? fields "properties").any Json.isObject
  | _ => false

/-- What the keyword `type` says: a name, if there is a single one, and whether null will do. -/
def readType (path : String) (fields : Fields) : Except SchemaError (Option String × Bool) :=
  match fields.get? "type" with
  | none => .ok (none, false)
  | some (.str name) => .ok (some name, false)
  | some (.arr types) =>
    let names := types.filterMap Json.asString?
    match names.filter (· != "null") with
    | [] => .ok (some "null", false)
    | [name] => .ok (some name, names.contains "null")
    | _ => .ok (none, false)
  | some other => .error (.unexpectedShape (path ++ ".type") other)

/-- The names that the keyword `required` lists. -/
def listedRequired (fields : Fields) : List String :=
  (((fields.get? "required").bind Json.asArray?).getD []).filterMap Json.asString?

/-- The parts of a JSON Schema that are schemas themselves, or why they cannot be read. -/
structure Parts where
  properties : Except SchemaError (List (String × Schema))
  additional : Except SchemaError Additional
  items : Except SchemaError Schema

/-- The kind that a JSON Schema describes: an enumeration before an object, and an object before
what `type` says. -/
def readKind (path : String) (fields : Fields) (typeName : Option String) (parts : Parts) :
    Except SchemaError SchemaKind := do
  match fields.get? "enum" with
  | some (.arr values) => return .enumeration values
  | _ =>
    if (fields.get? "properties").any Json.isObject || typeName == some "object" then
      let required := listedRequired fields
      let properties ← parts.properties
      let additional ← parts.additional
      return .object (properties.map fun (name, s) => ⟨name, s, !required.contains name⟩) additional
    else match typeName with
      | none => return .any
      | some "string" => return .string
      | some "number" => return .number
      | some "integer" => return .integer
      | some "boolean" => return .boolean
      | some "null" => return .null
      | some "array" => return .array (← parts.items)
      | some other => throw (.unsupportedType path other)

/-- The kind is an enumeration. -/
def isEnumeration : SchemaKind → Bool
  | .enumeration _ => true
  | _ => false

/-- The keywords that the kind does not model. -/
def readExtensions (fields : Fields) (kind : SchemaKind) (typeName : Option String) : Fields :=
  let others := fields.filter fun m => !modelledKeywords.contains m.1
  match fields.get? "type" with
  | some t => if isEnumeration kind || typeName.isNone then Table.set others "type" t else others
  | none => others

/-- A schema from the members of a JSON Schema and the schemas inside it. -/
def ofParts (path : String) (fields : Fields) (parts : Parts) : Except SchemaError Schema := do
  let (typeName, nullable) ← readType path fields
  let kind ← readKind path fields typeName parts
  return {
    kind
    description := (fields.get? "description").bind Json.asString?
    nullable
    extensions := readExtensions fields kind typeName }

mutual

/-- Reads a JSON Schema that stands at a path. -/
def ofJsonAt (path : String) : Json → Except SchemaError Schema
  | .obj fields =>
    ofParts path fields
      ⟨readProperties path fields, readAdditional path fields, readItems path fields⟩
  | .bool true => .ok any
  | other => .error (.unexpectedShape path other)
termination_by structural value => value

/-- The schemas under the keyword `properties`. -/
def readProperties (path : String) :
    List (String × Json) → Except SchemaError (List (String × Schema))
  | [] => .ok []
  | (keyword, value) :: rest =>
    if keyword = "properties" then
      match value with
      | .obj members => readMembers path members
      | _ => .ok []
    else readProperties path rest
termination_by structural fields => fields

/-- The schemas of some properties in order. -/
def readMembers (path : String) :
    List (String × Json) → Except SchemaError (List (String × Schema))
  | [] => .ok []
  | (name, value) :: rest => do
    let schema ← ofJsonAt (path ++ "." ++ name) value
    return (name, schema) :: (← readMembers path rest)
termination_by structural members => members

/-- What the keyword `additionalProperties` says. -/
def readAdditional (path : String) : List (String × Json) → Except SchemaError Additional
  | [] => .ok .allowed
  | (keyword, value) :: rest =>
    if keyword = "additionalProperties" then
      match value with
      | .bool true => .ok .allowed
      | .bool false => .ok .disallowed
      | value => (ofJsonAt (path ++ ".additionalProperties") value).map .typed
    else readAdditional path rest
termination_by structural fields => fields

/-- The schema under the keyword `items`. -/
def readItems (path : String) : List (String × Json) → Except SchemaError Schema
  | [] => .ok any
  | (keyword, value) :: rest =>
    if keyword = "items" then ofJsonAt (path ++ "[]") value else readItems path rest
termination_by structural fields => fields

end

/-- Reads a JSON Schema. -/
def ofJson (value : Json) : Except SchemaError Schema := ofJsonAt "$" value

end Colloquy.Schema
