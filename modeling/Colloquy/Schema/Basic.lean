import Colloquy.Json.Basic

/-!
# Schemas

The structure of a value: its kind, whether null will do as well, a description, and whatever else a
JSON Schema says that the kinds do not model.  Properties are a list, because their order is kept
from the source to the output.

`toJson` writes a schema as JSON Schema, and `infer` reads one off an example.
-/

namespace Colloquy

mutual

/-- The structure of a value. -/
structure Schema where
  kind : SchemaKind
  description : Option String
  /-- Null will do as well as the kind. -/
  nullable : Bool
  /-- The keywords of JSON Schema that the kinds do not model. -/
  extensions : List (String × Json)

inductive SchemaKind where
  /-- Any value at all. -/
  | any
  | string
  | number
  | integer
  | boolean
  | null
  | array (items : Schema)
  | object (properties : List Property) (additional : Additional)
  /-- One of some values. -/
  | enumeration (values : List Json)

/-- A property of an object. -/
structure Property where
  name : String
  schema : Schema
  optional : Bool

/-- What holds for the members of an object that are no properties. -/
inductive Additional where
  | disallowed
  | allowed
  | typed (schema : Schema)

end

/-- Why a schema cannot be compiled. -/
inductive SchemaError where
  | unsupportedType (path typeName : String)
  | unsupportedKind (path kind : String)
  | enumRequiresList (path : String)
  | unexpectedShape (path : String) (found : Json)
  | malformedKey (path key : String)
  deriving DecidableEq, Repr

/-- The short name of the shape of a value. -/
def Json.shapeName : Json → String
  | .null => "null"
  | .bool _ => "boolean"
  | .num _ => "number"
  | .str _ => "string"
  | .arr _ => "list"
  | .obj _ => "map"

def SchemaError.message : SchemaError → String
  | unsupportedType path typeName => s!"picoschema: unsupported type '{typeName}' at '{path}'"
  | unsupportedKind path kind =>
    "picoschema: parenthetical kind must be 'array', 'object' or 'enum', got " ++
      s!"'{kind}' at '{path}'"
  | enumRequiresList path => s!"picoschema: enum kind requires a list of values at '{path}'"
  | unexpectedShape path found =>
    s!"picoschema: unexpected {found.shapeName} at '{path}'; expected a type string, list, or map"
  | malformedKey path key => s!"picoschema: malformed key '{key}' at '{path}'"

namespace Schema

/-- A schema of a kind and nothing more. -/
def ofKind (kind : SchemaKind) : Schema := ⟨kind, none, false, []⟩

/-- The schema that every value satisfies. -/
def any : Schema := ofKind .any

/-- The schema of arrays with items of one schema. -/
def array (items : Schema) : Schema := ofKind (.array items)

/-- The properties of an object; other schemas have none. -/
def properties (s : Schema) : List Property :=
  match s.kind with
  | .object properties _ => properties
  | _ => []

/-- The names of some properties that are not optional, in order. -/
def requiredOf (properties : List Property) : List String :=
  (properties.filter fun p => !p.optional).map Property.name

/-- The names of the properties that are not optional, in order. -/
def required (s : Schema) : List String := requiredOf s.properties

/-- The schema with another description, if there is one. -/
def describedBy (s : Schema) (description : Option String) : Schema :=
  match description with
  | none => s
  | some _ => { s with description }

end Schema

/-- The name that JSON Schema has for the kind. -/
def SchemaKind.typeName? : SchemaKind → Option String
  | any => none
  | string => some "string"
  | number => some "number"
  | integer => some "integer"
  | boolean => some "boolean"
  | null => some "null"
  | array _ => some "array"
  | object .. => some "object"
  | enumeration _ => none

/-! ## Writing JSON Schema -/

namespace Schema

/-- The keyword `type` of a kind, where null may do as well. -/
def typeKeyword (kind : SchemaKind) (nullable : Bool) : Fields :=
  match kind.typeName? with
  | none => []
  | some name =>
    if nullable && name != "null" then [("type", .arr [.str name, .str "null"])]
    else [("type", .str name)]

/-- The keyword `required`, left out when nothing is. -/
def requiredKeyword (properties : List Property) : Fields :=
  match requiredOf properties with
  | [] => []
  | names => [("required", .arr (names.map .str))]

/-- Adds the entries whose keys are not there yet. -/
def addMissing (base more : Fields) : Fields :=
  more.foldl (fun acc m => if acc.has m.1 then acc else acc ++ [m]) base

mutual

/-- The schema as JSON Schema. -/
def toJson : Schema → Json
  | ⟨kind, description, nullable, extensions⟩ =>
    let modelled := typeKeyword kind nullable ++ keywords kind ++
      (match description with
        | some d => [("description", .str d)]
        | none => [])
    .obj (addMissing modelled extensions)
termination_by structural s => s

/-- The keywords that a kind has beside its type. -/
def keywords : SchemaKind → Fields
  | .array items => [("items", toJson items)]
  | .object properties additional =>
    ("properties", .obj (Table.ofList (propertyMembers properties))) ::
      requiredKeyword properties ++ additionalKeyword additional
  | .enumeration values => [("enum", .arr values)]
  | _ => []
termination_by structural kind => kind

/-- The schemas of properties under their names. -/
def propertyMembers : List Property → Fields
  | [] => []
  | ⟨name, schema, _⟩ :: rest => (name, toJson schema) :: propertyMembers rest
termination_by structural properties => properties

/-- The keyword `additionalProperties`, left out when all are allowed. -/
def additionalKeyword : Additional → Fields
  | .disallowed => [("additionalProperties", .bool false)]
  | .allowed => []
  | .typed schema => [("additionalProperties", toJson schema)]
termination_by structural additional => additional

end

/-! ## Inference -/

mutual

/-- The schema of an example.  Every key of an object is a required property, and other keys are
allowed; the items of an array are like the first of them. -/
def infer : Json → Schema
  | .null => ofKind .null
  | .bool _ => ofKind .boolean
  | .num _ => ofKind .number
  | .str _ => ofKind .string
  | .arr [] => array any
  | .arr (item :: _) => array (infer item)
  | .obj fields => ofKind (.object (inferProperties fields) .allowed)
termination_by structural value => value

/-- The properties of an example. -/
def inferProperties : List (String × Json) → List Property
  | [] => []
  | (name, value) :: rest => ⟨name, infer value, false⟩ :: inferProperties rest
termination_by structural members => members

end

end Schema

end Colloquy
