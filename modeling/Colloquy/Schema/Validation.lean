import Colloquy.Json.Printer
import Colloquy.Text.Cut

/-!
# Validation against JSON Schema

Checks a value against a JSON Schema, itself a JSON value, and lists what is wrong with it.  All
violations are listed, not only the first, each with the path to the offending value, and the list
is sorted because the order of checking means nothing.  A schema that is not a valid one accepts
everything.

Checking recurses on the schema.  A reference leaves that recursion, so references are counted: the
number that may be followed is large enough for every schema whose references do not run in a circle
without going into the value.
-/

namespace Colloquy

/-- Something wrong with a value, at the end of a path into the value that was checked. -/
structure Violation where
  path : List String
  message : String
  deriving DecidableEq, Repr

namespace Violation

/-- A violation at the value itself. -/
def here (message : String) : Violation := ⟨[], message⟩

/-- A violation seen from the value that holds the offending one under a name. -/
def under (segment : String) (v : Violation) : Violation := ⟨segment :: v.path, v.message⟩

/-- A segment as it stands in a pointer. -/
def escapeSegment (segment : String) : List Char :=
  segment.toList.flatMap fun c =>
    if c = '~' then ['~', '0'] else if c = '/' then ['~', '1'] else [c]

/-- A path as a pointer. -/
def pointer (path : List String) : String :=
  String.ofList (path.flatMap fun segment => '/' :: escapeSegment segment)

/-- The violation as a line, which begins with the pointer unless the value itself is meant. -/
def line (v : Violation) : String :=
  if v.path.isEmpty then v.message else pointer v.path ++ ": " ++ v.message

end Violation

namespace JsonSchema

/-! ## Types -/

/-- The names of the types. -/
def typeNames : List String :=
  ["array", "boolean", "integer", "null", "number", "object", "string"]

/-- A value has the type of this name.  Every whole number is an integer, however it was written. -/
def hasType (name : String) : Json → Bool
  | .null => name == "null"
  | .bool _ => name == "boolean"
  | .num n => name == "number" || (name == "integer" && n.isWhole)
  | .str _ => name == "string"
  | .arr _ => name == "array"
  | .obj _ => name == "object"

/-- The names of types that a schema admits by its keyword `type`. -/
def admitted : Json → List String
  | .str name => [name]
  | .arr names => names.filterMap Json.asString?
  | _ => []

/-! ## Assertions without subschemas -/

/-- The number in an argument that counts something. -/
def count? : Json → Option Nat
  | .num n =>
    if n.isWhole && 0 ≤ n.numerator then some (n.numerator.toNat / n.denominator) else none
  | _ => none

/-- A noun with its number. -/
def plural (n : Nat) (one many : String) : String := if n = 1 then s!"{n} {one}" else s!"{n} {many}"

/-- The options of an enumeration as they are listed in a message. -/
def options (values : List Json) : String :=
  match values.map Json.compact with
  | [] => ""
  | [a] => a
  | [a, b] => s!"{a} or {b}"
  | [a, b, c] => s!"{a}, {b} or {c}"
  | a :: b :: others => s!"{a}, {b} or {others.length} other candidates"

/-- No item is the same value as a later one. -/
def distinct : List Json → Bool
  | [] => true
  | item :: rest => !rest.any (Json.same item) && distinct rest

/-- One violation at the value itself, unless the condition holds. -/
def demand (holds : Bool) (message : String) : List Violation :=
  if holds then [] else [.here message]

/-- What a bound on a number demands. -/
def checkBound (arg value : Json) (within : Ordering → Bool) (relation : String) : List Violation :=
  match arg, value with
  | .num bound, .num n =>
    demand (within (n.compareValue bound)) s!"{value.compact} is {relation} of {arg.compact}"
  | _, _ => []

/-- The number of things that a keyword about a size counts, if the value has them. -/
def sizeOf? (thing : String) : Json → Option Nat
  | .str s => if thing == "character" then some s.length else none
  | .arr items => if thing == "item" then some items.length else none
  | .obj fields => if thing == "property" then some fields.length else none
  | _ => none

/-- What a lower bound on a size demands. -/
def checkLeast (arg value : Json) (verb one many : String) : List Violation :=
  match count? arg, sizeOf? one value with
  | some n, some size => demand (n ≤ size) s!"{value.compact} {verb} {plural n one many}"
  | _, _ => []

/-- What an upper bound on a size demands. -/
def checkMost (arg value : Json) (verb one many : String) : List Violation :=
  match count? arg, sizeOf? one value with
  | some n, some size => demand (size ≤ n) s!"{value.compact} {verb} {plural n one many}"
  | _, _ => []

/-- What the keyword `type` demands. -/
def checkType (arg value : Json) : List Violation :=
  let names := admitted arg
  let listed := ", ".intercalate ((names.mergeSort (· ≤ ·)).map fun n => s!"\"{n}\"")
  let noun := if names.length = 1 then "type" else "types"
  demand (names.any fun n => hasType n value) s!"{value.compact} is not of {noun} {listed}"

/-- What the keyword `required` demands: one violation for each missing name. -/
def checkRequired (arg value : Json) : List Violation :=
  match arg, value with
  | .arr names, .obj fields =>
    (names.filterMap Json.asString?).flatMap fun name =>
      demand (Table.has fields name) s!"{(Json.str name).compact} is a required property"
  | _, _ => []

/-- What a keyword without subschemas demands of a value; a keyword that is not known, or not made
for the type of the value, demands nothing. -/
def checkAssertion (keyword : String) (arg value : Json) : List Violation :=
  match keyword with
  | "type" => checkType arg value
  | "enum" =>
    match arg with
    | .arr values =>
      demand (values.any fun v => v.same value) s!"{value.compact} is not one of {options values}"
    | _ => []
  | "const" => demand (arg.same value) s!"{arg.compact} was expected"
  | "minimum" => checkBound arg value (· != .lt) "less than the minimum"
  | "maximum" => checkBound arg value (· != .gt) "greater than the maximum"
  | "exclusiveMinimum" => checkBound arg value (· == .gt) "less than or equal to the minimum"
  | "exclusiveMaximum" => checkBound arg value (· == .lt) "greater than or equal to the maximum"
  | "minLength" => checkLeast arg value "is shorter than" "character" "characters"
  | "maxLength" => checkMost arg value "is longer than" "character" "characters"
  | "minItems" => checkLeast arg value "has less than" "item" "items"
  | "maxItems" => checkMost arg value "has more than" "item" "items"
  | "minProperties" => checkLeast arg value "has less than" "property" "properties"
  | "maxProperties" => checkMost arg value "has more than" "property" "properties"
  | "uniqueItems" =>
    match arg, value with
    | .bool true, .arr items => demand (distinct items) s!"{value.compact} has non-unique elements"
    | _, _ => []
  | _ => []

/-! ## Checking -/

/-- The message of the schema that no value satisfies. -/
def refused (value : Json) : Violation := .here s!"False schema does not allow {value.compact}"

/-- The members of a value that the keyword `properties` does not list. -/
def unlisted (properties : Option Fields) (value : Json) : Fields :=
  ((value.asFields?).getD []).filter fun member => !((properties.getD []).has member.1)

/-- The message about members that should not be there. -/
def unexpected (names : List String) : String :=
  let listed := ", ".intercalate (names.map fun n => s!"'{n}'")
  let verb := if names.length = 1 then "was" else "were"
  s!"Additional properties are not allowed ({listed} {verb} unexpected)"

/-- What a closed object demands.  Beside `properties` the members that should not be there are
listed together; without it the first of them is refused on its own. -/
def checkClosed (properties : Option Fields) (value : Json) : List Violation :=
  match properties, unlisted properties value with
  | _, [] => []
  | some _, members => [.here (unexpected (members.map (·.1)))]
  | none, (_, first) :: _ => [refused first]

/-- How schemas are checked. -/
structure Checker where
  /-- Every keyword demands all that it says.  A checker that is not strict lets a pair of required
  names go where a schema lists properties and has a schema for all other members. -/
  strict : Bool
  /-- Checks a value under a reference. -/
  follow : String → Json → List Violation

/-- A pair of required names stands beside listed properties and a schema for all other members. -/
def pairBesideSchema (keywords : Fields) : Bool :=
  (keywords.get? "properties").any Json.isObject &&
    (keywords.get? "additionalProperties").any Json.isObject &&
    ((keywords.get? "required").bind Json.asArray?).any (·.length == 2)

/-- What a schema says that its keywords need to know of each other. -/
structure Surroundings where
  /-- The properties that the schema lists. -/
  properties : Option Fields
  /-- The required names are not demanded. -/
  lenient : Bool

/-- The surroundings of the keywords of a schema. -/
def Checker.surroundings (c : Checker) (keywords : Fields) : Surroundings where
  properties := (keywords.get? "properties").bind Json.asFields?
  lenient := !c.strict && pairBesideSchema keywords

mutual

/-- Everything wrong with a value under a schema. -/
def check (c : Checker) : Json → Json → List Violation
  | .bool false, value => [refused value]
  | .obj keywords, value => checkKeywords c (c.surroundings keywords) value keywords
  | _, _ => []
termination_by structural schema => schema

/-- Everything wrong with a value under some keywords of a schema. -/
def checkKeywords (c : Checker) (around : Surroundings) (value : Json) :
    List (String × Json) → List Violation
  | [] => []
  | (keyword, arg) :: rest =>
    (match keyword with
      | "properties" =>
        match arg with
        | .obj schemas => checkMembers c value schemas
        | _ => []
      | "additionalProperties" =>
        if arg = .bool false then checkClosed around.properties value
        else (unlisted around.properties value).flatMap fun (name, member) =>
          (check c arg member).map (Violation.under name)
      | "items" =>
        ((value.asArray?).getD []).zipIdx.flatMap fun (item, i) =>
          (check c arg item).map (Violation.under (toString i))
      | "anyOf" =>
        match arg with
        | .arr schemas =>
          demand (someHolds c value schemas)
            s!"{value.compact} is not valid under any of the schemas listed in the 'anyOf' keyword"
        | _ => []
      | "$ref" =>
        match arg with
        | .str target => c.follow target value
        | _ => []
      | "required" => if around.lenient then [] else checkRequired arg value
      | _ => checkAssertion keyword arg value) ++
    checkKeywords c around value rest
termination_by structural keywords => keywords

/-- Everything wrong with the members of a value under the schemas for their names. -/
def checkMembers (c : Checker) (value : Json) :
    List (String × Json) → List Violation
  | [] => []
  | (name, schema) :: rest =>
    (match value.get? name with
      | some member => (check c schema member).map (Violation.under name)
      | none => []) ++
    checkMembers c value rest
termination_by structural schemas => schemas

/-- The value satisfies one of some schemas. -/
def someHolds (c : Checker) (value : Json) : List Json → Bool
  | [] => false
  | schema :: rest => (check c schema value).isEmpty || someHolds c value rest
termination_by structural schemas => schemas

end

/-! ## References -/

/-- The segment that stands in a pointer. -/
def unescapeSegment : List Char → List Char
  | '~' :: '0' :: rest => '~' :: unescapeSegment rest
  | '~' :: '1' :: rest => '/' :: unescapeSegment rest
  | c :: rest => c :: unescapeSegment rest
  | [] => []

/-- The value at the end of some segments. -/
def descend (value : Json) : List String → Option Json
  | [] => some value
  | segment :: rest =>
    match value with
    | .obj fields => (Table.get? fields segment).bind fun v => descend v rest
    | .arr items => (segment.toNat?.bind fun i => items[i]?).bind fun v => descend v rest
    | _ => none

/-- The schema that a reference into a document means. -/
def target? (root : Json) (reference : String) : Option Json :=
  match reference.toList with
  | ['#'] => some root
  | '#' :: '/' :: pointer =>
    descend root ((Text.pieces (· == '/') pointer).map fun s => String.ofList (unescapeSegment s))
  | _ => none

/-- The checker of a document when that many references may still be followed. -/
def checker (strict : Bool) (root : Json) : Nat → Checker
  | 0 => ⟨strict, fun _ _ => []⟩
  | fuel + 1 =>
    ⟨strict, fun reference value =>
      match target? root reference with
      | some schema => check (checker strict root fuel) schema value
      | none => []⟩

mutual

/-- The number of values in a value. -/
def weight : Json → Nat
  | .arr items => weightItems items + 1
  | .obj fields => weightFields fields + 1
  | _ => 1

/-- The number of values in some items. -/
def weightItems : List Json → Nat
  | [] => 0
  | item :: rest => weight item + weightItems rest

/-- The number of values in some members. -/
def weightFields : List (String × Json) → Nat
  | [] => 0
  | (_, value) :: rest => weight value + weightFields rest

end

/-! ## Valid schemas -/

/-- Texts without repetition. -/
def isNameList : Json → Bool
  | .arr names => names.all (fun n => n.asString?.isSome) && distinct names
  | _ => false

/-- The argument of `type`: a name of a type, or several different ones. -/
def isTypeArgument : Json → Bool
  | .str name => typeNames.contains name
  | .arr names =>
    !names.isEmpty && distinct names &&
      names.all fun n => (n.asString?).any typeNames.contains
  | _ => false

/-- The form that a keyword without subschemas wants its argument to have. -/
def isArgument (resolves : String → Bool) (keyword : String) (arg : Json) : Bool :=
  match keyword with
  | "type" => isTypeArgument arg
  | "enum" | "examples" => arg.asArray?.isSome
  | "required" => isNameList arg
  | "minimum" | "maximum" | "exclusiveMinimum" | "exclusiveMaximum" =>
    match arg with
    | .num _ => true
    | _ => false
  | "multipleOf" =>
    match arg with
    | .num n => 0 < n.numerator
    | _ => false
  | "minLength" | "maxLength" | "minItems" | "maxItems" | "minProperties" | "maxProperties"
  | "minContains" | "maxContains" => (count? arg).isSome
  | "uniqueItems" | "deprecated" | "readOnly" | "writeOnly" => arg.asBool?.isSome
  | "title" | "description" | "pattern" | "format" | "contentEncoding" | "contentMediaType"
  | "$schema" | "$id" | "$anchor" | "$comment" => arg.asString?.isSome
  | "$ref" => (arg.asString?).any resolves
  | _ => true

mutual

/-- A value is a valid schema, where references have to lead somewhere. -/
def isSchema (resolves : String → Bool) : Json → Bool
  | .bool _ => true
  | .obj keywords => areKeywords resolves keywords
  | _ => false

/-- Every keyword has an argument of the form it wants. -/
def areKeywords (resolves : String → Bool) : List (String × Json) → Bool
  | [] => true
  | (keyword, arg) :: rest =>
    (match keyword with
      | "properties" | "patternProperties" | "dependentSchemas" | "$defs" | "definitions" =>
        match arg with
        | .obj schemas => areMemberSchemas resolves schemas
        | _ => false
      | "items" | "additionalProperties" | "contains" | "propertyNames" | "not" | "if" | "then"
      | "else" | "unevaluatedItems" | "unevaluatedProperties" | "contentSchema" =>
        isSchema resolves arg
      | "anyOf" | "allOf" | "oneOf" | "prefixItems" =>
        match arg with
        | .arr (schema :: schemas) => isSchema resolves schema && areSchemas resolves schemas
        | _ => false
      | _ => isArgument resolves keyword arg) &&
    areKeywords resolves rest

/-- Every value of some members is a valid schema. -/
def areMemberSchemas (resolves : String → Bool) : List (String × Json) → Bool
  | [] => true
  | (_, schema) :: rest => isSchema resolves schema && areMemberSchemas resolves rest

/-- Every value is a valid schema. -/
def areSchemas (resolves : String → Bool) : List Json → Bool
  | [] => true
  | schema :: rest => isSchema resolves schema && areSchemas resolves rest

end

/-- A document is a valid schema. -/
def isValid (schema : Json) : Bool := isSchema (fun r => (target? schema r).isSome) schema

/-- The references that may be followed while a value is checked. -/
def referenceLimit (schema value : Json) : Nat := (weight value + 1) * (weight schema + 1)

/-- Everything wrong with a value under a schema.  A schema that is not a valid one finds nothing
wrong. -/
def violationsOf (strict : Bool) (schema value : Json) : List Violation :=
  if isValid schema then check (checker strict schema (referenceLimit schema value)) schema value
  else []

/-- The value conforms to the schema in everything that the schema says. -/
def conforms (schema value : Json) : Bool := (violationsOf true schema value).isEmpty

/-- What is reported as wrong with a value under a schema, as sorted lines. -/
def violations (schema value : Json) : List String :=
  ((violationsOf false schema value).map Violation.line).mergeSort (· ≤ ·)

/-- Nothing is reported as wrong with the value. -/
def accepts (schema value : Json) : Bool := (violations schema value).isEmpty

end JsonSchema

end Colloquy
