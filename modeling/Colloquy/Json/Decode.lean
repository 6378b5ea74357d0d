import Colloquy.Json.Printer
import Colloquy.Text.Literal

/-!
# Decoding JSON into data

A decoder turns a JSON value into a value of some type or says what is wrong with it.  Records may
be given as an object, where unknown members are ignored, or as an array of their members in order.

When several members of a record are wrong, the first one in the order of the input is reported; a
missing member is reported only when all that are present are right, and then in the order in which
the record declares its members.
-/

namespace Colloquy

/-- What was found where something else was expected, as far as a message tells it. -/
inductive Found where
  | null
  | boolean (b : Bool)
  | integer (n : Int)
  | float (x : Decimal.Binary)
  | infinite (negative : Bool)
  | notANumber
  | string (s : String)
  | sequence
  | map
  deriving Repr, DecidableEq

/-- What a JSON value is found to be. -/
def Found.ofJson : Json → Found
  | .null => null
  | .bool b => boolean b
  | .num (.int n) => integer n
  | .num (.double x) => float x
  | .str s => string s
  | .arr _ => sequence
  | .obj _ => map

/-- What is wrong with a value that should be decoded. -/
inductive DecodeError where
  /-- The value is of another kind than expected. -/
  | wrongType (found : Found) (expected : String)
  /-- The value is of the right kind and out of range. -/
  | wrongValue (found : Found) (expected : String)
  /-- The integer is too large for JSON. -/
  | outOfRange
  /-- The name of a variant that carries data stands alone. -/
  | bareVariant
  /-- A variant is written as an object that does not have exactly one member. -/
  | notOneMember
  /-- The value is no way to write a variant. -/
  | notVariant
  | unknownVariant (name : String) (known : List String)
  | unknownMember (name : String) (known : List String)
  | missing (name : String)
  /-- A record given as an array ends before a member without default. -/
  | tooFew (count : Nat) (record : String) (size : Nat)
  /-- A record given as an array has more items than members. -/
  | tooMany (count : Nat)
  deriving Repr, DecidableEq

namespace DecodeError

/-- Alternatives as they are listed in a message. -/
def alternatives (nothing : String) : List String → String
  | [] => nothing
  | [a] => s!"expected `{a}`"
  | [a, b] => s!"expected `{a}` or `{b}`"
  | many => "expected one of " ++ ", ".intercalate (many.map fun a => s!"`{a}`")

/-- An integer, with the width it takes when that is more than sixty-four bits. -/
def describeInteger (n : Int) : String :=
  if -Decimal.twoTo 63 ≤ n ∧ n < Decimal.twoTo 64 then s!"integer `{n}`"
  else if n < Decimal.twoTo 127 then s!"integer `{n}` as i128"
  else s!"integer `{n}` as u128"

/-- What was found, named by its kind, with its text when that is short; a number is written in the
given layout when it is a double. -/
def describe (layout : Decimal.Layout) : Found → String
  | .null => "null"
  | .boolean b => s!"boolean `{b}`"
  | .integer n => describeInteger n
  | .float x => s!"floating point `{String.ofList (x.text layout)}`"
  | .infinite negative => if negative then "floating point `-inf`" else "floating point `inf`"
  | .notANumber => "floating point `NaN`"
  | .string s => "string " ++ Text.literal s
  | .sequence => "sequence"
  | .map => "map"

/-- The message of an error, with doubles in a layout. -/
def messageIn (layout : Decimal.Layout) : DecodeError → String
  | wrongType found expected => s!"invalid type: {describe layout found}, expected {expected}"
  | wrongValue found expected => s!"invalid value: {describe layout found}, expected {expected}"
  | outOfRange => "number out of range"
  | bareVariant => "invalid type: unit variant, expected newtype variant"
  | notOneMember => "invalid value: map, expected map with a single key"
  | notVariant => "neither a name nor an object with one member"
  | unknownVariant name known =>
    s!"unknown variant `{name}`, " ++ alternatives "there are no variants" known
  | unknownMember name known =>
    s!"unknown field `{name}`, " ++ alternatives "there are no fields" known
  | missing name => s!"missing field `{name}`"
  | tooFew count record size =>
    s!"invalid length {count}, expected struct {record} with {size} elements"
  | tooMany count => s!"invalid length {count}, expected fewer elements in array"

/-- The message of an error found in JSON. -/
def message (e : DecodeError) : String := e.messageIn Json.numberLayout

end DecodeError

/-- The result of decoding. -/
abbrev Decoded := Except DecodeError

namespace Decode

/-- The error of a result, if it is one. -/
def fault {α : Type} : Decoded α → Option DecodeError
  | .ok _ => none
  | .error e => some e

/-- The value is of another kind than expected. -/
def mismatch {α : Type} (v : Json) (expected : String) : Decoded α :=
  .error (.wrongType (.ofJson v) expected)

def string : Json → Decoded String
  | .str s => .ok s
  | v => mismatch v "a string"

def bool : Json → Decoded Bool
  | .bool b => .ok b
  | v => mismatch v "a boolean"

/-- An integer that lies in a range, under the name of the type that has this range. -/
def inRange (low high : Int) (type : String) (n : Int) : Decoded Int :=
  if low ≤ n ∧ n ≤ high then .ok n else .error (.wrongValue (.integer n) type)

def integer (low high : Int) (type : String) : Json → Decoded Int
  | .num (.int n) => inRange low high type n
  | v => mismatch v type

/-- The name of the type of natural numbers with some bits. -/
def naturalType (bits : Nat) : String := s!"u{bits}"

def natural (bits : Nat) (v : Json) : Decoded Nat :=
  (integer 0 (Decimal.twoTo bits - 1) (naturalType bits) v).map Int.toNat

def list {α : Type} (item : Json → Decoded α) : Json → Decoded (List α)
  | .arr items => items.mapM item
  | v => mismatch v "a sequence"

def fields : Json → Decoded Fields
  | .obj fields => .ok fields
  | v => mismatch v "a map"

/-- Null, or a value of some type. -/
def nullable {α : Type} (decode : Json → Decoded α) : Json → Decoded (Option α)
  | .null => .ok none
  | v => (decode v).map some

/-! ## Variants -/

/-- What stands under the name of a variant. -/
def pick {α : Type} (table : List (String × α)) (name : String) : Decoded α :=
  match table.lookup name with
  | some a => .ok a
  | none => .error (.unknownVariant name (table.map (·.1)))

/-- A variant without data: its name, or an object whose only member is that name with null. -/
def variant {α : Type} (table : List (String × α)) (v : Json) : Decoded α := do
  match v with
  | .str name => pick table name
  | .obj [(name, content)] =>
    let a ← pick table name
    if content.isNull then return a else mismatch content "unit"
  | .obj _ => throw .notOneMember
  | v => mismatch v "string or map"

/-- A variant with data: an object whose only member is the name of the variant. -/
def tagged {α : Type} (table : List (String × (Json → Decoded α))) (v : Json) : Decoded α := do
  match v with
  | .str name =>
    let _ ← pick table name
    throw .bareVariant
  | .obj [(name, content)] => (← pick table name) content
  | .obj _ => throw .notOneMember
  | v => mismatch v "string or map"

/-! ## Records -/

/-- The members of a record as they were found, and how a missing one is reported. -/
structure Members (ν : Type) where
  fields : Table ν
  absent : String → DecodeError := .missing

variable {ν : Type}

/-- A member that has to be there. -/
def Members.required {α : Type} (m : Members ν) (name : String) (decode : ν → Decoded α) :
    Decoded α :=
  match m.fields.get? name with
  | some v => decode v
  | none => .error (m.absent name)

/-- A member with a default. -/
def Members.withDefault {α : Type} (m : Members ν) (name : String) (decode : ν → Decoded α)
    (default : α) : Decoded α :=
  match m.fields.get? name with
  | some v => decode v
  | none => .ok default

/-- A member that may be missing or null. -/
def Members.optional {α : Type} (m : Members Json) (name : String) (decode : Json → Decoded α) :
    Decoded (Option α) :=
  m.withDefault name (nullable decode) none

/-- The whole record, unless a member that is present is wrong; then the first of these in the order
of the input. -/
def Members.settle {α : Type} (m : Members ν) (faults : List (String × Option DecodeError))
    (whole : Decoded α) : Decoded α :=
  match m.fields.findSome? fun member => (faults.lookup member.1).join with
  | some e => .error e
  | none => whole

/-- A record from an object, or from an array of its members in order. -/
def record {α : Type} (name : String) (members : List String) (build : Members Json → Decoded α) :
    Json → Decoded α
  | .obj fields => build { fields }
  | .arr items => do
    let absent (member : String) := DecodeError.tooFew (members.idxOf member) name members.length
    let whole ← build ⟨members.zip items, absent⟩
    if members.length < items.length then throw (.tooMany items.length)
    return whole
  | v => mismatch v s!"struct {name}"

end Decode

end Colloquy
