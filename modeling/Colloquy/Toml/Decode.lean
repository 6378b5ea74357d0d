import Colloquy.Request
import Colloquy.Toml.Basic

/-!
# Decoding TOML into data

The decoders of `Json.Decode` once more for TOML, where there is no null: a member that may be
missing is there or it is not.  The records of TOML refuse members that they do not know.
-/

namespace Colloquy.Toml

/-- What a value is found to be. -/
def found : Toml → Found
  | string s => .string s
  | integer n => .integer n
  | float x => .float x
  | infinite negative => .infinite negative
  | notANumber => .notANumber
  | boolean b => .boolean b
  | moment _ => .map
  | array _ => .sequence
  | table _ => .map

/-- Doubles in messages are always written positionally, and a tie between two shortest decimals
goes upward. -/
def numberLayout : Decimal.Layout := ⟨none, none, .upward⟩

/-- The value is of another kind than expected. -/
def mismatch {α : Type} (v : Toml) (expected : String) : Decoded α :=
  .error (.wrongType v.found expected)

def toText : Toml → Decoded String
  | string s => .ok s
  | v => v.mismatch "a string"

def toNatural (bits : Nat) : Toml → Decoded Nat
  | integer n =>
    let type := Decode.naturalType bits
    if isModest n then (Decode.inRange 0 (Decimal.twoTo bits - 1) type n).map Int.toNat
    else mismatch (integer n) type
  | v => v.mismatch (Decode.naturalType bits)

def toList {α : Type} (item : Toml → Decoded α) : Toml → Decoded (List α)
  | array items => items.mapM item
  | v => v.mismatch "a sequence"

/-- Members as JSON.  A date or a time is an object too. -/
def toFields : Toml → Decoded Fields
  | table entries => entriesToJson (fun _ => .outOfRange) entries
  | moment m => .ok [(momentKey, .str (String.ofList m.text))]
  | v => v.mismatch "a map"

/-- A variant without data: its name, or a table whose only member is that name with nothing in
it. -/
def toVariant {α : Type} (variants : List (String × α)) : Toml → Decoded α
  | string name => Decode.pick variants name
  | table [(name, content)] => do
    let a ← Decode.pick variants name
    match content with
    | array [] => return a
    | table [] => return a
    | _ => throw .notVariant
  | _ => .error .notVariant

/-! ## Records -/

/-- The whole record, unless a member that is present is wrong or not known; then the first of these
in the order of the input. -/
def settle {α : Type} (known : List String) (m : Decode.Members Toml)
    (faults : List (String × Option DecodeError)) (whole : Decoded α) : Decoded α :=
  let unknown := m.fields.keys.filter fun key => !known.contains key
  m.settle (faults ++ unknown.map fun key => (key, some (.unknownMember key known))) whole

/-- A member that may be missing. -/
def member {α : Type} (m : Decode.Members Toml) (name : String) (decode : Toml → Decoded α) :
    Decoded (Option α) :=
  m.withDefault name (fun v => (decode v).map some) none

/-- A record from a table, or from an array of its members in order; what the array holds beyond
that is ignored. -/
def record {α : Type} (name : String) (members : List String)
    (build : Decode.Members Toml → Decoded α) : Toml → Decoded α
  | table entries => build { fields := entries }
  | moment m => build { fields := [(momentKey, string (String.ofList m.text))] }
  | array items => build { fields := members.zip items }
  | v => v.mismatch s!"struct {name}"

/-! ## Settings -/

/-- A number in single precision. -/
def toSingle : Toml → Decoded Single
  | integer n =>
    if isModest n then .ok (.ofNumber (.int n)) else mismatch (integer n) "f32"
  | float x => .ok (.ofNumber (.double x))
  | infinite _ => .ok .infinite
  | notANumber => .ok .infinite
  | v => v.mismatch "f32"

/-- A setting that is passed on as it is. -/
def toCustom : Toml → Decoded Json := toJson fun n => .wrongType (.integer n) "any value"

/-- Settings from a table. -/
def toConfig : Toml → Decoded Config
  | table entries =>
    Config.ofMembers { fields := entries } (fun v => v.toSingle.map some)
      (fun v => (v.toNatural 32).map some) (toList toText) toCustom
  | moment m =>
    .ok { custom := [(momentKey, .str (String.ofList m.text))] }
  | v => v.mismatch Config.expected

end Colloquy.Toml
