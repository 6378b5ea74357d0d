import Colloquy.Json.Decode
import Colloquy.Toml.Moment

/-!
# TOML values

The values of a TOML document.  Most of them are JSON values too, and `toJson` says which: a date or
a time becomes an object that holds its text, a number that is not finite becomes null, and an
integer of more than sixty-four bits is none.
-/

namespace Colloquy

/-- A value of a TOML document.  The entries of a table are listed in the order in which they
arrived. -/
inductive Toml where
  | string (s : String)
  | integer (n : Int)
  | float (x : Decimal.Binary)
  | infinite (negative : Bool)
  | notANumber
  | boolean (b : Bool)
  | moment (m : Toml.Moment)
  | array (items : List Toml)
  | table (entries : List (String × Toml))
  deriving Repr, Inhabited

namespace Toml

/-- The key under which an object holds the text of a date or a time. -/
def momentKey : String := "$__toml_private_datetime"

/-- The integer takes no more than sixty-four bits, with or without a sign. -/
def isModest (n : Int) : Bool := -Decimal.twoTo 63 ≤ n && n < Decimal.twoTo 64

mutual

/-- The value as JSON; `refusal` says what is wrong with an integer that is too large. -/
def toJson (refusal : Int → DecodeError) : Toml → Decoded Json
  | string s => .ok (.str s)
  | integer n => if isModest n then .ok (.num (.int n)) else .error (refusal n)
  | float x => .ok (.num (.double x))
  | infinite _ => .ok .null
  | notANumber => .ok .null
  | boolean b => .ok (.bool b)
  | moment m => .ok (.obj [(momentKey, .str (String.ofList m.text))])
  | array items => (itemsToJson refusal items).map .arr
  | table entries => (entriesToJson refusal entries).map .obj

def itemsToJson (refusal : Int → DecodeError) : List Toml → Decoded (List Json)
  | [] => .ok []
  | item :: rest => do return (← toJson refusal item) :: (← itemsToJson refusal rest)

def entriesToJson (refusal : Int → DecodeError) : List (String × Toml) → Decoded Fields
  | [] => .ok []
  | (key, value) :: rest => do
    return (key, ← toJson refusal value) :: (← entriesToJson refusal rest)

end

/-- The value as JSON. -/
def json (v : Toml) : Decoded Json := v.toJson fun _ => .outOfRange

end Toml

end Colloquy
