import Colloquy.Decimal.Binary
import Colloquy.Table

/-!
# JSON values

The one dynamic value of the library: template variables, tool inputs and outputs, schemas and
metadata are JSON.  Numbers keep apart integers, which are exact, and doubles; objects keep the
order in which their keys arrived, because that order shows wherever an object is printed or walked.

The members of an object are a `Table`, and a key that comes again overrides in place.
-/

namespace Colloquy

/-- A JSON number.  An integer is exact; whatever was written with a point or an exponent is a
double. -/
inductive Number where
  | int (n : Int)
  | double (x : Decimal.Binary)
  deriving DecidableEq, Repr

/-- A JSON value.  The members of an object are listed in the order in which they arrived. -/
inductive Json where
  | null
  | bool (b : Bool)
  | num (n : Number)
  | str (s : String)
  | arr (items : List Json)
  | obj (fields : List (String × Json))
  deriving Repr, Inhabited

/-- The members of an object, in order. -/
abbrev Fields := Table Json

/-! ## Numbers -/

namespace Number

/-- The number is whole: an integer, or a double without a fraction. -/
def isWhole : Number → Bool
  | int _ => true
  | double x => x.isWhole

/-- The numerator of the value over `denominator`. -/
def numerator : Number → Int
  | int n => n
  | double x => x.numerator

/-- The denominator of the value, a power of two. -/
def denominator : Number → Nat
  | int _ => 1
  | double x => x.denominator

/-- Compares two numbers by value, however they were written. -/
def compareValue (a b : Number) : Ordering :=
  compare (a.numerator * b.denominator) (b.numerator * a.denominator)

/-- Two numbers have the same value, however they were written. -/
def sameValue (a b : Number) : Bool := a.compareValue b == .eq

/-- The number is zero. -/
def isZero (a : Number) : Bool := a.numerator == 0

/-- The value of a number that was written as an integer and is not negative. -/
def toNat? : Number → Option Nat
  | int n => if 0 ≤ n then some n.toNat else none
  | double _ => none

end Number

namespace Json

/-- An object from its members; a key that comes again overrides in place. -/
def ofMembers (members : Fields) : Json := .obj (Table.ofList members)

/-- An integer as JSON. -/
def ofInt (n : Int) : Json := .num (.int n)

/-- A natural number as JSON. -/
def ofNat (n : Nat) : Json := .num (.int n)

def isNull : Json → Bool
  | null => true
  | _ => false

def isObject : Json → Bool
  | obj _ => true
  | _ => false

def asString? : Json → Option String
  | str s => some s
  | _ => none

def asArray? : Json → Option (List Json)
  | arr items => some items
  | _ => none

def asFields? : Json → Option Fields
  | obj fields => some fields
  | _ => none

def asBool? : Json → Option Bool
  | bool b => some b
  | _ => none

/-- The member of an object under a key; nothing for other values. -/
def get? : Json → String → Option Json
  | obj fields, key => Table.get? fields key
  | _, _ => none

mutual

/-- Sameness of values: numbers by value, arrays in order, objects as maps from key to value. -/
def same : Json → Json → Bool
  | null, null => true
  | bool a, bool b => a == b
  | num a, num b => a.sameValue b
  | str a, str b => a == b
  | arr as, arr bs => sameItems as bs
  | obj fs, obj gs => fs.length == gs.length && sameFields fs gs
  | _, _ => false

/-- Sameness item by item. -/
def sameItems : List Json → List Json → Bool
  | [], [] => true
  | a :: as, b :: bs => same a b && sameItems as bs
  | _, _ => false

/-- Every member of the first list has a same value under its key in the second. -/
def sameFields : List (String × Json) → List (String × Json) → Bool
  | [], _ => true
  | (k, v) :: rest, gs => (match List.lookup k gs with
      | some w => same v w
      | none => false) && sameFields rest gs

end

/-! ### Deciding equality -/

mutual

/-- The two values are built alike: same numbers written alike, same members in the same order. -/
def alike : Json → Json → Bool
  | null, null => true
  | bool a, bool b => a == b
  | num a, num b => a == b
  | str a, str b => a == b
  | arr as, arr bs => alikeItems as bs
  | obj fs, obj gs => alikeFields fs gs
  | _, _ => false

/-- Likeness item by item. -/
def alikeItems : List Json → List Json → Bool
  | [], [] => true
  | a :: as, b :: bs => alike a b && alikeItems as bs
  | _, _ => false

/-- Likeness member by member. -/
def alikeFields : List (String × Json) → List (String × Json) → Bool
  | [], [] => true
  | (k, v) :: fs, (l, w) :: gs => k == l && alike v w && alikeFields fs gs
  | _, _ => false

end

mutual

theorem alike_iff : ∀ a b : Json, alike a b = true ↔ a = b
  | null, b => by cases b <;> simp [alike]
  | bool _, b => by cases b <;> simp [alike]
  | num _, b => by cases b <;> simp [alike]
  | str _, b => by cases b <;> simp [alike]
  | arr as, b => by cases b <;> simp [alike, alikeItems_iff as]
  | obj fs, b => by cases b <;> simp [alike, alikeFields_iff fs]

theorem alikeItems_iff : ∀ as bs : List Json, alikeItems as bs = true ↔ as = bs
  | [], bs => by cases bs <;> simp [alikeItems]
  | a :: as, bs => by cases bs <;> simp [alikeItems, alike_iff a, alikeItems_iff as]

theorem alikeFields_iff : ∀ fs gs : List (String × Json), alikeFields fs gs = true ↔ fs = gs
  | [], gs => by cases gs <;> simp [alikeFields]
  | (k, v) :: fs, gs => by
    cases gs <;> simp [alikeFields, alike_iff v, alikeFields_iff fs, Prod.ext_iff, and_assoc]

end

instance : DecidableEq Json := fun a b => decidable_of_iff _ (alike_iff a b)

end Json

end Colloquy
