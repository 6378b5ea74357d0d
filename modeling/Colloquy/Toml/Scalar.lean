import Colloquy.Toml.Basic

/-!
# Bare scalars

A scalar without quotes is one word: a boolean, a number, or a date or a time.  Digits may be set
apart in groups by single underscores.  A whole number has no leading zero, and without a sign it
may be written in base sixteen, eight or two.
-/

namespace Colloquy.Toml

/-- A character of a bare scalar. -/
def isWordChar (c : Char) : Bool :=
  c.isAlphanum || c == '+' || c == '-' || c == '_' || c == '.' || c == ':'

/-- The digits of some groups with underscores between them; each group holds a digit. -/
def ungrouped? (isDigit : Char → Bool) (s : List Char) : Option (List Char) :=
  let groups := Text.pieces (· == '_') s
  if groups.all fun g => !g.isEmpty && g.all isDigit then some groups.flatten else none

/-- The digits of a whole number; only zero itself starts with a zero. -/
def wholeDigits? (s : List Char) : Option (List Char) :=
  match ungrouped? Char.isDigit s with
  | some ('0' :: _ :: _) => none
  | digits => digits

/-- The sign of a number, and what follows it. -/
def readSign : List Char → Bool × List Char
  | '-' :: s => (true, s)
  | '+' :: s => (false, s)
  | s => (false, s)

/-! ## Integers -/

def isHexDigit (c : Char) : Bool := (Text.hexValue? c).isSome

def isOctalDigit (c : Char) : Bool := '0' ≤ c && c ≤ '7'

def isBinaryDigit (c : Char) : Bool := c == '0' || c == '1'

/-- The number that some digits stand for in a base. -/
def ofDigitsIn (base : Nat) (digits : List Char) : Nat :=
  digits.foldl (fun n c => base * n + (Text.hexValue? c).getD 0) 0

/-- The largest integer that is read. -/
def largestInteger : Nat := Decimal.twoTo 128 - 1

/-- An integer of a magnitude. -/
def integer? (negative : Bool) (magnitude : Nat) : Option Toml :=
  if largestInteger < magnitude then none
  else some (.integer (if negative then -magnitude else magnitude))

/-- An integer in a base other than ten, from its prefix on. -/
def prefixedInteger? : List Char → Option Toml
  | '0' :: 'x' :: s => do integer? false (ofDigitsIn 16 (← ungrouped? isHexDigit s))
  | '0' :: 'o' :: s => do integer? false (ofDigitsIn 8 (← ungrouped? isOctalDigit s))
  | '0' :: 'b' :: s => do integer? false (ofDigitsIn 2 (← ungrouped? isBinaryDigit s))
  | _ => none

/-- An integer in base ten. -/
def decimalInteger? (s : List Char) : Option Toml := do
  let (negative, s) := readSign s
  integer? negative (Text.ofDigits (← wholeDigits? s))

/-! ## Floating-point numbers -/

/-- The exponent of a number. -/
def exponent? (s : List Char) : Option Int := do
  let (negative, s) := readSign s
  let n : Int := Text.ofDigits (← ungrouped? Char.isDigit s)
  return if negative then -n else n

/-- A number with a fraction or an exponent; there is none when it is too large for a double. -/
def float? (s : List Char) : Option Toml := do
  let (negative, s) := readSign s
  let (significand, exponent) ← match Text.cutAt? (fun c => c == 'e' || c == 'E') s with
    | some (before, after) => (exponent? after).map fun e => (before, some e)
    | none => some (s, none)
  let (whole, fraction) ← match Text.cutAt? (· == '.') significand with
    | some (before, after) =>
      (ungrouped? Char.isDigit after).map fun digits => (before, some digits)
    | none => some (significand, none)
  if exponent.isNone && fraction.isNone then none
  let places := fraction.getD []
  let digits := Text.ofDigits ((← wholeDigits? whole) ++ places)
  let x ← Decimal.nearestDouble? negative digits (exponent.getD 0 - places.length)
  return .float x

/-- The numbers that are not finite. -/
def special? (s : List Char) : Option Toml :=
  let (negative, s) := readSign s
  if s = "inf".toList then some (.infinite negative)
  else if s = "nan".toList then some .notANumber
  else none

def boolean? (s : List Char) : Option Toml :=
  if s = "true".toList then some (.boolean true)
  else if s = "false".toList then some (.boolean false)
  else none

/-- The scalar that a word stands for. -/
def ofWord? (s : List Char) : Option Toml :=
  boolean? s <|> special? s <|> prefixedInteger? s <|> decimalInteger? s <|> float? s <|>
    (Moment.read? s).map .moment

end Colloquy.Toml
