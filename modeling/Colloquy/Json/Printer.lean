import Colloquy.Decimal.Shortest
import Colloquy.Json.Basic

/-!
# JSON text

Writing a value as JSON.  There is one printer, with the line breaks and the blank after a colon
left to a `Style`; `compact` has neither and `indented` has both.  Strings escape the quote, the
backslash and the control characters and leave every other character as it is.
-/

namespace Colloquy.Json

/-- Doubles are written plainly from `0.00001` up to sixteen digits before the point, and a tie
between two shortest decimals goes to the even digit. -/
def numberLayout : Decimal.Layout := ⟨some (-5), some 16, .toEven⟩

/-- The text of a number. -/
def numberText : Number → List Char
  | .int n => (toString n).toList
  | .double x => x.text numberLayout

/-- A lower-case hexadecimal digit. -/
def hexDigit (n : Nat) : Char := if n < 10 then Char.ofNat (0x30 + n) else Char.ofNat (0x57 + n)

/-- A character as it stands inside a quoted string. -/
def escaped (c : Char) : List Char :=
  if c = '"' then ['\\', '"']
  else if c = '\\' then ['\\', '\\']
  else if c.toNat < 0x20 then
    if c = '\n' then ['\\', 'n']
    else if c = '\r' then ['\\', 'r']
    else if c = '\t' then ['\\', 't']
    else if c.toNat = 0x08 then ['\\', 'b']
    else if c.toNat = 0x0C then ['\\', 'f']
    else ['\\', 'u', '0', '0', hexDigit (c.toNat / 16), hexDigit (c.toNat % 16)]
  else [c]

/-- A string in quotes. -/
def quoted (s : List Char) : List Char := '"' :: s.flatMap escaped ++ ['"']

/-- How members are set apart: what stands before a member or a closing bracket at a nesting level,
and what stands after a colon. -/
structure Style where
  lineBreak : Nat → List Char
  afterColon : List Char

/-- Everything on one line, without blanks. -/
def Style.compact : Style := ⟨fun _ => [], []⟩

/-- One member a line, each level indented by a number of spaces. -/
def Style.indented (width : Nat) : Style :=
  ⟨fun level => '\n' :: List.replicate (width * level) ' ', [' ']⟩

mutual

/-- The text of a value that stands at a nesting level. -/
def print (style : Style) (level : Nat) : Json → List Char
  | null => "null".toList
  | bool true => "true".toList
  | bool false => "false".toList
  | num n => numberText n
  | str s => quoted s.toList
  | arr [] => "[]".toList
  | arr (item :: items) =>
    '[' :: style.lineBreak (level + 1) ++ print style (level + 1) item ++
      printItems style (level + 1) items ++ style.lineBreak level ++ [']']
  | obj [] => "\x7b\x7d".toList
  | obj ((key, value) :: fields) =>
    '{' :: style.lineBreak (level + 1) ++ quoted key.toList ++ ':' :: style.afterColon ++
      print style (level + 1) value ++
      printFields style (level + 1) fields ++ style.lineBreak level ++ ['}']

/-- The items after the first, each after a comma. -/
def printItems (style : Style) (level : Nat) : List Json → List Char
  | [] => []
  | item :: items =>
    ',' :: style.lineBreak level ++ print style level item ++ printItems style level items

/-- The members after the first, each after a comma. -/
def printFields (style : Style) (level : Nat) : List (String × Json) → List Char
  | [] => []
  | (key, value) :: fields =>
    ',' :: style.lineBreak level ++ quoted key.toList ++ ':' :: style.afterColon ++
      print style level value ++ printFields style level fields

end

/-- The value on one line without blanks. -/
def compact (value : Json) : String := String.ofList (print Style.compact 0 value)

/-- The value over several lines, each level indented by a number of spaces. -/
def pretty (width : Nat) (value : Json) : String :=
  String.ofList (print (Style.indented width) 0 value)

end Colloquy.Json
