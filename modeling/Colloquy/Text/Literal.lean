import Colloquy.Text.Blank
import Colloquy.Text.Joining

/-!
# Quoting for a reader

Texts quoted inside a message stand as literals: in double quotes, with the quote and the backslash
escaped, and with every character that would not show (a control or format character, a space other
than the plain one, a character for private use, a mark that joins the character before it) written
by its number.
-/

namespace Colloquy.Text

/-- Characters that do not show, as closed ranges of code points: control, format and private-use
characters and the separators other than the plain space. -/
def hiddenRanges : List (Nat × Nat) :=
  [(0x00, 0x1F), (0x7F, 0xA0), (0xAD, 0xAD), (0x600, 0x605), (0x61C, 0x61C), (0x6DD, 0x6DD),
   (0x70F, 0x70F), (0x890, 0x891), (0x8E2, 0x8E2), (0x1680, 0x1680), (0x180E, 0x180E),
   (0x2000, 0x200F), (0x2028, 0x202F), (0x205F, 0x206F), (0x3000, 0x3000), (0xD800, 0xF8FF),
   (0xFDD0, 0xFDEF), (0xFEFF, 0xFEFF), (0xFFF0, 0xFFFB), (0xFFFE, 0xFFFF), (0x110BD, 0x110BD),
   (0x110CD, 0x110CD), (0x13430, 0x1343F), (0x1BCA0, 0x1BCA3), (0x1D173, 0x1D17A),
   (0xE0000, 0xE00FF), (0xE01F0, 0x10FFFF)]

/-- A character as it stands in a literal. -/
def literalChar (c : Char) : List Char :=
  if c = '"' then ['\\', '"']
  else if c = '\\' then ['\\', '\\']
  else if c = '\n' then ['\\', 'n']
  else if c = '\r' then ['\\', 'r']
  else if c = '\t' then ['\\', 't']
  else if c.toNat = 0 then ['\\', '0']
  else if inRanges hiddenRanges c.toNat || inRanges joiningRanges c.toNat then
    ['\\', 'u', '{'] ++ Nat.toDigits 16 c.toNat ++ ['}']
  else [c]

/-- A text as a literal in double quotes. -/
def literal (s : String) : String := String.ofList ('"' :: s.toList.flatMap literalChar ++ ['"'])

/-- An optional text as a literal. -/
def optionalLiteral : Option String → String
  | none => "None"
  | some s => "Some(" ++ literal s ++ ")"

end Colloquy.Text
