import Colloquy.Text.Cut
import Colloquy.Text.Digits
import Colloquy.Text.Rest

/-!
# Quoted text in TOML

There are four ways to quote: in single or double quotes, on one line or between three quotes over
several.  Only double quotes know escapes.  Between three quotes a line end right at the start is
dropped, one or two more quotes may stand before the closing ones, and in double quotes a backslash
at the end of a line joins the next text to it.

The readers start behind the opening quotes and take a text in which a carriage return only stands
before a line feed.
-/

namespace Colloquy.Toml

/-- A number of hexadecimal digits, after a number that was read before. -/
def readHex : (count acc : Nat) → (s : List Char) → Option (Nat × Remainder s)
  | 0, acc, s => some (acc, .whole s)
  | _ + 1, _, [] => none
  | count + 1, acc, c :: s => do
    let (n, r) ← readHex count (16 * acc + (← Text.hexValue? c)) s
    return (n, r.cons c)

/-- The character of a number. -/
def ofPoint? (n : Nat) : Option Char := if n.isValidChar then some (Char.ofNat n) else none

/-- The character that a number of hexadecimal digits stand for. -/
def readPoint (count : Nat) (s : List Char) : Option (Char × Remainder s) := do
  let (n, r) ← readHex count 0 s
  return (← ofPoint? n, r)

/-- The character of an escape, from what follows the backslash. -/
def readEscape : (s : List Char) → Option (Char × Rest s)
  | [] => none
  | c :: s =>
    if c = 'x' ∨ c = 'u' ∨ c = 'U' then do
      let count := if c = 'x' then 2 else if c = 'u' then 4 else 8
      let (point, r) ← readPoint count s
      return (point, r.cons c)
    else
      let plain := [('"', '"'), ('\\', '\\'), ('b', '\x08'), ('t', '\t'), ('n', '\n'),
        ('f', '\x0c'), ('r', '\r'), ('e', '\x1b')]
      (plain.lookup c).map fun c' => (c', .tail c s)

/-- A line of text in double quotes. -/
def readBasic (s : List Char) : Option (List Char × Rest s) :=
  match s with
  | [] => none
  | '"' :: r => some ([], .tail _ r)
  | '\\' :: r => do
    let (c, r₁) ← readEscape r
    let (cs, r₂) ← readBasic r₁.1
    return (c :: cs, (r₁.trans r₂).cons _)
  | c :: r => do
    if c = '\n' then none
    let (cs, r₁) ← readBasic r
    return (c :: cs, r₁.cons c)
termination_by s.length
decreasing_by
  · exact (r₁.cons '\\').2
  · exact (Rest.tail c r).2

/-- A line of text in single quotes. -/
def readLiteral (s : List Char) : Option (List Char × Rest s) :=
  match h : Text.cutAt? (· == '\'') s with
  | some (inside, r) =>
    if inside.contains '\n' then none else some (inside, ⟨r, Text.length_of_cutAt? h⟩)
  | none => none

/-! ## Over several lines -/

/-- The text without a line end at its start. -/
def afterLineEnd : (s : List Char) → Remainder s
  | '\n' :: s => Rest.tail '\n' s
  | '\r' :: '\n' :: s => (Rest.tail '\n' s).cons '\r'
  | s => .whole s

/-- The quotes that belong to the text although three closing ones stand before them, which makes
these belong to the text and the last three close it. -/
def extraQuotes (quote : Char) : (s : List Char) → List Char × Remainder s
  | a :: b :: s =>
    if a ≠ quote then ([], .whole _)
    else if b ≠ quote then ([a], Rest.tail a (b :: s))
    else ([a, b], (Rest.tail b s).cons a)
  | a :: [] => if a ≠ quote then ([], .whole _) else ([a], .nothing _)
  | [] => ([], .nothing _)

/-- A character that does not show at the end of a line. -/
def isLineBlank (c : Char) : Bool := c == ' ' || c == '\t'

/-- A character that a backslash at the end of a line takes away. -/
def isJoined (c : Char) : Bool := isLineBlank c || c == '\n' || c == '\r'

/-- A line ends here but for blanks. -/
def endsLine (s : List Char) : Bool :=
  match s.dropWhile isLineBlank with
  | '\n' :: _ => true
  | '\r' :: _ => true
  | _ => false

/-- Text between three double quotes, behind the line end at its start. -/
def readLongBasic (s : List Char) : Option (List Char × Rest s) :=
  match s with
  | [] => none
  | '"' :: '"' :: '"' :: r =>
    let (quotes, r₁) := extraQuotes '"' r
    some (quotes, ((r₁.cons _).cons _).cons _)
  | '\\' :: r =>
    if endsLine r then do
      let (cs, r₁) ← readLongBasic (Remainder.dropWhile isJoined r).1
      return (cs, ((Remainder.dropWhile isJoined r).trans r₁).cons _)
    else do
      let (c, r₁) ← readEscape r
      let (cs, r₂) ← readLongBasic r₁.1
      return (c :: cs, (r₁.trans r₂).cons _)
  | c :: r => do
    let (cs, r₁) ← readLongBasic r
    return (c :: cs, r₁.cons c)
termination_by s.length
decreasing_by
  · exact ((Remainder.dropWhile isJoined r).cons '\\').2
  · exact (r₁.cons '\\').2
  · exact (Rest.tail c r).2

/-- What follows three single quotes is shorter than the text. -/
theorem length_of_cut_quotes {s before after : List Char}
    (h : Text.cut? ['\'', '\'', '\''] s = some (before, after)) : after.length < s.length :=
  Nat.lt_of_lt_of_le (Nat.lt_add_of_pos_right (by decide)) (Text.length_of_cut? h)

/-- Text between three single quotes, behind the line end at its start. -/
def readLongLiteral (s : List Char) : Option (List Char × Rest s) :=
  match h : Text.cut? ['\'', '\'', '\''] s with
  | some (inside, r) =>
    let closed : Rest s := ⟨r, length_of_cut_quotes h⟩
    let (quotes, r₁) := extraQuotes '\'' r
    some (inside ++ quotes, closed.trans r₁)
  | none => none

/-- A quoted text, from its opening quotes on. -/
def readQuoted : (s : List Char) → Option (List Char × Rest s)
  | '"' :: '"' :: '"' :: s => do
    let r := afterLineEnd s
    let (cs, r₁) ← readLongBasic r.1
    return (cs, (((r.trans r₁).cons _).cons _).cons _)
  | '\'' :: '\'' :: '\'' :: s => do
    let r := afterLineEnd s
    let (cs, r₁) ← readLongLiteral r.1
    return (cs, (((r.trans r₁).cons _).cons _).cons _)
  | '"' :: s => do
    let (cs, r) ← readBasic s
    return (cs, r.cons _)
  | '\'' :: s => do
    let (cs, r) ← readLiteral s
    return (cs, r.cons _)
  | _ => none

end Colloquy.Toml
