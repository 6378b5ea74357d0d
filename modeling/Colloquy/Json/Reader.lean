import Colloquy.Json.Numeral

/-!
# Reading JSON

A recursive descent over the characters of a text.  Every reader returns what it read together with
what is left, and the type of what is left says that it is shorter; that is what makes the loops
over items and members end.  Nesting is bounded by a number that goes down by one at each bracket,
so that a value nested deeper than `maxDepth` is refused.

A reader only says whether a text is JSON; why it is not is not told.
-/

namespace Colloquy.Json

/-- The deepest nesting of arrays and objects that is read. -/
def maxDepth : Nat := 127

/-- The characters that may stand between the parts of a JSON text. -/
def isGap (c : Char) : Bool := c == ' ' || c == '\n' || c == '\r' || c == '\t'

/-- The next character that is not a blank, and what follows it. -/
def nextMark? (s : List Char) : Option (Char × Rest s) := Rest.next? isGap s

/-! ## Strings -/

/-- Four hexadecimal digits. -/
def readUnit : (s : List Char) → Option (Nat × Rest s)
  | a :: b :: c :: d :: s => do
    let digits ← [a, b, c, d].mapM Text.hexValue?
    return (digits.foldl (fun n digit => 16 * n + digit) 0,
      (((Rest.tail d s).cons c).cons b).cons a)
  | _ => none

/-- The second escape of a pair, as its offset from the first of the numbers that stand there. -/
def readPartner : (s : List Char) → Option (Nat × Rest s)
  | '\\' :: 'u' :: s => do
    let (unit, r) ← readUnit s
    if 0xDC00 ≤ unit ∧ unit < 0xE000 then some (unit - 0xDC00, (r.cons _).cons _) else none
  | _ => none

/-- The character of an escape, from what follows the backslash.  A character beyond the basic plane
is written as two escapes that belong together, and neither of them stands alone. -/
def readEscape : (s : List Char) → Option (Char × Rest s)
  | '"' :: s => some ('"', .tail _ s)
  | '\\' :: s => some ('\\', .tail _ s)
  | '/' :: s => some ('/', .tail _ s)
  | 'b' :: s => some ('\x08', .tail _ s)
  | 'f' :: s => some ('\x0c', .tail _ s)
  | 'n' :: s => some ('\n', .tail _ s)
  | 'r' :: s => some ('\r', .tail _ s)
  | 't' :: s => some ('\t', .tail _ s)
  | 'u' :: s => do
    let (unit, r) ← readUnit s
    if 0xD800 ≤ unit ∧ unit < 0xDC00 then
      let (offset, r₁) ← readPartner r.1
      return (Char.ofNat (0x10000 + (unit - 0xD800) * 0x400 + offset), (r.trans r₁).cons _)
    else if 0xDC00 ≤ unit ∧ unit < 0xE000 then none
    else return (Char.ofNat unit, r.cons _)
  | _ => none

/-- The characters of a string, from what follows its opening quote. -/
def readString (s : List Char) : Option (List Char × Rest s) :=
  match s with
  | [] => none
  | '"' :: r => some ([], .tail _ r)
  | '\\' :: r => do
    let (c, r₁) ← readEscape r
    let (cs, r₂) ← readString r₁.1
    return (c :: cs, (r₁.trans r₂).cons _)
  | c :: r => do
    if c.toNat < 0x20 then none
    let (cs, r₁) ← readString r
    return (c :: cs, r₁.cons _)
termination_by s.length
decreasing_by
  · exact (r₁.cons '\\').2
  · exact (Rest.tail c r).2

/-! ## Values -/

/-- The items of an array, from where the first of them begins. -/
def readItems (read : (s : List Char) → Option (Json × Rest s)) (s : List Char) :
    Option (List Json × Rest s) := do
  let (item, r) ← read s
  match nextMark? r.1 with
  | some (']', r₁) => return ([item], r.trans r₁)
  | some (',', r₁) =>
    let (items, r₂) ← readItems read (r.trans r₁).1
    return (item :: items, (r.trans r₁).trans r₂)
  | _ => none
termination_by s.length
decreasing_by exact (r.trans r₁).2

/-- The key and the value of a member. -/
def readMember (read : (s : List Char) → Option (Json × Rest s)) (s : List Char) :
    Option ((String × Json) × Rest s) := do
  let ('"', r) ← nextMark? s | none
  let (key, r₁) ← readString r.1
  let (':', r₂) ← nextMark? r₁.1 | none
  let (value, r₃) ← read r₂.1
  return ((String.ofList key, value), r.trans (r₁.trans (r₂.trans r₃)))

/-- The members of an object, from where the first of them begins. -/
def readMembers (read : (s : List Char) → Option (Json × Rest s)) (s : List Char) :
    Option (Fields × Rest s) := do
  let (member, r) ← readMember read s
  match nextMark? r.1 with
  | some ('}', r₁) => return ([member], r.trans r₁)
  | some (',', r₁) =>
    let (members, r₂) ← readMembers read (r.trans r₁).1
    return (member :: members, (r.trans r₁).trans r₂)
  | _ => none
termination_by s.length
decreasing_by exact (r.trans r₁).2

/-- The text after a word that it starts with. -/
def readWord (word : List Char) (value : Json) (s : List Char) : Option (Json × Rest s) :=
  match word, s with
  | [], _ => none
  | [w], c :: s => if w = c then some (value, .tail _ s) else none
  | w :: word, c :: s =>
    if w = c then (readWord word value s).map fun (v, r) => (v, r.cons _) else none
  | _ :: _, [] => none

/-- A number. -/
def readNumber (s : List Char) : Option (Json × Rest s) :=
  match h : Numeral.scan s with
  | some (n, r) => n.value?.map fun x => (.num x, ⟨r, Numeral.length_of_scan h⟩)
  | none => none

/-- A word or a number. -/
def readPlain (s : List Char) : Option (Json × Rest s) :=
  readWord "null".toList null s <|> readWord "true".toList (bool true) s <|>
    readWord "false".toList (bool false) s <|> readNumber s

/-- Reads a value, with the blanks before it.  What stands in its brackets is read by `inside`, and
without that no bracket may open. -/
def readAround (inside : Option ((s : List Char) → Option (Json × Rest s))) (s : List Char) :
    Option (Json × Rest s) := do
  let (c, r) ← nextMark? s
  match c with
  | '"' =>
    let (cs, r₁) ← readString r.1
    return (.str (String.ofList cs), r.trans r₁)
  | '[' =>
    let read ← inside
    match nextMark? r.1 with
    | some (']', r₁) => return (.arr [], r.trans r₁)
    | _ =>
      let (items, r₁) ← readItems read r.1
      return (.arr items, r.trans r₁)
  | '{' =>
    let read ← inside
    match nextMark? r.1 with
    | some ('}', r₁) => return (.obj [], r.trans r₁)
    | _ =>
      let (members, r₁) ← readMembers read r.1
      return (ofMembers members, r.trans r₁)
  | c =>
    let here := r.restore c
    let (value, r₁) ← readPlain here.1
    return (value, here.trans r₁)

/-- Reads a value nested at most `depth` deep, with the blanks before it. -/
def readValue : (depth : Nat) → (s : List Char) → Option (Json × Rest s)
  | 0 => readAround none
  | depth + 1 => readAround (some (readValue depth))

/-- The value that a whole text is the JSON of. -/
def read? (s : List Char) : Option Json := do
  let (v, r) ← readValue maxDepth s
  if (nextMark? r.1).isNone then v else none

/-- The value that a whole text is the JSON of. -/
def parse? (s : String) : Option Json := read? s.toList

end Colloquy.Json
