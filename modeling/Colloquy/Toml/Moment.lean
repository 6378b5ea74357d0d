import Colloquy.Text.Cut
import Colloquy.Text.Digits

/-!
# Dates and times

A moment is a date, a time of day, or both, and with both there may be an offset from universal
time.  `read?` takes the written form apart and refuses days that no calendar has; `text` writes a
moment in one form, whatever letters separated its parts.
-/

namespace Colloquy.Toml

structure Date where
  year : Nat
  month : Nat
  day : Nat
  deriving DecidableEq, Repr

structure TimeOfDay where
  hour : Nat
  minute : Nat
  second : Option Nat
  nanosecond : Option Nat
  deriving DecidableEq, Repr

/-- An offset from universal time. -/
inductive Offset where
  | zulu
  | shift (minutes : Int)
  deriving DecidableEq, Repr

inductive Moment where
  | date (date : Date)
  | time (time : TimeOfDay)
  | both (date : Date) (time : TimeOfDay) (offset : Option Offset)
  deriving DecidableEq, Repr

/-! ## Reading -/

/-- The number that a run of digits of a certain length stands for, and what follows the run. -/
def readDigits (count : Nat) (s : List Char) : Option (Nat × List Char) :=
  let digits := s.takeWhile Char.isDigit
  if digits.length = count then some (Text.ofDigits digits, s.dropWhile Char.isDigit) else none

namespace Date

def isLeap (year : Nat) : Bool := year % 4 == 0 && (year % 100 != 0 || year % 400 == 0)

def daysIn (year month : Nat) : Nat :=
  if month = 2 then (if isLeap year then 29 else 28)
  else if month = 4 ∨ month = 6 ∨ month = 9 ∨ month = 11 then 30
  else 31

/-- A day that the calendar has. -/
def isValid (d : Date) : Bool :=
  1 ≤ d.month && d.month ≤ 12 && 1 ≤ d.day && d.day ≤ daysIn d.year d.month

/-- Reads year, month and day with dashes between them. -/
def read (s : List Char) : Option (Date × List Char) := do
  let (year, s) ← readDigits 4 s
  let s ← Text.leading? ['-'] s
  let (month, s) ← readDigits 2 s
  let s ← Text.leading? ['-'] s
  let (day, s) ← readDigits 2 s
  let date : Date := ⟨year, month, day⟩
  if date.isValid then return (date, s) else none

end Date

namespace TimeOfDay

/-- Reads a fraction of a second, down to nanoseconds; what is smaller is dropped. -/
def readFraction : List Char → Option (Option Nat × List Char)
  | '.' :: s =>
    match s.takeWhile Char.isDigit with
    | [] => none
    | digits =>
      let nine := (digits ++ List.replicate 9 '0').take 9
      some (some (Text.ofDigits nine), s.dropWhile Char.isDigit)
  | s => some (none, s)

/-- Reads a second with its fraction, if there is one. -/
def readSecond : List Char → Option ((Option Nat × Option Nat) × List Char)
  | ':' :: s => do
    let (second, s) ← readDigits 2 s
    let (nanosecond, s) ← readFraction s
    return ((some second, nanosecond), s)
  | s => some ((none, none), s)

/-- Reads hour and minute and what else is there.  A second may be a leap second. -/
def read (s : List Char) : Option (TimeOfDay × List Char) := do
  let (hour, s) ← readDigits 2 s
  let s ← Text.leading? [':'] s
  let (minute, s) ← readDigits 2 s
  let ((second, nanosecond), s) ← readSecond s
  if hour ≤ 23 ∧ minute ≤ 59 ∧ second.getD 0 ≤ 60 then
    return (⟨hour, minute, second, nanosecond⟩, s)
  else none

end TimeOfDay

/-- The sign of an offset. -/
def Offset.sign? (c : Char) : Option Int :=
  if c = '+' then some 1 else if c = '-' then some (-1) else none

/-- Reads an offset that takes up a whole text; an empty text is none. -/
def Offset.read : List Char → Option (Option Offset)
  | [] => some none
  | ['Z'] => some (some .zulu)
  | ['z'] => some (some .zulu)
  | c :: s => do
    let sign ← Offset.sign? c
    let (hours, s) ← readDigits 2 s
    let s ← Text.leading? [':'] s
    let (minutes, s) ← readDigits 2 s
    if s.isEmpty ∧ hours ≤ 23 ∧ minutes ≤ 59 then
      return some (.shift (sign * (60 * hours + minutes)))
    else none

namespace Moment

/-- What may stand between a date and a time. -/
def isSeparator (c : Char) : Bool := c == 'T' || c == 't' || c == ' '

/-- The moment that a whole text stands for. -/
def read? (s : List Char) : Option Moment :=
  match Date.read s with
  | some (d, []) => some (date d)
  | some (d, c :: s) => do
    if !isSeparator c then none
    let (t, s) ← TimeOfDay.read s
    return both d t (← Offset.read s)
  | none =>
    match TimeOfDay.read s with
    | some (t, []) => some (time t)
    | _ => none

end Moment

/-! ## Writing -/

/-- A number in at least a certain count of digits. -/
def padded (width n : Nat) : List Char :=
  let digits := Nat.toDigits 10 n
  List.replicate (width - digits.length) '0' ++ digits

def Date.text (d : Date) : List Char :=
  padded 4 d.year ++ '-' :: padded 2 d.month ++ '-' :: padded 2 d.day

/-- The digits of a fraction of a second, without the zeros at the end but for one. -/
def fractionText (nanosecond : Nat) : List Char :=
  match ((padded 9 nanosecond).reverse.dropWhile (· == '0')).reverse with
  | [] => ['0']
  | digits => digits

def TimeOfDay.text (t : TimeOfDay) : List Char :=
  padded 2 t.hour ++ ':' :: padded 2 t.minute ++
    (match t.second with
      | some second => ':' :: padded 2 second
      | none => []) ++
    (match t.nanosecond with
      | some nanosecond => '.' :: fractionText nanosecond
      | none => [])

def Offset.text : Offset → List Char
  | zulu => ['Z']
  | shift minutes =>
    (if minutes < 0 then '-' else '+') :: padded 2 (minutes.natAbs / 60) ++
      ':' :: padded 2 (minutes.natAbs % 60)

def Moment.text : Moment → List Char
  | date d => d.text
  | time t => t.text
  | both d t offset => d.text ++ 'T' :: t.text ++ (match offset with
    | some offset => offset.text
    | none => [])

end Colloquy.Toml
