import Colloquy.Json.Basic
import Colloquy.Text.Digits
import Colloquy.Text.Rest

/-!
# Numerals

A numeral is a number as it is written: digits, perhaps a fraction, perhaps an exponent.  `scan`
reads one off the front of a text and `value?` gives the number it stands for.

A numeral without fraction and exponent is an integer when sixty-four bits hold it, and every other
numeral is a double.  The double is not always the one nearest to the numeral: only the digits that
fit sixty-four bits are kept, and the kept significand is then multiplied or divided by a power of
ten in double precision.
-/

namespace Colloquy

/-- A number as it is written.  The whole part has no leading zero. -/
structure Numeral where
  negative : Bool
  whole : List Char
  fraction : Option (List Char)
  exponent : Option Int
  deriving DecidableEq, Repr

namespace Numeral

open Text (digitValue ofDigits)

/-- The digits at the start of a text and what follows them. -/
def digits (s : List Char) : List Char × List Char :=
  (s.takeWhile Char.isDigit, s.dropWhile Char.isDigit)

theorem digits_append (s : List Char) : (digits s).1 ++ (digits s).2 = s :=
  List.takeWhile_append_dropWhile

theorem length_digits_snd_le (s : List Char) : (digits s).2.length ≤ s.length := by
  have := congrArg List.length (digits_append s)
  simp only [List.length_append] at this
  omega

/-- The whole part of a numeral: a single zero, or digits that do not start with one. -/
def scanWhole (s : List Char) : Option (List Char × List Char) :=
  match digits s with
  | ([], _) => none
  | ('0' :: _ :: _, _) => none
  | (ds, rest) => some (ds, rest)

/-- The fraction of a numeral, if a point comes next; a point without digits is refused. -/
def scanFraction : List Char → Option (Option (List Char) × List Char)
  | '.' :: s =>
    match digits s with
    | ([], _) => none
    | (ds, rest) => some (some ds, rest)
  | s => some (none, s)

/-- The sign of an exponent, and whether it is negative. -/
def scanSign : List Char → Bool × List Char
  | '-' :: s => (true, s)
  | '+' :: s => (false, s)
  | s => (false, s)

/-- The exponent of a numeral, if one comes next; an exponent without digits is refused. -/
def scanExponent : List Char → Option (Option Int × List Char)
  | c :: s =>
    if c = 'e' ∨ c = 'E' then
      let (negative, s) := scanSign s
      match digits s with
      | ([], _) => none
      | (ds, rest) => some (some (if negative then -(ofDigits ds : Int) else ofDigits ds), rest)
    else some (none, c :: s)
  | [] => some (none, [])

/-- Reads a numeral off the front of a text. -/
def scan (s : List Char) : Option (Numeral × List Char) := do
  let (negative, s) := match s with
    | '-' :: s => (true, s)
    | s => (false, s)
  let (whole, s) ← scanWhole s
  let (fraction, s) ← scanFraction s
  let (exponent, s) ← scanExponent s
  return (⟨negative, whole, fraction, exponent⟩, s)

theorem length_of_scanWhole {s ds r : List Char} (h : scanWhole s = some (ds, r)) :
    r.length < s.length := by
  have total := congrArg List.length (digits_append s)
  rw [List.length_append] at total
  unfold scanWhole at h
  split at h
  · simp at h
  · simp at h
  · rename_i ds' rest hne _ heq
    simp only [Option.some.injEq, Prod.mk.injEq] at h
    obtain ⟨rfl, rfl⟩ := h
    rw [heq] at total
    have : 0 < ds'.length := List.length_pos_iff.mpr hne
    simp only at total
    omega

theorem length_of_scanFraction {s r : List Char} {f : Option (List Char)}
    (h : scanFraction s = some (f, r)) : r.length ≤ s.length := by
  unfold scanFraction at h
  split at h
  · rename_i s'
    have le := length_digits_snd_le s'
    split at h
    · simp at h
    · rename_i heq
      simp only [Option.some.injEq, Prod.mk.injEq] at h
      obtain ⟨_, rfl⟩ := h
      rw [heq] at le
      simp only [List.length_cons] at le ⊢
      omega
  · simp only [Option.some.injEq, Prod.mk.injEq] at h
    exact h.2 ▸ Nat.le_refl _

theorem length_scanSign_snd_le (s : List Char) : (scanSign s).2.length ≤ s.length := by
  unfold scanSign
  split <;> simp

theorem length_of_scanExponent {s r : List Char} {e : Option Int}
    (h : scanExponent s = some (e, r)) : r.length ≤ s.length := by
  unfold scanExponent at h
  split at h
  · rename_i c s'
    split at h
    · have le := length_digits_snd_le (scanSign s').2
      have le' := length_scanSign_snd_le s'
      simp only at h
      split at h
      · simp at h
      · rename_i heq
        simp only [Option.some.injEq, Prod.mk.injEq] at h
        obtain ⟨_, rfl⟩ := h
        rw [heq] at le
        simp only [List.length_cons] at le ⊢
        omega
    · simp only [Option.some.injEq, Prod.mk.injEq] at h
      exact h.2 ▸ Nat.le_refl _
  · simp only [Option.some.injEq, Prod.mk.injEq] at h
    exact h.2 ▸ Nat.le_refl _

/-- A numeral has at least one character. -/
theorem length_of_scan {s r : List Char} {n : Numeral} (h : scan s = some (n, r)) :
    r.length < s.length := by
  have key : ∀ t : List Char, t.length ≤ s.length →
      ∀ (neg : Bool), (do
        let (whole, s) ← scanWhole t
        let (fraction, s) ← scanFraction s
        let (exponent, s) ← scanExponent s
        return (⟨neg, whole, fraction, exponent⟩, s) : Option (Numeral × List Char)) = some (n, r) →
      r.length < s.length := by
    intro t ht neg h
    simp only [Option.bind_eq_bind, Option.bind_eq_some_iff, Prod.exists] at h
    obtain ⟨w, r₁, h₁, f, r₂, h₂, e, r₃, h₃, h₄⟩ := h
    simp only [Option.pure_def, Option.some.injEq, Prod.mk.injEq] at h₄
    have := length_of_scanWhole h₁
    have := length_of_scanFraction h₂
    have := length_of_scanExponent h₃
    rw [← h₄.2]
    omega
  unfold scan at h
  split at h
  rename_i neg t heq
  refine key t ?_ neg h
  split at heq
  · simp only [Prod.mk.injEq] at heq
    simp [← heq.2]
  · simp only [Prod.mk.injEq] at heq
    simp [← heq.2]

/-- The largest significand that is kept. -/
def largestSignificand : Nat := Decimal.twoTo 64 - 1

/-- Appends digits to a significand as long as it fits, with the number of digits left over. -/
def accumulate (significand : Nat) : List Char → Nat × Nat
  | [] => (significand, 0)
  | c :: rest =>
    let next := 10 * significand + digitValue c
    if next ≤ largestSignificand then accumulate next rest
    else (significand, rest.length + 1)

/-- A significand times a power of ten in double precision, each step rounded; there is none when
the result is too large. -/
def scaled? (significand : Nat) (exponent : Int) : Option Decimal.Binary := do
  let format := Decimal.Format.double
  let power (e : Int) : Option Decimal.Binary := format.ofInt? (Decimal.tenTo e)
  let x ← format.ofInt? significand
  if significand = 0 then return x
  else if 308 < exponent then none
  else if 0 ≤ exponent then format.mul? x (← power exponent)
  else if -308 ≤ exponent then format.div? x (← power (-exponent))
  else
    let y ← format.div? x (← power 308)
    if -616 ≤ exponent then format.div? y (← power (-exponent - 308))
    else return { y with mantissa := 0, exponent := format.least }

/-- The number that a numeral stands for; there is none when it is too large for a double. -/
def value? (n : Numeral) : Option Number := do
  let (significand, leftOver) := accumulate 0 n.whole
  if n.fraction.isNone && n.exponent.isNone && leftOver == 0 then
    if !n.negative then return .int significand
    if 0 < significand ∧ significand ≤ Decimal.twoTo 63 then return .int (-significand)
  let places := n.fraction.getD []
  let (significand, ignored) := accumulate significand places
  let exponent : Int := leftOver - (places.length - ignored : Nat) + n.exponent.getD 0
  let x ← scaled? significand exponent
  return .double { x with negative := n.negative }

/-- The number that a whole text is the numeral of. -/
def read? (s : List Char) : Option Number :=
  match scan s with
  | some (n, []) => n.value?
  | _ => none

end Numeral

end Colloquy
