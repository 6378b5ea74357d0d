import Colloquy.Decimal.Power

/-!
# Binary fractions

A floating-point number is a natural number times a power of two.  `Binary` is that exact value, and
`Format` is what limits it: how many bits a mantissa has and how far the exponent goes.  Everything
that must be exact about a double (rounding a decimal to it, comparing it with an integer, asking
whether it is whole, choosing its digits) is computed here on integers, so that it can be reasoned
about and so that no step rounds unseen.
-/

namespace Colloquy.Decimal

/-- A finite floating-point number, `mantissa * 2 ^ exponent` with a sign.  Zero has a sign too. -/
structure Binary where
  negative : Bool
  mantissa : Nat
  exponent : Int
  deriving DecidableEq, Repr, Inhabited

namespace Binary

/-- The numerator of the value over `denominator`. -/
def numerator (x : Binary) : Int :=
  let magnitude : Int := x.mantissa * twoTo x.exponent
  if x.negative then -magnitude else magnitude

/-- The denominator of the value, a power of two. -/
def denominator (x : Binary) : Nat := twoTo (-x.exponent)

/-- The value is a whole number. -/
def isWhole (x : Binary) : Bool := x.numerator % (x.denominator : Int) == 0

end Binary

/-- The quotient rounded to the nearest natural number, a half going to the even neighbour. -/
def roundedQuotient (num den : Nat) : Nat :=
  let q := num / den
  match compare (2 * (num % den)) den with
  | .lt => q
  | .gt => q + 1
  | .eq => if q % 2 = 0 then q else q + 1

/-- What a floating-point format can hold: `precision` bits of mantissa, and exponents of the last
bit from `least` to `greatest`. -/
structure Format where
  precision : Nat
  least : Int
  greatest : Int

/-- Double precision. -/
def Format.double : Format := ⟨53, -1074, 971⟩

/-- Single precision. -/
def Format.single : Format := ⟨24, -149, 104⟩

/-- The exponent of the last bit when the fraction is written in a format without regard to
overflow. -/
def Format.lastBit (format : Format) (num den : Nat) : Int :=
  let rough : Int := (num.log2 : Int) - den.log2 - format.precision
  let fits := num * twoTo (-rough) < den * twoTo rough * twoTo format.precision
  max format.least (if fits then rough else rough + 1)

/-- The value of a format nearest to a fraction, ties going to the even mantissa.  There is none
when the nearest would lie beyond the largest value of the format. -/
def Format.round? (format : Format) (negative : Bool) (num den : Nat) : Option Binary :=
  if num = 0 then some ⟨negative, 0, format.least⟩
  else
    let e := format.lastBit num den
    let m := roundedQuotient (num * twoTo (-e)) (den * twoTo e)
    let x : Binary :=
      if m < twoTo format.precision then ⟨negative, m, e⟩ else ⟨negative, m / 2, e + 1⟩
    if x.exponent ≤ format.greatest then some x else none

/-- A binary fraction rounded to a format. -/
def Binary.roundTo? (x : Binary) (format : Format) : Option Binary :=
  format.round? x.negative x.numerator.natAbs x.denominator

/-- An integer rounded to a format. -/
def Format.ofInt? (format : Format) (n : Int) : Option Binary :=
  format.round? (n < 0) n.natAbs 1

/-- The product in a format. -/
def Format.mul? (format : Format) (x y : Binary) : Option Binary :=
  format.round? (x.negative != y.negative) (x.numerator.natAbs * y.numerator.natAbs)
    (x.denominator * y.denominator)

/-- The quotient in a format; the divisor is not zero. -/
def Format.div? (format : Format) (x y : Binary) : Option Binary :=
  format.round? (x.negative != y.negative) (x.numerator.natAbs * y.denominator)
    (x.denominator * y.numerator.natAbs)

end Colloquy.Decimal
