import Colloquy.Decimal.Binary

/-!
# The fewest digits that read back

A double stands for every real number that rounds to it, an interval around its exact value.  The
decimal written for it is the one with the fewest digits inside that interval, and among those the
nearest.  The search is exact: for one, two, … seventeen digits it looks at the two neighbours of
the value on the grid of that many digits, and the first grid with a neighbour in the interval wins.
-/

namespace Colloquy.Decimal

/-- A positive decimal, `digits * 10 ^ exponent`. -/
structure Scaled where
  digits : Nat
  exponent : Int
  deriving DecidableEq, Repr

/-- Which of two equally near decimals of the same length is taken. -/
inductive Tie where
  | toEven
  | upward
  deriving DecidableEq, Repr

/-- How many decimal digits a number has; zero has one. -/
def digitCount (n : Nat) : Nat := (Nat.toDigits 10 n).length

/-- Compares `a * 10 ^ i` with `b * 2 ^ j`. -/
def compareScaled (a : Nat) (i : Int) (b : Nat) (j : Int) : Ordering :=
  compare (a * tenTo i * twoTo (-j)) (b * twoTo j * tenTo (-i))

/-- The gap to the next smaller double is half the gap to the next larger one, as it is at the
powers of two. -/
def Binary.narrowBelow (x : Binary) : Bool :=
  x.mantissa == twoTo (Format.double.precision - 1) && Format.double.least < x.exponent

/-- The decimal lies in the interval of reals that round to the double: from halfway to the
neighbour below to halfway to the neighbour above, with the ends exactly when the mantissa is
even. -/
def Binary.holds (x : Binary) (d : Scaled) : Bool :=
  let below := 4 * x.mantissa - (if x.narrowBelow then 1 else 2)
  let above := 4 * x.mantissa + 2
  let closed := x.mantissa % 2 == 0
  let low := compareScaled d.digits d.exponent below (x.exponent - 2)
  let high := compareScaled d.digits d.exponent above (x.exponent - 2)
  (low == .gt || (closed && low == .eq)) && (high == .lt || (closed && high == .eq))

/-- The least `k` for which a positive fraction is below `10 ^ k`. -/
def magnitude (num den : Nat) : Int :=
  if den ≤ num then digitCount (num / den)
  else
    let t := digitCount (den / num)
    if tenTo (t - 1) * num == den then 2 - t else 1 - t

/-- The nearer of the neighbours of the double on the grid `10 ^ exponent` that lie in its interval,
if any does. -/
def Binary.onGrid? (x : Binary) (tie : Tie) (exponent : Int) : Option Scaled :=
  let num := x.mantissa * twoTo x.exponent * tenTo (-exponent)
  let den := twoTo (-x.exponent) * tenTo exponent
  let lower : Scaled := ⟨num / den, exponent⟩
  let upper : Scaled := ⟨num / den + 1, exponent⟩
  match x.holds lower, x.holds upper with
  | true, true =>
    match compare (2 * num) ((2 * lower.digits + 1) * den) with
    | .lt => some lower
    | .gt => some upper
    | .eq => some (if tie == .toEven && lower.digits % 2 == 0 then lower else upper)
  | true, false => some lower
  | false, true => some upper
  | false, false => none

/-- The same decimal without trailing zeros in its digits. -/
def Scaled.stripZeros (d : Scaled) : Scaled :=
  if d.digits ≠ 0 ∧ d.digits % 10 = 0 then stripZeros ⟨d.digits / 10, d.exponent + 1⟩ else d
termination_by d.digits
decreasing_by omega

/-- The fewest digits that read back to a positive double.  Seventeen always suffice; the exact
value stands behind the search so that the function needs no proof of that. -/
def Binary.shortest (x : Binary) (tie : Tie) : Scaled :=
  let k := magnitude (x.mantissa * twoTo x.exponent) (twoTo (-x.exponent))
  let exact : Scaled :=
    if 0 ≤ x.exponent then ⟨x.mantissa * twoTo x.exponent, 0⟩
    else ⟨x.mantissa * (tenTo (-x.exponent) / twoTo (-x.exponent)), x.exponent⟩
  (((List.range 17).findSome? fun n : Nat => x.onGrid? tie (k - (n + 1))).getD exact).stripZeros

/-- The double nearest to `digits * 10 ^ exponent`; there is none when that would be too large.  The
bounds keep the powers small and lie beyond every double. -/
def nearestDouble? (negative : Bool) (digits : Nat) (exponent : Int) : Option Binary :=
  let magnitude := exponent + digitCount digits
  if digits = 0 ∨ magnitude < -400 then some ⟨negative, 0, Format.double.least⟩
  else if 400 < magnitude then none
  else Format.double.round? negative (digits * tenTo exponent) (tenTo (-exponent))

/-! ## Layout -/

/-- The decisions of a format about how digits are laid out.  A decimal whose leading digit stands
for `10 ^ e` is written positionally when `plainFrom ≤ e < plainBelow`, where a missing bound is no
bound, and otherwise with an exponent that always carries its sign. -/
structure Layout where
  plainFrom : Option Int
  plainBelow : Option Int
  tie : Tie

/-- Digits with a point after the place of `10 ^ 0`; there is a digit on either side of it. -/
def positional (digits : List Char) (leading : Int) : List Char :=
  if leading < 0 then
    ['0', '.'] ++ List.replicate (-leading - 1).toNat '0' ++ digits
  else
    let whole := leading.toNat + 1
    if digits.length ≤ whole then
      digits ++ List.replicate (whole - digits.length) '0' ++ ['.', '0']
    else digits.take whole ++ '.' :: digits.drop whole

/-- Digits with a point after the first of several, and an exponent. -/
def scientific (digits : List Char) (leading : Int) : List Char :=
  let fraction := match digits.drop 1 with
    | [] => []
    | more => '.' :: more
  digits.take 1 ++ fraction ++ 'e' :: (if leading < 0 then '-' else '+') ::
    Nat.toDigits 10 leading.natAbs

/-- The text of a finite double in a layout. -/
def Binary.text (x : Binary) (layout : Layout) : List Char :=
  let unsigned :=
    if x.mantissa == 0 then ['0', '.', '0']
    else
      let d := x.shortest layout.tie
      let digits := Nat.toDigits 10 d.digits
      let leading := d.exponent + digits.length - 1
      if layout.plainFrom.all (· ≤ leading) && layout.plainBelow.all (leading < ·) then
        positional digits leading
      else scientific digits leading
  if x.negative then '-' :: unsigned else unsigned

end Colloquy.Decimal
