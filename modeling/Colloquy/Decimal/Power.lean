/-!
# Powers of two and ten

The scale of a binary fraction and of a decimal, with an integer for the exponent.  A negative
exponent belongs to the other side of a fraction and counts as zero here, so that `twoTo e` over
`twoTo (-e)` is the power for an exponent of either sign.
-/

namespace Colloquy.Decimal

/-- Two to an exponent, or one when the exponent is negative. -/
def twoTo (e : Int) : Nat := Nat.pow 2 e.toNat

/-- Ten to an exponent, or one when the exponent is negative. -/
def tenTo (e : Int) : Nat := Nat.pow 10 e.toNat

theorem twoTo_pos (e : Int) : 0 < twoTo e := Nat.pow_pos (by decide)

theorem tenTo_pos (e : Int) : 0 < tenTo e := Nat.pow_pos (by decide)

end Colloquy.Decimal
