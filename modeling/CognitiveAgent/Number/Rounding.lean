import CognitiveAgent.Number.Basic

/-!
Reading numbers. A quotient of natural numbers goes to the nearest binary64 number, a half to
the even neighbour, and past the largest finite number to infinity. A written decimal is such a
quotient.
-/

set_option autoImplicit false

namespace CognitiveAgent

namespace Number

/-- The quotient rounded to the nearest natural number, a half to the even one. -/
def roundDiv (numerator denominator : Nat) : Nat :=
  let quotient := numerator / denominator
  let twice := 2 * (numerator % denominator)
  if twice < denominator then quotient
  else if denominator < twice then quotient + 1
  else quotient + quotient % 2

/-- The number nearest to a quotient. Counting a significand in places of `2 ^ place` units, the
word of the result is `place * 2 ^ 52` plus the significand, also when rounding carries into the
next power of two. -/
def ofRatio (negative : Bool) (numerator denominator : Nat) : Number :=
  let scaled := numerator * unitsPerOne
  let whole := scaled / denominator
  let place := if whole < Nat.pow 2 53 then 0 else whole.log2 - 52
  let magnitude := place * Nat.pow 2 52 + roundDiv scaled (denominator * Nat.pow 2 place)
  ofWord ((if negative then Nat.pow 2 63 else 0) + min magnitude (2047 * Nat.pow 2 52))

/-- The number nearest to `digits * 10 ^ exponent`. Exponents so large or so small that the
digits do not matter are answered without computing the power. -/
def ofDecimal (negative : Bool) (digits : Nat) (exponent : Int) : Number :=
  if digits = 0 then ofWord (if negative then Nat.pow 2 63 else 0)
  else if 400 < exponent then infinity negative
  else if exponent + digits.log2 < -400 then ofWord (if negative then Nat.pow 2 63 else 0)
  else if 0 ≤ exponent then ofRatio negative (digits * Nat.pow 10 exponent.toNat) 1
  else ofRatio negative digits (Nat.pow 10 (-exponent).toNat)

def ofInt (value : Int) : Number := ofRatio (value < 0) value.natAbs 1

/-- The nearest natural number up to a limit, a half going up. What is negative or not a number
goes to zero. -/
def toNatUpTo (limit : Nat) (x : Number) : Nat :=
  if x.isNaN || x.isNegative then 0
  else if x.isInfinite then limit
  else min limit ((2 * x.units + unitsPerOne) / (2 * unitsPerOne))

end Number

end CognitiveAgent
