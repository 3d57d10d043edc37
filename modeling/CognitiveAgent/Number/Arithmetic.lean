import CognitiveAgent.Number.Rounding

/-!
Products and quotients of finite numbers, each rounded once, and the scaling of a natural number
by a power of ten that is built from them.
-/

set_option autoImplicit false

namespace CognitiveAgent

namespace Number

def times (x y : Number) : Number :=
  ofRatio (x.isNegative != y.isNegative) (x.units * y.units) (unitsPerOne * unitsPerOne)

def dividedBy (x y : Number) : Number :=
  ofRatio (x.isNegative != y.isNegative) x.units y.units

def negated (x : Number) : Number :=
  ofWord (if x.isNegative then x.word - Nat.pow 2 63 else x.word + Nat.pow 2 63)

def largestPower : Nat := 308

def powerOfTen (exponent : Nat) : Number := ofDecimal false 1 exponent

/-- The digits scaled by a power of ten. The digits, the power and the result are rounded one
after the other, so that the result may differ from the nearest number in its last places. What is
scaled down by more than the largest power is divided twice. -/
def scaled (digits : Nat) (exponent : Int) : Number :=
  let x := ofRatio false digits 1
  let down := (-exponent).toNat
  if digits = 0 then zero
  else if largestPower < exponent then infinity false
  else if 0 ≤ exponent then x.times (powerOfTen exponent.toNat)
  else if down ≤ largestPower then x.dividedBy (powerOfTen down)
  else
    (x.dividedBy (powerOfTen largestPower)).dividedBy
      (powerOfTen (min (down - largestPower) largestPower))

end Number

end CognitiveAgent
