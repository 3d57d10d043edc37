import CognitiveAgent.Number.Basic

/-!
Decimal text of numbers. The digits are the fewest that read back as the number; among equally
short ones the nearest is taken, and of two equally near ones the larger. They are written out
in place, never with an exponent.
-/

set_option autoImplicit false

namespace CognitiveAgent

/-- The decimal `digits * 10 ^ exponent`. -/
structure Decimal where
  digits : Nat
  exponent : Int
deriving DecidableEq, Inhabited

namespace Decimal

/-- Moves trailing zeros of the digits, at most `fuel` of them, into the exponent. -/
def trim : Nat → Decimal → Decimal
  | 0, d => d
  | fuel + 1, d =>
    if d.digits ≠ 0 ∧ d.digits % 10 = 0 then trim fuel ⟨d.digits / 10, d.exponent + 1⟩ else d

def zeros (count : Nat) : String := String.ofList (List.replicate count '0')

/-- All digits in place, with a leading zero before the point where nothing else stands there. -/
def positional (d : Decimal) : String :=
  let written := toString d.digits
  if 0 ≤ d.exponent then written ++ zeros d.exponent.toNat
  else
    let places := (-d.exponent).toNat
    let padded := zeros (places + 1 - written.length) ++ written
    let whole := padded.length - places
    (padded.take whole).toString ++ "." ++ (padded.drop whole).toString

def width (n : Nat) : Nat := (toString n).length

/-- The least `e` for which the positive quotient is below `10 ^ e`. -/
def magnitude (numerator denominator : Nat) : Int :=
  if denominator ≤ numerator then width (numerator / denominator)
  else 1 - width ((denominator + numerator - 1) / numerator - 1)

/-- Whether `candidate * 10 ^ exponent` lies between two bounds counted in quarters of a unit,
the bounds included only if `closed`. -/
def within (low high : Nat) (closed : Bool) (candidate : Nat) (exponent : Int) : Bool :=
  let value := candidate * Nat.pow 10 exponent.toNat * (4 * Number.unitsPerOne)
  let scale := Nat.pow 10 (-exponent).toNat
  if closed then low * scale ≤ value && value ≤ high * scale
  else low * scale < value && value < high * scale

/-- The nearest decimal of `count` digits that lies within the bounds, if there is one. -/
def nearest? (units low high : Nat) (closed : Bool) (top : Int) (count : Nat) : Option Decimal :=
  let exponent := top - count
  let numerator := units * Nat.pow 10 (-exponent).toNat
  let denominator := Number.unitsPerOne * Nat.pow 10 exponent.toNat
  let below := numerator / denominator
  let hasBelow := within low high closed below exponent
  let hasAbove := within low high closed (below + 1) exponent
  let upper := denominator ≤ 2 * (numerator % denominator)
  if hasAbove && (upper || !hasBelow) then some ⟨below + 1, exponent⟩
  else if hasBelow then some ⟨below, exponent⟩
  else none

/-- The shortest decimal that rounds to a positive finite number. Seventeen digits always
suffice. The gap below a power of two is half the gap above it, and the ends of the interval
round to the number itself if its significand is even. -/
def shortest (x : Number) : Decimal :=
  let units := x.units
  let gap := Nat.pow 2 x.place
  let narrow := x.significand = Nat.pow 2 52 ∧ 0 < x.place
  let low := 4 * units - (if narrow then gap else 2 * gap)
  let high := 4 * units + 2 * gap
  let closed := x.significand % 2 == 0
  let top := magnitude units Number.unitsPerOne
  let found := (List.range 17).findSome? fun i => nearest? units low high closed top (i + 1)
  trim 20 (found.getD ⟨units, -1074⟩)

end Decimal

namespace Number

/-- The number's shortest decimal written out in place, with the sign of a negative zero. -/
def positional (x : Number) : String :=
  let sign := if x.isNegative then "-" else ""
  if x.isNaN then "NaN"
  else if x.isInfinite then sign ++ "inf"
  else if x.isZero then sign ++ "0"
  else sign ++ (Decimal.shortest x).positional

def isSmallInteger (x : Number) : Bool :=
  x.isFinite && x.units % unitsPerOne == 0 && x.units < Nat.pow 2 63 * unitsPerOne

/-- Small integers are written exactly and without the sign of a zero, all other numbers by
their shortest decimal. -/
def display (x : Number) : String :=
  if x.isSmallInteger then
    let whole := x.units / unitsPerOne
    if x.isNegative && whole != 0 then "-" ++ toString whole else toString whole
  else x.positional

end Number

end CognitiveAgent
