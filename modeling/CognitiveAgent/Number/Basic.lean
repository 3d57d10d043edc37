/-!
Binary64 numbers. A number is its word of 64 bits, so its sign, its exponent field and its
fraction are plain arithmetic on natural numbers, and equality is a comparison of words except
at the two zeros and the NaNs.
-/

set_option autoImplicit false

namespace CognitiveAgent

/-- A binary64 number, given by its word. -/
structure Number where
  bits : UInt64
deriving DecidableEq, Inhabited

namespace Number

def word (x : Number) : Nat := x.bits.toNat

def ofWord (w : Nat) : Number := ⟨UInt64.ofNat w⟩

/-- The sign bit, set also for the negative zero. -/
def isNegative (x : Number) : Bool := Nat.pow 2 63 ≤ x.word

def exponentField (x : Number) : Nat := x.word / Nat.pow 2 52 % Nat.pow 2 11

def fraction (x : Number) : Nat := x.word % Nat.pow 2 52

def isNaN (x : Number) : Bool := x.exponentField == 2047 && x.fraction != 0

def isInfinite (x : Number) : Bool := x.exponentField == 2047 && x.fraction == 0

def isFinite (x : Number) : Bool := x.exponentField != 2047

def isZero (x : Number) : Bool := x.word % Nat.pow 2 63 == 0

/-- The position of a number's last place, counted from the least one: a finite number has the
magnitude `significand * 2 ^ place / 2 ^ 1074`. -/
def place (x : Number) : Nat := x.exponentField - 1

/-- Subnormal numbers have no leading one. -/
def significand (x : Number) : Nat :=
  if x.exponentField = 0 then x.fraction else Nat.pow 2 52 + x.fraction

/-- The magnitude of a finite number in units of `2 ^ (-1074)`. -/
def units (x : Number) : Nat := x.significand * Nat.pow 2 x.place

def unitsPerOne : Nat := Nat.pow 2 1074

/-- Numerical equality: the two zeros are equal, and a NaN equals nothing. -/
def equal (x y : Number) : Bool :=
  !x.isNaN && !y.isNaN && (x.bits == y.bits || (x.isZero && y.isZero))

instance : BEq Number := ⟨equal⟩

def zero : Number := ofWord 0

def one : Number := ofWord (1023 * Nat.pow 2 52)

def nan : Number := ofWord (2047 * Nat.pow 2 52 + Nat.pow 2 51)

def infinity (negative : Bool) : Number :=
  ofWord ((if negative then Nat.pow 2 63 else 0) + 2047 * Nat.pow 2 52)

end Number

end CognitiveAgent
