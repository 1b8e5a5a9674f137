/-!
Finite double-precision numbers as exact dyadic values: a sign, a significand below `2 ^ 53` and a
power of two.  Every rounding goes through one function, which takes a ratio of natural numbers to
the nearest double, a half to the even significand.
-/

namespace RemarkAtlas

/-- The number `± significand * 2 ^ exponent`; zero has a sign of its own. -/
structure Double where
  negative : Bool
  significand : Nat
  exponent : Int
  deriving DecidableEq, Repr, Inhabited

namespace Double

def leastExponent : Int := -1074

def greatestExponent : Int := 971

def hiddenBit : Nat := Nat.pow 2 52

def zero (negative : Bool) : Double := ⟨negative, 0, leastExponent⟩

def isZero (number : Double) : Bool := number.significand == 0

def numerator (number : Double) : Nat := number.significand * Nat.pow 2 number.exponent.toNat

def denominator (number : Double) : Nat := Nat.pow 2 (-number.exponent).toNat

def floor (number : Double) : Nat := number.numerator / number.denominator

def roundQuotient (dividend divisor : Nat) : Nat :=
  let quotient := dividend / divisor
  let remainder := dividend % divisor
  if 2 * remainder < divisor then quotient
  else if divisor < 2 * remainder then quotient + 1
  else quotient + quotient % 2

def exponentFor (dividend divisor : Nat) : Int :=
  let width : Int := (dividend.log2 : Int) - divisor.log2
  let wide := divisor <<< dividend.log2 ≤ dividend <<< divisor.log2
  max leastExponent (if wide then width - 52 else width - 53)

def ofRatio (negative : Bool) (dividend divisor : Nat) : Option Double :=
  if dividend = 0 then some (zero negative)
  else
    let exponent := exponentFor dividend divisor
    let rounded := roundQuotient (dividend * Nat.pow 2 (-exponent).toNat)
      (divisor * Nat.pow 2 exponent.toNat)
    let result : Double :=
      if rounded = 2 * hiddenBit then ⟨negative, hiddenBit, exponent + 1⟩
      else ⟨negative, rounded, exponent⟩
    if greatestExponent < result.exponent then none else some result

def ofNat (value : Nat) : Option Double := ofRatio false value 1

def times (left right : Double) : Option Double :=
  ofRatio (left.negative != right.negative) (left.numerator * right.numerator)
    (left.denominator * right.denominator)

def dividedBy (left right : Double) : Option Double :=
  if right.isZero then none
  else ofRatio (left.negative != right.negative) (left.numerator * right.denominator)
    (left.denominator * right.numerator)

def powerOfTen (power : Nat) : Option Double := ofNat (Nat.pow 10 power)

def greatestPowerOfTen : Nat := 308

/-- Repeated division by the largest power of ten that is a double; each division rounds. -/
def dividedByGreatestPower (number : Double) : Nat → Option Double
  | 0 => some number
  | steps + 1 =>
    if number.isZero then some number
    else do
      let reduced ← number.dividedBy (← powerOfTen greatestPowerOfTen)
      reduced.dividedByGreatestPower steps

def dividedByPowerOfTen (number : Double) (power : Nat) : Option Double := do
  let steps := (power - 1) / greatestPowerOfTen
  let reduced ← number.dividedByGreatestPower steps
  reduced.dividedBy (← powerOfTen (power - steps * greatestPowerOfTen))

def timesPowerOfTen (number : Double) (power : Nat) : Option Double :=
  if power ≤ greatestPowerOfTen then do
    number.times (← powerOfTen power)
  else if number.isZero then some number
  else none

/-- A decimal written as `significand` and a power of ten: the significand is rounded first, and the
scaled value again. -/
def ofDecimal (negative : Bool) (significand : Nat) (power : Int) : Option Double := do
  let rounded ← ofRatio negative significand 1
  if 0 ≤ power then rounded.timesPowerOfTen power.toNat
  else rounded.dividedByPowerOfTen (-power).toNat

end Double

end RemarkAtlas
