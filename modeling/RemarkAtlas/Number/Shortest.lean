import RemarkAtlas.Number.Double

/-!
The shortest decimal that reads back as a given double.  Decimals with fewer digits lie on a coarser
grid of powers of ten, so the grids are tried from coarse to fine, and on each only the two
neighbours of the value matter.
-/

namespace RemarkAtlas

structure Decimal where
  digits : Nat
  power : Int
  deriving DecidableEq, Repr

namespace Double

structure RoundingInterval where
  low : Nat
  value : Nat
  high : Nat
  closed : Bool

/-- The gap below a power of two is half the gap above it; the ends belong to even significands. -/
def roundingInterval (number : Double) : RoundingInterval :=
  let value := 4 * number.significand
  let below := if number.significand = hiddenBit ∧ leastExponent < number.exponent then 1 else 2
  { low := value - below, value, high := value + 2, closed := number.significand % 2 = 0 }

/-- The neighbours of the value among the multiples of `10 ^ power` that round back to it: the
nearer of two, the even one of two equally near. -/
def onGrid (number : Double) (power : Int) : Option Nat :=
  let interval := number.roundingInterval
  let quarter := number.exponent - 2
  let unit := Nat.pow 10 power.toNat * Nat.pow 2 (-quarter).toNat
  let scale := Nat.pow 2 quarter.toNat * Nat.pow 10 (-power).toNat
  let value := interval.value * scale
  let lower := value / unit
  let inside (candidate : Nat) : Bool :=
    let point := candidate * unit
    if interval.closed then interval.low * scale ≤ point ∧ point ≤ interval.high * scale
    else interval.low * scale < point ∧ point < interval.high * scale
  match inside lower, inside (lower + 1) with
  | false, false => none
  | true, false => some lower
  | false, true => some (lower + 1)
  | true, true =>
    let down := value - lower * unit
    let up := (lower + 1) * unit - value
    some (if down < up then lower else if up < down then lower + 1 else lower + lower % 2)

/-- Seventeen digits always suffice, and the first power may be one above the leading digit. -/
def gridCount : Nat := 20

def coarsestGrid (number : Double) : Int :=
  let width (value : Nat) : Int := (Nat.toDigits 10 value).length
  width number.numerator - width number.denominator + 1

/-- The coarsest decimal that rounds to the magnitude of a double other than zero. -/
def shortest (number : Double) : Option Decimal :=
  (List.range gridCount).findSome? fun (step : Nat) =>
    let power := number.coarsestGrid - step
    (number.onGrid power).map fun digits => { digits, power }

end Double

end RemarkAtlas
