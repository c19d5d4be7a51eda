import GrammarDesk.Number.Decimal

/-! Numbers of double precision as exact fractions. A decimal number is read as
the nearest of them, and each of them is written with the fewest digits that
are read as it. -/
namespace GrammarDesk

/-- The fraction `n * base ^ exponent`, as numerator and denominator. -/
def scaled (n base : Nat) (exponent : Int) : Nat × Nat :=
  if 0 ≤ exponent then (n * Nat.pow base exponent.toNat, 1)
  else (n, Nat.pow base exponent.natAbs)

/-- The whole number nearest to a fraction, a half going to the even one. -/
def roundHalfEven (numerator denominator : Nat) : Nat :=
  let below := numerator / denominator
  let twice := 2 * (numerator % denominator)
  if twice < denominator ∨ twice = denominator ∧ below % 2 = 0 then below else below + 1

def roundHalfUp (numerator denominator : Nat) : Nat :=
  (2 * numerator + denominator) / (2 * denominator)

/-- The finite number `mantissa * 2 ^ exponent`. The mantissa has 53 bits, and
fewer only at the least exponent. -/
structure Double where
  negative : Bool
  mantissa : Nat
  exponent : Int
deriving DecidableEq, Repr, Inhabited

namespace Double

def leastExponent : Int := -1074

def greatestExponent : Int := 971

/-- Mantissas stay below twice this. -/
def leadingBit : Nat := 4503599627370496

/-- The nearest number to a positive fraction, as mantissa and exponent, of
which the latter has no upper bound. -/
def nearest (numerator denominator : Nat) : Nat × Int :=
  let cut (exponent : Int) : Nat × Nat :=
    let (up, down) := scaled 1 2 exponent
    (numerator * down, denominator * up)
  let guess := max leastExponent ((numerator.log2 : Int) - denominator.log2 - 52)
  let (high, low) := cut guess
  let exponent := if high / low < leadingBit then max leastExponent (guess - 1) else guess
  let (high, low) := cut exponent
  let mantissa := roundHalfEven high low
  if mantissa = 2 * leadingBit then (leadingBit, exponent + 1) else (mantissa, exponent)

/-- The nearest number to a decimal one, unless that is beyond all. -/
def ofDecimal? (number : Decimal) : Option Double :=
  if number.digits = 0 ∨ number.magnitude < -330 then
    some ⟨number.negative, 0, leastExponent⟩
  else if 310 < number.magnitude then none
  else
    let (numerator, denominator) := scaled number.digits 10 number.exponent
    let (mantissa, exponent) := nearest numerator denominator
    if greatestExponent < exponent then none else some ⟨number.negative, mantissa, exponent⟩

def rounded (number : Double) : Nat :=
  let (numerator, denominator) := scaled number.mantissa 2 number.exponent
  roundHalfUp numerator denominator

def magnitude (number : Double) : Int :=
  let (numerator, denominator) := scaled number.mantissa 2 number.exponent
  (Nat.toDigits 10 (numerator * Nat.pow 10 350 / denominator)).length - (350 : Int)

/-- The decimal number with `places` digits that is read as this one, if any is:
one of the two neighbours on that grid, the nearer if both are. Half way between
them, `tie` tells from the lower neighbour whether the upper one is taken.

In quarters of a unit of the mantissa, what is read as this number reaches two
up and two down, but one down from a power of two; the ends belong to even
mantissas. -/
def withPlaces? (tie : Nat → Bool) (number : Double) (places : Nat) : Option Decimal :=
  let power := number.magnitude - places
  let (quarter, quarters) := scaled 1 2 (number.exponent - 2)
  let (step, steps) := scaled 1 10 power
  let unit := quarter * steps
  let grid := step * quarters
  let value := 4 * number.mantissa * unit
  let down :=
    if number.mantissa = leadingBit ∧ leastExponent < number.exponent then 1 else 2
  let low := (4 * number.mantissa - down) * unit
  let high := (4 * number.mantissa + 2) * unit
  let isRead (digits : Nat) : Bool :=
    if number.mantissa % 2 = 0 then low ≤ digits * grid && digits * grid ≤ high
    else low < digits * grid && digits * grid < high
  let below := value / grid
  let twice := 2 * (value % grid)
  let found (digits : Nat) : Decimal :=
    if digits % 10 = 0 then ⟨number.negative, digits / 10, power + 1⟩
    else ⟨number.negative, digits, power⟩
  if isRead below ∧ isRead (below + 1) then
    some (found (if grid < twice ∨ twice = grid ∧ tie below then below + 1 else below))
  else if isRead below then some (found below)
  else if isRead (below + 1) then some (found (below + 1))
  else none

/-- The fewest digits that are read as this number; 17 are always enough. -/
def shortest (tie : Nat → Bool) (number : Double) : Decimal :=
  if number.mantissa = 0 then ⟨number.negative, 0, 0⟩
  else ((List.range' 1 17).findSome? (number.withPlaces? tie)).getD ⟨number.negative, 0, 0⟩

end Double
end GrammarDesk
