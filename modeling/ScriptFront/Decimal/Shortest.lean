import ScriptFront.Decimal.Binary64

/-!
The shortest decimal that reads back as a given binary number: of the decimals with the fewest
digits that round to the number, the nearest to it, and of two that are equally near the larger.
-/

namespace ScriptFront

/-- The number `digits · 10 ^ exponent`. -/
structure Decimal where
  digits : Nat
  exponent : Int
deriving DecidableEq, Repr

/-- A value together with the reals that are rounded to it, all as numerators over one denominator.
The two ends belong to the range when it is closed. -/
structure RoundingRange where
  low : Nat
  value : Nat
  high : Nat
  denominator : Nat
  closed : Bool

namespace RoundingRange

/-- The range in units of a power of ten. -/
def inUnits (range : RoundingRange) (exponent : Int) : RoundingRange :=
  let factor := powerOfTen (-exponent).toNat
  { range with
    low := range.low * factor
    value := range.value * factor
    high := range.high * factor
    denominator := range.denominator * powerOfTen exponent.toNat }

/-- Whether a whole number is rounded to the value. -/
def holds (range : RoundingRange) (candidate : Nat) : Bool :=
  let numerator := candidate * range.denominator
  if range.closed then range.low ≤ numerator && numerator ≤ range.high
  else range.low < numerator && numerator < range.high

/-- Of the two whole numbers around the value the one that is rounded to it; if both are, the
nearer, and the larger when they are equally near. -/
def nearestHit? (range : RoundingRange) : Option Nat :=
  let below := range.value / range.denominator
  let above := below + 1
  match range.holds below, range.holds above with
  | false, false => none
  | true, false => some below
  | false, true => some above
  | true, true =>
    if range.value % range.denominator * 2 < range.denominator then some below else some above

/-- The number of decimal digits of a number, none for zero. -/
def digitCount (number : Nat) : Nat :=
  if number = 0 then 0 else (Nat.toDigits 10 number).length

/-- How many digits the value has before its decimal point; a value below one tenth has a negative
count, minus the zeros directly behind the point. -/
def leadingDigits (range : RoundingRange) : Int :=
  let whole := range.value / range.denominator
  if whole = 0 then
    1 - digitCount ((range.denominator - 1) / range.value)
  else digitCount whole

end RoundingRange

namespace Decimal

/-- Moves zeros at the end of the digits into the exponent. -/
def withoutZeros (decimal : Decimal) : Decimal :=
  if zero : decimal.digits = 0 then decimal
  else if decimal.digits % 10 = 0 then
    withoutZeros ⟨decimal.digits / 10, decimal.exponent + 1⟩
  else decimal
termination_by decimal.digits
decreasing_by omega

end Decimal

namespace Binary64

/-- The range of a finite number. Directly above a power of two the neighbour below is only half as
far away as the neighbour above. -/
def roundingRange (number : Binary64) : RoundingRange :=
  let quarter := number.scale - 2
  let unit := powerOfTwo quarter.toNat
  let narrow := number.fractionField = 0 && 1 < number.exponentField
  { low := (4 * number.significand - if narrow then 1 else 2) * unit
    value := 4 * number.significand * unit
    high := (4 * number.significand + 2) * unit
    denominator := powerOfTwo (-quarter).toNat
    closed := number.significand % 2 = 0 }

/-- The shortest decimal for the magnitude of a finite number other than zero: the first count of
digits that has a hit decides, and seventeen always have one. -/
def shortest (number : Binary64) : Decimal :=
  let range := number.roundingRange
  let leading := range.leadingDigits
  let hit? : Option Decimal := (List.range 17).findSome? fun (further : Nat) =>
    let exponent := leading - further - 1
    (range.inUnits exponent).nearestHit?.map (⟨·, exponent⟩)
  (hit?.getD ⟨range.value / range.denominator, 0⟩).withoutZeros

example : (Binary64.mk 0x3fb999999999999a).shortest = ⟨1, -1⟩ := by decide +kernel

example : (Binary64.mk 1).shortest = ⟨5, -324⟩ := by decide +kernel

example : (Binary64.mk 0x7fefffffffffffff).shortest = ⟨17976931348623157, 292⟩ := by decide +kernel

example : (Binary64.mk 0x44b52d02c7e14af6).shortest = ⟨1, 23⟩ := by decide +kernel

/-- Two decimals of sixteen digits are equally near to this number. -/
example : (Binary64.mk 0x3e60000000000000).shortest = ⟨29802322387695313, -24⟩ := by decide +kernel

end Binary64

end ScriptFront
