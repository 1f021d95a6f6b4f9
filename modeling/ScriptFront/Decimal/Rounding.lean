import ScriptFront.Decimal.Binary64

/-!
The binary number nearest to a decimal. The quotient is rounded once, from its exact value; a value
halfway between two neighbours goes to the one with the even significand, and a value beyond the
largest finite number becomes infinity.
-/

namespace ScriptFront

/-- The quotient rounded to a whole number, halves going to the even neighbour. -/
def roundHalfEven (numerator denominator : Nat) : Nat :=
  let quotient := numerator / denominator
  let twice := 2 * (numerator % denominator)
  if twice < denominator then quotient
  else if denominator < twice then quotient + 1
  else quotient + quotient % 2

namespace Binary64

/-- The exponent of two at which the significand of the quotient has fifty-three binary digits, or
the least one of the format if that is larger. -/
def scaleOfQuotient (numerator denominator : Nat) : Int :=
  let estimate : Int := (numerator.log2 : Int) - denominator.log2
  let reached :=
    denominator * powerOfTwo estimate.toNat ≤ numerator * powerOfTwo (-estimate).toNat
  max (if reached then estimate - 52 else estimate - 53) (-1074)

/-- The number nearest to a quotient of whole numbers with a denominator other than zero. -/
def ofQuotient (numerator denominator : Nat) : Binary64 :=
  if numerator = 0 then ofMagnitude 0
  else
    let scale := scaleOfQuotient numerator denominator
    let significand :=
      roundHalfEven (numerator * powerOfTwo (-scale).toNat) (denominator * powerOfTwo scale.toNat)
    ofMagnitude (min ((scale + 1074).toNat * powerOfTwo 52 + significand) infinityMagnitude)

/-- The number nearest to `digits` with its last `places` digits behind the decimal point. -/
def ofDecimal (digits places : Nat) : Binary64 :=
  ofQuotient digits (powerOfTen places)

example : (ofDecimal 15 1).bits = 0x3ff8000000000000 := by decide +kernel

example : (ofDecimal 1 1).bits = 0x3fb999999999999a := by decide +kernel

/-- A digit far behind the halfway point still decides the rounding. -/
example :
    (ofDecimal 90071992547409930000000000000000000000000 25).bits = 0x4340000000000000 ∧
      (ofDecimal 90071992547409930000000000000000000000001 25).bits = 0x4340000000000001 := by
  decide +kernel

example :
    (ofDecimal 5 324).bits = 1 ∧ (ofDecimal 24 325).bits = 0 ∧
      (ofDecimal (2 * powerOfTen 308) 0).bits = 0x7ff0000000000000 := by
  decide +kernel

end Binary64

end ScriptFront
