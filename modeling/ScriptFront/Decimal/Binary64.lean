import ScriptFront.Decimal.Powers

/-!
Numbers of the 64-bit binary format: one sign bit, eleven exponent bits and fifty-two fraction bits.
Two of them compare as the numbers they stand for, so the two zeros are the same value and a NaN is
the same value as nothing, itself included.
-/

namespace ScriptFront

/-- A binary floating-point number, given by its bits. -/
structure Binary64 where
  bits : UInt64
deriving DecidableEq, Repr, Inhabited

namespace Binary64

/-- The exponent as stored: zero for zeros and the smallest numbers, 2047 for infinities and NaN. -/
def exponentField (number : Binary64) : Nat :=
  number.bits.toNat / powerOfTwo 52 % powerOfTwo 11

/-- The stored digits after the binary point. -/
def fractionField (number : Binary64) : Nat :=
  number.bits.toNat % powerOfTwo 52

/-- Whether the sign bit is set; it is also meaningful for zeros. -/
def isNegative (number : Binary64) : Bool :=
  number.bits.toNat / powerOfTwo 63 = 1

def isNaN (number : Binary64) : Bool :=
  number.exponentField = 2047 && number.fractionField ≠ 0

def isInfinite (number : Binary64) : Bool :=
  number.exponentField = 2047 && number.fractionField = 0

def isZero (number : Binary64) : Bool :=
  number.exponentField = 0 && number.fractionField = 0

/-- Numeric equality: the zeros are equal whatever their signs, and a NaN equals nothing. -/
def sameValue (left right : Binary64) : Bool :=
  !left.isNaN && !right.isNaN && (left = right || left.isZero && right.isZero)

/-- The magnitude of a finite number is its significand times two to the power of its scale. -/
def significand (number : Binary64) : Nat :=
  if number.exponentField = 0 then number.fractionField
  else powerOfTwo 52 + number.fractionField

/-- The exponent of two that belongs to the significand. -/
def scale (number : Binary64) : Int :=
  (max number.exponentField 1 : Nat) - 1075

/-- The number with the given magnitude bits and no sign. -/
def ofMagnitude (magnitude : Nat) : Binary64 :=
  ⟨magnitude.toUInt64⟩

/-- The magnitude bits of infinity, above those of every finite number. -/
def infinityMagnitude : Nat := 2047 * powerOfTwo 52

end Binary64

end ScriptFront
