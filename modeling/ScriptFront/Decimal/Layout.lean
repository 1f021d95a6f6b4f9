import ScriptFront.Decimal.Shortest

/-!
The text of a binary number: the digits of its shortest decimal, laid out with a decimal point or
with an exponent.
-/

namespace ScriptFront

/-- How the digits of a number are set out. -/
structure DecimalLayout where
  /-- A whole number ends in `.0`. -/
  pointForWhole : Bool
  /-- The exponents of the leading digit from the first up to, not including, the second are written
  out with zeros, all others as an exponent; without bounds every number is written out. -/
  writtenOut : Option (Int × Int)

namespace DecimalLayout

/-- Every digit written out, whole numbers without a point. -/
def plain : DecimalLayout := ⟨false, none⟩

/-- Whole numbers with a point, and an exponent for magnitudes below `0.0001` or from ten to the
sixteenth on. -/
def scientific : DecimalLayout := ⟨true, some (-4, 16)⟩

/-- The digits with the point after the first `leading` of them, zeros filling the gap on either
side. -/
def position (layout : DecimalLayout) (digits : List Char) (leading : Int) : List Char :=
  if leading ≤ 0 then
    ['0', '.'] ++ List.replicate (-leading).toNat '0' ++ digits
  else if leading.toNat < digits.length then
    digits.take leading.toNat ++ '.' :: digits.drop leading.toNat
  else
    digits ++ List.replicate (leading.toNat - digits.length) '0' ++
      if layout.pointForWhole then ['.', '0'] else []

/-- One digit before the point, the others behind it, and the exponent of ten. -/
def withExponent (digits : List Char) (leading : Int) : List Char :=
  let mantissa := match digits with
    | first :: second :: others => first :: '.' :: second :: others
    | _ => digits
  mantissa ++ 'e' :: (toString (leading - 1)).toList

/-- A positive decimal. -/
def renderDecimal (layout : DecimalLayout) (decimal : Decimal) : List Char :=
  let digits := Nat.toDigits 10 decimal.digits
  let leading : Int := digits.length + decimal.exponent
  match layout.writtenOut with
  | none => layout.position digits leading
  | some (least, bound) =>
    if least < leading && leading ≤ bound then layout.position digits leading
    else withExponent digits leading

/-- The magnitude of a number that is not a NaN. -/
def renderMagnitude (layout : DecimalLayout) (number : Binary64) : List Char :=
  if number.isInfinite then ['i', 'n', 'f']
  else if number.isZero then layout.position ['0'] 1
  else layout.renderDecimal number.shortest

/-- The text of a number; a NaN shows no sign, every other number shows a minus if it has one. -/
def render (layout : DecimalLayout) (number : Binary64) : String :=
  if number.isNaN then "NaN"
  else String.ofList
    ((if number.isNegative then ['-'] else []) ++ layout.renderMagnitude number)

end DecimalLayout

example : DecimalLayout.plain.render ⟨0x3ff0000000000000⟩ = "1" ∧
    DecimalLayout.scientific.render ⟨0x3ff0000000000000⟩ = "1.0" := by decide +kernel

example : DecimalLayout.plain.render ⟨0x8000000000000000⟩ = "-0" ∧
    DecimalLayout.scientific.render ⟨0x8000000000000000⟩ = "-0.0" := by decide +kernel

example : DecimalLayout.plain.render ⟨0x3ee4f8b588e368f1⟩ = "0.00001" ∧
    DecimalLayout.scientific.render ⟨0x3ee4f8b588e368f1⟩ = "1e-5" := by decide +kernel

example : DecimalLayout.scientific.render ⟨0x3f1a36e2eb1c432d⟩ = "0.0001" ∧
    DecimalLayout.scientific.render ⟨0x4341c37937e08000⟩ = "1e16" := by decide +kernel

end ScriptFront
