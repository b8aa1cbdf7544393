import DocFind.Double

/-!
# Scaling by powers of ten

A whole number times a power of ten in binary64 arithmetic: the number and the power are rounded
first, their product or quotient after that. If the first two are exact, as they are up to fifteen
digits and the twenty-second power, the result is the nearest number; otherwise it may lie next to
it. Powers below the range of the numbers are divided by in two steps.
-/
namespace DocFind.Double

/-- The product of two positive finite numbers, rounded to nearest. -/
def product (x y : Double) : Double :=
  ofRatio false (x.units.natAbs * y.units.natAbs) (unitsPerOne * unitsPerOne)

/-- The quotient of two positive finite numbers, rounded to nearest. -/
def quotient (x y : Double) : Double := ofRatio false x.units.natAbs y.units.natAbs

/-- The greatest power of ten that is in range. -/
def maxPower : Nat := 308

/-- The number nearest to a power of ten. -/
def powerOfTen (n : Nat) : Double := ofRatio false (Nat.pow 10 n) 1

/-- A whole number of at most 64 bits times a power of ten. Nothing is left of it after a division
by the greatest power and another one. -/
def ofScaled (coefficient : Nat) (exponent : Int) : Double :=
  let x := ofInt coefficient
  if coefficient = 0 ∨ exponent < -(2 * maxPower : Int) then zero false
  else if maxPower < exponent then infinite false
  else if 0 ≤ exponent then x.product (powerOfTen exponent.natAbs)
  else if -(maxPower : Int) ≤ exponent then x.quotient (powerOfTen exponent.natAbs)
  else (x.quotient (powerOfTen maxPower)).quotient (powerOfTen (exponent.natAbs - maxPower))

end DocFind.Double
