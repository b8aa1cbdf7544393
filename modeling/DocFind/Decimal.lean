import DocFind.Double.Text

/-!
# Decimal numbers

A decimal number keeps the digits it was written with, up to thirty-four of them, and never
rounds: digits beyond them have to be zeros. It is compared with other numbers through the binary64
number nearest to its text.
-/
namespace DocFind

/-- A decimal number of up to thirty-four digits. -/
inductive Decimal where
  | finite (value : Numeral)
  | infinite (negative : Bool)
  | nan
deriving DecidableEq, Repr, Inhabited

namespace Decimal

/-- The digits of a finite decimal: positional while no zeros have to be added on the right and at
most five stand between the point and the first digit, scientific otherwise. -/
def finiteDigits (coefficient : Nat) (exponent : Int) : List Char :=
  let digits := Numeral.digits coefficient
  let leading := exponent + digits.length - 1
  if exponent ≤ 0 ∧ -6 ≤ leading then Numeral.positional digits (-exponent).toNat
  else
    Numeral.pointAfterFirst digits ++ 'E' :: (if leading < 0 then '-' else '+') ::
      Numeral.digits leading.natAbs

def toText : Decimal → String
  | .nan => "NaN"
  | .infinite negative => if negative then "-Infinity" else "Infinity"
  | .finite n =>
    let body := finiteDigits n.coefficient n.exponent
    String.ofList (if n.negative then '-' :: body else body)

/-! ## Reading -/

/-- The most digits of a coefficient. -/
def maxDigits : Nat := 34

def minExponent : Int := -6176

def maxExponent : Int := 6111

/-- Takes digits from the right end of a coefficient, which have to be zeros. -/
def dropZeros? (count : Nat) (n : Numeral) : Option Numeral :=
  if n.coefficient % Nat.pow 10 count = 0 then
    some { n with coefficient := n.coefficient / Nat.pow 10 count, exponent := n.exponent + count }
  else none

/-- Lowers an exponent to the greatest one by zeros at the right end of the coefficient, for which
there has to be room. -/
def padZeros? (n : Numeral) : Option Numeral :=
  let coefficient := n.coefficient * Nat.pow 10 (n.exponent - maxExponent).toNat
  if coefficient < Nat.pow 10 maxDigits then
    some { n with coefficient, exponent := min n.exponent maxExponent }
  else none

/-- The decimal equal to a numeral, with its exponent unless the digits or their place call for
another one. Exponents far out of range are not looked at. -/
def ofNumeral? (n : Numeral) : Option Decimal := do
  if n.exponent < -0x8000 ∨ 0x8000 ≤ n.exponent then none
  else
    let n ← dropZeros? ((Numeral.digits n.coefficient).length - maxDigits) n
    let n ← dropZeros? (minExponent - n.exponent).toNat n
    let n ← padZeros? n
    some (.finite n)

/-- Reads a decimal text, or the name of a NaN or an infinity. -/
def ofText? (text : String) : Option Decimal :=
  match text with
  | "NaN" => some .nan
  | "Infinity" => some (.infinite false)
  | "-Infinity" => some (.infinite true)
  | _ => (Numeral.ofText? text).bind ofNumeral?

/-- The binary64 number nearest to a decimal. -/
def toDouble : Decimal → Double
  | .nan => Double.nan
  | .infinite negative => Double.infinite negative
  | .finite n => Double.ofNumeral n

end Decimal

end DocFind
