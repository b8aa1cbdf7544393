/-!
# Decimal numerals

A numeral is a signed whole coefficient times a power of ten. Texts of numbers are read into
numerals, and the digits chosen for a binary number are one.
-/
namespace DocFind

/-- The decimal `± coefficient * 10 ^ exponent`. -/
structure Numeral where
  negative : Bool
  coefficient : Nat
  exponent : Int
deriving DecidableEq, Repr, Inhabited

namespace Numeral

/-- The value of a digit character. -/
def digitValue (c : Char) : Nat := c.toNat - '0'.toNat

/-- The whole number that a run of digits writes. -/
def ofDigits (digits : List Char) : Nat :=
  digits.foldl (fun n c => 10 * n + digitValue c) 0

/-- The leading digits of a text, and what follows them. -/
def spanDigits (cs : List Char) : List Char × List Char :=
  (cs.takeWhile Char.isDigit, cs.dropWhile Char.isDigit)

/-- The numeral of the digits `whole.fraction`, shifted by `shift` places. -/
def ofParts (negative : Bool) (whole fraction : List Char) (shift : Int) : Numeral :=
  ⟨negative, ofDigits (whole ++ fraction), shift - fraction.length⟩

/-- A sign, if one stands in front. -/
def spanSign : List Char → Bool × List Char
  | '-' :: rest => (true, rest)
  | '+' :: rest => (false, rest)
  | cs => (false, cs)

/-- The digits after a point, if one stands in front. -/
def spanFraction : List Char → List Char × List Char
  | '.' :: rest => spanDigits rest
  | cs => ([], cs)

/-- The exponent that ends a text: nothing, or a mark with at least one digit. -/
def readExponent? : List Char → Option Int
  | [] => some 0
  | c :: rest =>
    if c = 'e' ∨ c = 'E' then
      let (negative, rest) := spanSign rest
      let (digits, rest) := spanDigits rest
      if digits = [] ∨ rest ≠ [] then none
      else some (if negative then -(ofDigits digits : Int) else ofDigits digits)
    else none

/-- Reads a decimal text: a sign, digits with or without a point, an exponent. At least one digit
stands beside the point. -/
def ofText? (text : String) : Option Numeral :=
  let (negative, cs) := spanSign text.toList
  let (whole, cs) := spanDigits cs
  let (fraction, cs) := spanFraction cs
  if whole = [] ∧ fraction = [] then none
  else (readExponent? cs).map (ofParts negative whole fraction)

/-- The digits of a whole number, most significant first. -/
def digits (n : Nat) : List Char := Nat.toDigits 10 n

/-- Moves factors of ten from the coefficient to the exponent, at most `fuel` of them. -/
def stripZeros : Nat → Nat → Int → Nat × Int
  | 0, coefficient, exponent => (coefficient, exponent)
  | fuel + 1, coefficient, exponent =>
    if coefficient ≠ 0 ∧ coefficient % 10 = 0 then stripZeros fuel (coefficient / 10) (exponent + 1)
    else (coefficient, exponent)

/-- Writes a coefficient with the point `places` digits from its right end, padding with zeros. -/
def positional (coefficient : List Char) (places : Nat) : List Char :=
  let padded := List.replicate (places + 1 - coefficient.length) '0' ++ coefficient
  if places = 0 then padded
  else padded.take (padded.length - places) ++ '.' :: padded.drop (padded.length - places)

/-- Writes a coefficient as one digit, a point and the rest; a single digit stands alone. -/
def pointAfterFirst : List Char → List Char
  | [] => []
  | [d] => [d]
  | d :: ds => d :: '.' :: ds

end Numeral

end DocFind
