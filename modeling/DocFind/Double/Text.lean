import DocFind.Double.Shortest

/-!
# Texts of binary64 numbers

Two formats write the fewest digits that identify a number. Messages use positional notation
throughout. Records use positional notation with a digit after the point for leading digits from
the fifth decimal place up to the sixteenth whole place, and an exponent with a sign beyond.
-/
namespace DocFind.Double

/-- Positional notation of a coefficient and an exponent; `.0` is added to whole numbers when
`pointZero` is set. -/
def positionalDigits (pointZero : Bool) (coefficient : Nat) (exponent : Int) : List Char :=
  let digits := Numeral.digits coefficient
  if 0 ≤ exponent then
    let whole := if coefficient = 0 then digits else digits ++ List.replicate exponent.toNat '0'
    whole ++ if pointZero then ['.', '0'] else []
  else Numeral.positional digits (-exponent).toNat

/-- A power of ten after its mark: a sign and the digits. -/
def exponentDigits (exponent : Int) : List Char :=
  'e' :: (if exponent < 0 then '-' else '+') :: Numeral.digits exponent.natAbs

/-- The text of a number in messages: no exponent, no point after a whole number. -/
def toText (x : Double) : String :=
  if x.isNaN then "NaN"
  else
    let body :=
      if x.isFinite then
        let n := x.shortest .up
        positionalDigits false n.coefficient n.exponent
      else "inf".toList
    String.ofList (if x.isNegative then '-' :: body else body)

/-- The text of a finite number in records, never that of a whole number. -/
def toRecordText (x : Double) : String :=
  let n := x.shortest .even
  let digits := Numeral.digits n.coefficient
  let leading := (digits.length : Int) + n.exponent - 1
  let body :=
    if -5 ≤ leading ∧ leading < 16 then positionalDigits true n.coefficient n.exponent
    else Numeral.pointAfterFirst digits ++ exponentDigits leading
  String.ofList (if x.isNegative then '-' :: body else body)

/-- The names of the values without digits, in lower case. -/
def ofName? : List Char → Option Double
  | ['n', 'a', 'n'] => some nan
  | ['i', 'n', 'f'] => some (infinite false)
  | ['i', 'n', 'f', 'i', 'n', 'i', 't', 'y'] => some (infinite false)
  | _ => none

/-- The number with the other sign. -/
def negate (x : Double) : Double :=
  if x.isNaN then x else ofMagnitude (!x.isNegative) x.magnitude

/-- Reads a number: a decimal text, correctly rounded, or the name of a NaN or an infinity in any
case. -/
def ofText? (text : String) : Option Double :=
  let (negative, name) := Numeral.spanSign text.toList
  match ofName? (name.map Char.toLower) with
  | some x => some (if negative then x.negate else x)
  | none => (Numeral.ofText? text).map ofNumeral

end DocFind.Double
