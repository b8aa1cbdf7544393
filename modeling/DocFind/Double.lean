import DocFind.Numeral

/-!
# Binary64 numbers

A number is its word of 64 bits: a sign, eleven bits of exponent and fifty-two bits of fraction.
Every finite number is a whole multiple of `2 ^ -1074`, so comparison, rounding to a whole number
and rounding from a fraction are exact integer arithmetic on the word.

Numbers are ordered with all not-a-numbers equal and above the rest, and the two zeros equal.
-/
namespace DocFind

/-- A binary64 number, given by its word. -/
structure Double where
  word : UInt64
deriving DecidableEq, Repr, Inhabited

namespace Double

/-- How many magnitudes share an exponent: the fractions of 52 bits. -/
def binade : Nat := 0x10000000000000

/-- The magnitude of an infinity: an exponent of all ones above an empty fraction. -/
def infiniteMagnitude : Nat := 2047 * binade

/-- The word without its sign. Magnitudes order numbers of one sign. -/
def magnitude (x : Double) : Nat := x.word.toNat % 0x8000000000000000

def isNegative (x : Double) : Bool := 0x8000000000000000 ≤ x.word.toNat

def isNaN (x : Double) : Bool := infiniteMagnitude < x.magnitude

def isFinite (x : Double) : Bool := x.magnitude < infiniteMagnitude

/-- The number with the given sign and magnitude; magnitudes past the last finite one give an
infinity. -/
def ofMagnitude (negative : Bool) (magnitude : Nat) : Double :=
  ⟨UInt64.ofNat ((if negative then 0x8000000000000000 else 0) + min magnitude infiniteMagnitude)⟩

def nan : Double := ⟨0x7FF8000000000000⟩

def infinite (negative : Bool) : Double := ofMagnitude negative infiniteMagnitude

def zero (negative : Bool) : Double := ofMagnitude negative 0

/-! ## Exact value -/

/-- How many units of the least spacing, `2 ^ -1074`, make one. -/
def unitsPerOne : Nat := Nat.pow 2 1074

/-- The whole significand: the fraction, under a leading one unless the exponent field is zero. -/
def significand (x : Double) : Nat :=
  if x.magnitude < binade then x.magnitude else binade + x.magnitude % binade

/-- The significand counts steps of `2 ^ scale` units. Exponent fields zero and one share a
scale. -/
def scale (x : Double) : Nat := x.magnitude / binade - 1

/-- The exact value of a finite number, in units. -/
def units (x : Double) : Int :=
  if x.isNegative then -((x.significand * Nat.pow 2 x.scale : Nat) : Int)
  else ((x.significand * Nat.pow 2 x.scale : Nat) : Int)

/-- The greatest whole number not above a finite number. -/
def floor (x : Double) : Int := x.units.fdiv unitsPerOne

/-- The floor as a word of 64 bits, exact whenever the floor fits one. -/
def floorWord (x : Double) : Int64 := Int64.ofInt x.floor

/-- Whether a finite number lies strictly above its floor. -/
def hasFraction (x : Double) : Bool := x.units % unitsPerOne ≠ 0

/-! ## Order -/

/-- The place of a number among those that are no NaN: its magnitude with its sign. -/
def place (x : Double) : Int := if x.isNegative then -(x.magnitude : Int) else x.magnitude

/-- Numbers by value, the two zeros equal, NaN equal to itself and above every other number. -/
def cmp (x y : Double) : Ordering :=
  match x.isNaN, y.isNaN with
  | true, true => .eq
  | true, false => .gt
  | false, true => .lt
  | false, false => compare x.place y.place

/-- `2 ^ 63`, the first number above every word of 64 bits. -/
def twoPow63 : Double := ⟨0x43E0000000000000⟩

/-- `-2 ^ 63`, the least word of 64 bits. -/
def negTwoPow63 : Double := ⟨0xC3E0000000000000⟩

/-- Exact comparison of a word of 64 bits with a number. Outside `[-2 ^ 63, 2 ^ 63)` the number
decides alone; inside, its floor fits a word, and a fraction breaks a tie with the floor. -/
def cmpInt64 (n : Int64) (x : Double) : Ordering :=
  if x.isNaN || (twoPow63.cmp x).isLE then .lt
  else if x.cmp negTwoPow63 = .lt then .gt
  else match compare n x.floorWord with
    | .eq => if x.hasFraction then .lt else .eq
    | order => order

/-! ## Rounding -/

/-- The whole number nearest to `num / den`, a half going to the even neighbour. -/
def roundHalfEven (num den : Nat) : Nat :=
  let quotient := num / den
  let rest := 2 * (num % den)
  if rest < den then quotient
  else if den < rest then quotient + 1
  else quotient + quotient % 2

/-- Whether `num / den` is at least `2 ^ power`. -/
def atLeastPowerOfTwo (num den : Nat) (power : Int) : Bool :=
  den * Nat.pow 2 power.toNat ≤ num * Nat.pow 2 (-power).toNat

/-- The number nearest to `± num / den`, halves to even, past the last finite number an infinity.
The quotient is rounded to a whole significand at the scale of its leading bit, and the sum of the
scaled exponent and the significand is the magnitude: a carry moves to the next exponent. -/
def ofRatio (negative : Bool) (num den : Nat) : Double :=
  if num = 0 then zero negative
  else
    let estimate : Int := (num.log2 : Int) - den.log2
    let leading := if atLeastPowerOfTwo num den estimate then estimate else estimate - 1
    let scale := (leading + 1022).toNat
    ofMagnitude negative
      (scale * binade + roundHalfEven (num * unitsPerOne) (den * Nat.pow 2 scale))

/-- The number nearest to a whole number. -/
def ofInt (n : Int) : Double := ofRatio (n < 0) n.natAbs 1

/-- The number nearest to a numeral. Exponents that no coefficient of this length brings back into
range are settled before any power is formed. -/
def ofNumeral (n : Numeral) : Double :=
  if n.coefficient = 0 then zero n.negative
  else if 400 < n.exponent then infinite n.negative
  else if n.exponent + n.coefficient.log2 < -1100 then zero n.negative
  else
    ofRatio n.negative (n.coefficient * Nat.pow 10 n.exponent.toNat)
      (Nat.pow 10 (-n.exponent).toNat)

end Double

end DocFind
