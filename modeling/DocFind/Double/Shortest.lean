import DocFind.Double

/-!
# The fewest digits that identify a binary64 number

The decimals that round to a number form an interval around it. The grids of one, two, three and
more significant digits are tried in turn; the first grid with a point in the interval supplies
the digits, and of two points the nearer one. If any point of a grid lies in the interval, one of
the two grid points beside the number does, so only those are tested.
-/
namespace DocFind.Double

/-- Which of two decimals is written when the number is exactly halfway between them. -/
inductive Tie where
  | up
  | even
deriving DecidableEq, Repr

/-- Compares `a * 10 ^ i` with `n * 2 ^ j`. -/
def cmpScaled (a : Nat) (i : Int) (n : Nat) (j : Int) : Ordering :=
  compare (a * Nat.pow 10 i.toNat * Nat.pow 2 (-j).toNat)
    (n * Nat.pow 2 j.toNat * Nat.pow 10 (-i).toNat)

/-- The power of two that the significand counts. -/
def binaryExponent (x : Double) : Int := (x.scale : Int) - 1074

/-- At a power of two the gap below is half the gap above, unless both sides share the least
scale. -/
def hasNarrowGap (x : Double) : Bool :=
  x.magnitude % binade = 0 ∧ 2 * binade ≤ x.magnitude

/-- Whether `coefficient * 10 ^ exponent` rounds to the absolute value of `x`. The ends of the
interval round to it exactly when its significand is even. -/
def readsBack (x : Double) (coefficient : Nat) (exponent : Int) : Bool :=
  let m := x.significand
  let lowest := if x.hasNarrowGap then 4 * m - 1 else 4 * m - 2
  let lower := cmpScaled coefficient exponent lowest (x.binaryExponent - 2)
  let upper := cmpScaled coefficient exponent (4 * m + 2) (x.binaryExponent - 2)
  let closed := m % 2 == 0
  (lower == .gt || (closed && lower == .eq)) && (upper == .lt || (closed && upper == .eq))

/-- The greatest multiple of `10 ^ exponent` not above the absolute value of `x`, as a count. -/
def gridFloor (x : Double) (exponent : Int) : Nat :=
  (x.significand * Nat.pow 2 x.binaryExponent.toNat * Nat.pow 10 (-exponent).toNat) /
    (Nat.pow 10 exponent.toNat * Nat.pow 2 (-x.binaryExponent).toNat)

/-- The least `k` with the absolute value of `x` below `10 ^ k`. The binary logarithm gives it
within one. -/
def decimalScale (x : Double) : Int :=
  let estimate := ((x.significand.log2 : Int) + x.binaryExponent) * 30103 / 100000
  let below (k : Int) := cmpScaled 1 k x.significand x.binaryExponent == .gt
  if below (estimate - 1) then estimate - 1
  else if below estimate then estimate
  else if below (estimate + 1) then estimate + 1
  else estimate + 2

/-- The grid point beside `x` that reads back: the nearer one if both do. -/
def gridHit (tie : Tie) (x : Double) (exponent : Int) : Option Nat :=
  let low := x.gridFloor exponent
  match x.readsBack low exponent, x.readsBack (low + 1) exponent with
  | false, false => none
  | true, false => some low
  | false, true => some (low + 1)
  | true, true =>
    match cmpScaled (2 * low + 1) exponent (2 * x.significand) x.binaryExponent with
    | .lt => some (low + 1)
    | .gt => some low
    | .eq => some (match tie with
      | .up => low + 1
      | .even => low + low % 2)

/-- The exact value of `x` as a decimal. -/
def exactNumeral (x : Double) : Nat × Int :=
  (x.significand * Nat.pow 2 x.binaryExponent.toNat * Nat.pow 5 (-x.binaryExponent).toNat,
    min x.binaryExponent 0)

/-- The fewest digits that read back, without trailing zeros. Seventeen digits always do; the
exact value stands in for the case that none were found. -/
def shortest (tie : Tie) (x : Double) : Numeral :=
  if x.significand = 0 then ⟨x.isNegative, 0, 0⟩
  else
    let scale := x.decimalScale
    let found := (List.range 17).findSome? fun n =>
      let exponent := scale - (n + 1 : Nat)
      (x.gridHit tie exponent).map fun coefficient => (coefficient, exponent)
    let (coefficient, exponent) := found.getD x.exactNumeral
    let (coefficient, exponent) := Numeral.stripZeros 800 coefficient exponent
    ⟨x.isNegative, coefficient, exponent⟩

end DocFind.Double
