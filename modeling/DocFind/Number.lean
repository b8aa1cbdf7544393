import DocFind.Double

/-!
# Numbers of mixed form

Stored numbers are words of 64 bits or binary64 numbers. They share one order: two words compare
as integers, two binary numbers by value, and a word compares exactly with a binary number, so no
integer equals a binary number of another value.
-/
namespace DocFind

inductive Number where
  | int (n : Int64)
  | double (x : Double)
deriving DecidableEq, Repr

namespace Number

/-- Numbers by exact value, NaN above all. -/
def cmp : Number → Number → Ordering
  | .int m, .int n => compare m n
  | .int m, .double y => Double.cmpInt64 m y
  | .double x, .int n => (Double.cmpInt64 n x).swap
  | .double x, .double y => x.cmp y

end Number

end DocFind
