import DocFind.FieldPath.Resolve
import DocFind.Selector
import DocFind.Value.Order

/-!
# Matching documents

A selector holds or does not hold of every document: where a path leads nowhere, the tests of
absence hold and all others fail. Tests compare whole values under the order of values; an array
matches only an equal array.
-/
namespace DocFind

/-- What paths start from: the body of a document, or an element of an array. -/
inductive Target where
  | body (body : Body)
  | element (v : Value)
deriving Repr

/-- The value at a path. -/
def Target.get? : Target → FieldPath → Option Value
  | .body b, path => Body.resolve? b path
  | .element v, path => v.resolve? path

/-- Whether a comparison admits an outcome of the order. -/
def Comparison.admits : Comparison → Ordering → Bool
  | eq, o => o == .eq
  | ne, o => o != .eq
  | gt, o => o == .gt
  | gte, o => o != .lt
  | lt, o => o == .lt
  | lte, o => o != .gt

/-- The remainder with the sign of the dividend. There is none for a divisor of zero, nor where
the quotient is past the words of 64 bits. -/
def remainder? (dividend divisor : Int64) : Option Int :=
  if divisor.toInt = 0 ∨ dividend.toInt = -0x8000000000000000 ∧ divisor.toInt = -1 then none
  else some (dividend.toInt.tmod divisor.toInt)

/-- Membership of a whole value. -/
def Value.isIn (v : Value) (values : List Value) : Bool := values.any fun w => v.same w

/-- Whether a test holds of the value at its path, or of a missing one. -/
def Test.holds : Test → Option Value → Bool
  | compare .ne operand, v => v.all fun x => !x.same operand
  | compare op operand, v => v.any fun x => op.admits (x.cmp operand)
  | present wanted, v => v.isSome == wanted
  | hasType name, v => v.any fun x => x.typeName == name
  | oneOf values, v => v.any fun x => x.isIn values
  | noneOf values, v => v.all fun x => !x.isIn values
  | size n, some (.array items) => items.length == n
  | size _, _ => false
  | modulo divisor remainder, v =>
    (v.bind Value.int?).any fun n => remainder? n divisor == some remainder.toInt
  | allOf values, some (.array items) =>
    !values.isEmpty && values.all fun w => items.any fun x => x.same w
  | allOf _, _ => false

namespace Selector

mutual

/-- Whether a selector holds of a target. -/
def holds (t : Target) : Selector → Bool
  | combine .and children => holdsAll t children
  | combine .or children => holdsAny t children
  | combine .nor children => !holdsAny t children
  | not child => !child.holds t
  | field path test => test.holds (t.get? path)
  | elemMatch path inner =>
    match t.get? path with
    | some (.array items) => items.any fun v => inner.holds (.element v)
    | _ => false

def holdsAll (t : Target) : List Selector → Bool
  | [] => true
  | s :: rest => s.holds t && holdsAll t rest

def holdsAny (t : Target) : List Selector → Bool
  | [] => false
  | s :: rest => s.holds t || holdsAny t rest

end

/-- Whether a document satisfies a selector. -/
def accepts (s : Selector) (body : Body) : Bool := s.holds (.body body)

end Selector

end DocFind
