import DocFind.FieldPath
import DocFind.Value.Json

/-!
# Selectors

A selector is a tree: combinations and negations above tests of the values at field paths. Its
normalized form writes one operator for a field.
-/
namespace DocFind

/-- How a value is compared with an operand. -/
inductive Comparison where
  | eq
  | ne
  | gt
  | gte
  | lt
  | lte
deriving DecidableEq, Repr

def Comparison.key : Comparison → String
  | eq => "$eq"
  | ne => "$ne"
  | gt => "$gt"
  | gte => "$gte"
  | lt => "$lt"
  | lte => "$lte"

/-- How selectors are combined. -/
inductive Combinator where
  | and
  | or
  | nor
deriving DecidableEq, Repr

def Combinator.key : Combinator → String
  | and => "$and"
  | or => "$or"
  | nor => "$nor"

/-- A test of the value at a path, or of its absence. -/
inductive Test where
  | compare (op : Comparison) (operand : Value)
  | present (wanted : Bool)
  | hasType (name : TypeName)
  | oneOf (values : List Value)
  | noneOf (values : List Value)
  | size (n : Nat)
  | modulo (divisor remainder : Int64)
  | allOf (values : List Value)
deriving Repr

/-- A selector. `elemMatch` asks for an element of the array at its path that satisfies the inner
selector; paths of the inner selector start at the element. -/
inductive Selector where
  | combine (kind : Combinator) (children : List Selector)
  | not (child : Selector)
  | field (path : FieldPath) (test : Test)
  | elemMatch (path : FieldPath) (inner : Selector)
deriving Repr

/-- The normalized form of a test: an object with its operator. -/
def Test.toJson : Test → Json
  | compare op operand => Json.singleton op.key operand.toJson
  | present wanted => Json.singleton "$exists" (.bool wanted)
  | hasType name => Json.singleton "$type" (.string name.text)
  | oneOf values => Json.singleton "$in" (.array (Value.toJsonItems values))
  | noneOf values => Json.singleton "$nin" (.array (Value.toJsonItems values))
  | size n => Json.singleton "$size" (.ofNat n)
  | modulo divisor remainder =>
    Json.singleton "$mod" (.array [.integer divisor.toInt, .integer remainder.toInt])
  | allOf values => Json.singleton "$all" (.array (Value.toJsonItems values))

/-- The form of a test at a path: under the text of the path, or bare at the value itself. -/
def FieldPath.label (path : FieldPath) (test : Json) : Json :=
  if path.isRoot then test else Json.singleton path.text test

namespace Selector

mutual

/-- The normalized form of a selector. -/
def toJson : Selector → Json
  | combine kind children => Json.singleton kind.key (.array (toJsonList children))
  | not child => Json.singleton "$not" child.toJson
  | field path test => path.label test.toJson
  | elemMatch path inner => path.label (Json.singleton "$elemMatch" inner.toJson)

def toJsonList : List Selector → List Json
  | [] => []
  | s :: rest => s.toJson :: toJsonList rest

end

/-- A conjunction; a single part stands alone. -/
def conjoin : List Selector → Selector
  | [part] => part
  | parts => combine .and parts

end Selector

end DocFind
