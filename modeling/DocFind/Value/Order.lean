import DocFind.Number
import DocFind.Value

/-!
# The order of values

Values are ordered by type first: null, booleans, numbers, texts, arrays, documents, and the kinds
outside JSON last. Arrays are ordered element by element and a proper beginning comes first.
Documents are ordered like the list of their entries with ascending keys, so the order in which
keys were written does not matter. Indexes and selectors share this order.
-/
namespace DocFind

/-- What a value without parts is compared by, within its type. -/
inductive Scalar where
  | unit
  | bool (b : Bool)
  | number (n : Number)
  | text (s : String)
deriving DecidableEq, Repr

namespace Scalar

def rank : Scalar → Nat
  | unit => 0
  | bool _ => 1
  | number _ => 2
  | text _ => 3

/-- Scalars of one form by their content. Values of one type have scalars of one form, so the
rank only makes the order total. -/
def cmp : Scalar → Scalar → Ordering
  | bool a, bool b => compare a b
  | number m, number n => m.cmp n
  | text s, text t => compare s t
  | a, b => compare a.rank b.rank

end Scalar

namespace Value

def scalar : Value → Scalar
  | null => .unit
  | bool b => .bool b
  | int32 n => .number (.int n.toInt64)
  | int64 n => .number (.int n)
  | double x => .number (.double x)
  | decimal d => .number (.double d.toDouble)
  | string s => .text s
  | array _ => .unit
  | document _ => .unit
  | foreign f => .text f.text

/-! ## Ascending keys -/

mutual

/-- The value with the entries of every document in ascending key order. -/
def sortKeys : Value → Value
  | array items => array (sortKeysItems items)
  | document entries => document (sortKeysEntries entries)
  | v => v

def sortKeysItems : List Value → List Value
  | [] => []
  | v :: rest => v.sortKeys :: sortKeysItems rest

def sortKeysEntries : List (String × Value) → List (String × Value)
  | [] => []
  | (k, v) :: rest => Entries.insertByKey k v.sortKeys (sortKeysEntries rest)

end

/-! ## Comparison -/

mutual

/-- Compares part by part, documents in the order of their entries. -/
def cmpParts : Value → Value → Ordering
  | array xs, array ys => cmpItems xs ys
  | document xs, document ys => cmpEntries xs ys
  | a, b => (compare a.typeName.rank b.typeName.rank).then (a.scalar.cmp b.scalar)
termination_by structural a => a

def cmpItems : List Value → List Value → Ordering
  | [], [] => .eq
  | [], _ :: _ => .lt
  | _ :: _, [] => .gt
  | x :: xs, y :: ys => (x.cmpParts y).then (cmpItems xs ys)
termination_by structural xs => xs

def cmpEntries : List (String × Value) → List (String × Value) → Ordering
  | [], [] => .eq
  | [], _ :: _ => .lt
  | _ :: _, [] => .gt
  | (k, x) :: xs, (l, y) :: ys =>
    (compare k l).then ((x.cmpParts y).then (cmpEntries xs ys))
termination_by structural xs => xs

end

/-- The order of values. -/
def cmp (a b : Value) : Ordering := a.sortKeys.cmpParts b.sortKeys

/-- Values that the order does not tell apart: numbers of one value in different forms, documents
with their keys in another order. -/
def same (a b : Value) : Bool := a.cmp b == .eq

end Value

end DocFind
