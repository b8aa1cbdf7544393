import DocFind.Decimal
import DocFind.Entries

/-!
# Stored values

A value is of one of the six JSON types, with integers of two widths, binary and decimal numbers
told apart, or one of a few kinds outside of them. A document is a mapping from texts to values
that keeps the order of its entries.
-/
namespace DocFind

/-- The kinds of value outside the JSON types. Kinds that have no form here are known by the text
that shows them. -/
inductive Foreign where
  | objectId (hex : String)
  | symbol (name : String)
  | code (source : String)
  | undefined
  | minKey
  | maxKey
  | other (shown : String)
deriving DecidableEq, Repr

/-- A stored value. -/
inductive Value where
  | null
  | bool (b : Bool)
  | int32 (n : Int32)
  | int64 (n : Int64)
  | double (x : Double)
  | decimal (d : Decimal)
  | string (s : String)
  | array (items : List Value)
  | document (entries : List (String × Value))
  | foreign (f : Foreign)
deriving Repr, Inhabited

/-- The body of a document. -/
abbrev Body := Entries Value

/-- The types that selectors and messages speak of. -/
inductive TypeName where
  | null
  | boolean
  | number
  | string
  | array
  | object
  | other
deriving DecidableEq, Repr

namespace TypeName

def text : TypeName → String
  | null => "null"
  | boolean => "boolean"
  | number => "number"
  | string => "string"
  | array => "array"
  | object => "object"
  | other => "other"

/-- The types from the lowest to the highest. -/
def rank : TypeName → Nat
  | null => 0
  | boolean => 1
  | number => 2
  | string => 3
  | array => 4
  | object => 5
  | other => 6

/-- The types that a selector can ask for by name. -/
def ofText? : String → Option TypeName
  | "null" => some null
  | "boolean" => some boolean
  | "number" => some number
  | "string" => some string
  | "array" => some array
  | "object" => some object
  | _ => none

end TypeName

namespace Foreign

def text : Foreign → String
  | objectId hex => "ObjectId(\"" ++ hex ++ "\")"
  | symbol name => "Symbol(\"" ++ name ++ "\")"
  | code source => source
  | undefined => "undefined"
  | minKey => "MinKey"
  | maxKey => "MaxKey"
  | other shown => shown

end Foreign

namespace Value

def typeName : Value → TypeName
  | null => .null
  | bool _ => .boolean
  | int32 _ | int64 _ | double _ | decimal _ => .number
  | string _ => .string
  | array _ => .array
  | document _ => .object
  | foreign _ => .other

/-- The integer of an integer value; binary and decimal numbers are none, whole or not. -/
def int? : Value → Option Int64
  | int32 n => some n.toInt64
  | int64 n => some n
  | _ => none

/-- The integer of an integer value, or of a whole binary number below `2 ^ 53`. -/
def integral? : Value → Option Int64
  | double x =>
    if x.magnitude < 0x4340000000000000 ∧ ¬ x.hasFraction then some x.floorWord else none
  | v => v.int?

/-- The integer value of the least width that holds `n`. -/
def ofInt64 (n : Int64) : Value :=
  if -0x80000000 ≤ n.toInt ∧ n.toInt < 0x80000000 then int32 n.toInt32 else int64 n

/-- The value of an integer: the least width that holds it, or the nearest binary number. -/
def ofInt (n : Int) : Value :=
  if -0x8000000000000000 ≤ n ∧ n < 0x8000000000000000 then ofInt64 (Int64.ofInt n)
  else double (Double.ofInt n)

/-! ## Texts in messages -/

mutual

/-- The text of a value in messages. Quotes inside texts are not marked. -/
def text : Value → String
  | null => "null"
  | bool b => if b then "true" else "false"
  | int32 n => toString n.toInt
  | int64 n => toString n.toInt
  | double x => x.toText
  | decimal d => d.toText
  | string s => "\"" ++ s ++ "\""
  | array items => "[" ++ String.intercalate ", " (itemTexts items) ++ "]"
  | document [] => "\x7b\x7d"
  | document entries => "\x7b " ++ String.intercalate ", " (entryTexts entries) ++ " \x7d"
  | foreign f => f.text

def itemTexts : List Value → List String
  | [] => []
  | v :: rest => v.text :: itemTexts rest

def entryTexts : List (String × Value) → List String
  | [] => []
  | (k, v) :: rest => ("\"" ++ k ++ "\": " ++ v.text) :: entryTexts rest

end

end Value

end DocFind
