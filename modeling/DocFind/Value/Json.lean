import DocFind.Json
import DocFind.Value

/-!
# Values and JSON

An integer becomes the least integer form that holds it, past the words of 64 bits the nearest
binary number. Back, both integer widths are integers, a binary number that is not finite is null,
keys ascend, and what lies outside the JSON types is shown by its text.
-/
namespace DocFind.Value

mutual

/-- The value that a JSON value stands for. -/
def ofJson : Json → Value
  | .null => null
  | .bool b => bool b
  | .integer n => ofInt n
  | .float x => double x
  | .string s => string s
  | .array items => array (ofJsonItems items)
  | .object entries => document (ofJsonEntries entries)

def ofJsonItems : List Json → List Value
  | [] => []
  | j :: rest => ofJson j :: ofJsonItems rest

def ofJsonEntries : List (String × Json) → List (String × Value)
  | [] => []
  | (k, j) :: rest => (k, ofJson j) :: ofJsonEntries rest

end

mutual

/-- The JSON value that shows a value. -/
def toJson : Value → Json
  | null => .null
  | bool b => .bool b
  | int32 n => .integer n.toInt
  | int64 n => .integer n.toInt
  | double x => if x.isFinite then .float x else .null
  | decimal d => .string d.toText
  | string s => .string s
  | array items => .array (toJsonItems items)
  | document entries => .object (Entries.toSorted (toJsonEntries entries))
  | foreign f => .string f.text

def toJsonItems : List Value → List Json
  | [] => []
  | v :: rest => toJson v :: toJsonItems rest

def toJsonEntries : List (String × Value) → List (String × Json)
  | [] => []
  | (k, v) :: rest => (k, toJson v) :: toJsonEntries rest

end

/-- The JSON object that shows the body of a document. -/
def bodyToJson (body : Body) : Json := toJson (document body)

end DocFind.Value
