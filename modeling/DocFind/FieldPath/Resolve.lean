import DocFind.FieldPath
import DocFind.Numeral
import DocFind.Value

/-!
# Following a path

A segment is a key under a document and a position under an array, provided that it is a whole
number in digits. Where a path leads nowhere the value is missing, which is not the value null.
-/
namespace DocFind

/-- The position that a segment names under an array: digits that a word of 64 bits can hold. -/
def arrayIndex? (segment : String) : Option Nat :=
  let digits := segment.toList
  if digits ≠ [] ∧ digits.all Char.isDigit then
    let n := Numeral.ofDigits digits
    if n < 0x10000000000000000 then some n else none
  else none

namespace Value

/-- The part of a value that one segment leads to. -/
def step? (v : Value) (segment : String) : Option Value :=
  match v with
  | document entries => Entries.get? segment entries
  | array items => (arrayIndex? segment).bind fun i => items[i]?
  | _ => none

/-- The part of a value that the segments lead to; without segments, the value. -/
def follow? (v : Value) : List String → Option Value
  | [] => some v
  | segment :: rest => (v.step? segment).bind fun part => part.follow? rest

/-- The part of a value at a path. -/
def resolve? (v : Value) (path : FieldPath) : Option Value := v.follow? path.segments

end Value

namespace Body

/-- The value at a path in the body of a document. The path without segments names no field. -/
def resolve? (body : Body) (path : FieldPath) : Option Value :=
  if path.isRoot then none else (Value.document body).resolve? path

end Body

end DocFind
