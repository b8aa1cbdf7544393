/-!
# Field paths

A path addresses a value inside a document by the segments that lead to it. In its text the
segments are parted by dots; a backslash makes the next character part of its segment, and a
backslash at the very end stands for itself.
-/
namespace DocFind

/-- The address of a value inside a document. The path without segments is the value itself. -/
structure FieldPath where
  segments : List String
deriving DecidableEq, Repr, Inhabited

/-- Why a text is no path. -/
inductive PathFault where
  | empty
  | emptySegment (raw : String)
  | tooDeep (raw : String)
deriving DecidableEq, Repr

namespace FieldPath

/-- The greatest number of segments that a text may have. -/
def maxSegments : Nat := 32

/-- Puts a character in front of the first piece. -/
def consFirst (c : Char) : List (List Char) → List (List Char)
  | [] => [[c]]
  | piece :: rest => (c :: piece) :: rest

/-- Splits a text at its unescaped dots and removes the escapes. -/
def splitPieces : List Char → List (List Char)
  | [] => [[]]
  | ['\\'] => [['\\']]
  | '\\' :: c :: rest => consFirst c (splitPieces rest)
  | '.' :: rest => [] :: splitPieces rest
  | c :: rest => consFirst c (splitPieces rest)

/-- The path that a text writes: one to 32 segments, none of them empty. -/
def parse (raw : String) : Except PathFault FieldPath :=
  if raw.toList = [] then .error .empty
  else
    let pieces := splitPieces raw.toList
    if [] ∈ pieces then .error (.emptySegment raw)
    else if maxSegments < pieces.length then .error (.tooDeep raw)
    else .ok ⟨pieces.map String.ofList⟩

/-- The text of a character inside a segment. -/
def escapeChar (c : Char) : List Char :=
  if c = '\\' ∨ c = '.' then ['\\', c] else [c]

/-- The text of a segment: dots and backslashes behind a backslash. -/
def escape (segment : String) : String := String.ofList (segment.toList.flatMap escapeChar)

/-- The text of a path. -/
def text (path : FieldPath) : String := String.intercalate "." (path.segments.map escape)

/-- The path of the value itself. -/
def root : FieldPath := ⟨[]⟩

def isRoot (path : FieldPath) : Bool := path.segments.isEmpty

/-- The path that leads on from the end of another. -/
def join (path other : FieldPath) : FieldPath := ⟨path.segments ++ other.segments⟩

/-- The path one segment further. Dots in the segment part nothing. -/
def joinSegment (path : FieldPath) (segment : String) : FieldPath := ⟨path.segments ++ [segment]⟩

end FieldPath

/-- The text of a path fault. -/
def PathFault.detail : PathFault → String
  | empty => "field path must not be empty"
  | emptySegment raw => "empty segment in `" ++ raw ++ "`"
  | tooDeep raw =>
    "`" ++ raw ++ "` is deeper than " ++ toString FieldPath.maxSegments ++ " segments"

end DocFind
