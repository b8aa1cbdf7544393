import DocFind.Failure
import DocFind.Selector

/-!
# Reading selectors

A selector is read from a document. At the level of selectors a key is a combinator, a negation or
a field path; at the level of a field it is an operator on the field or the path of a field below
it, and a value that is no mapping, or an empty one, asks for equality. Entries are read in order
and the first fault is reported.

The depth counts objects, field values and operands that are read inside one another.
-/
namespace DocFind

/-- Operator keys begin with a dollar sign. -/
def isOperatorKey (key : String) : Bool := key.toList.head? = some '$'

/-- The combinator that a key names. -/
def Combinator.ofKey? : String → Option Combinator
  | "$and" => some .and
  | "$or" => some .or
  | "$nor" => some .nor
  | _ => none

/-- The comparison that a key names. -/
def Comparison.ofKey? : String → Option Comparison
  | "$eq" => some .eq
  | "$ne" => some .ne
  | "$gt" => some .gt
  | "$gte" => some .gte
  | "$lt" => some .lt
  | "$lte" => some .lte
  | _ => none

/-- The operators that need a field. -/
def fieldOperators : List String :=
  ["$eq", "$ne", "$gt", "$gte", "$lt", "$lte", "$exists", "$type", "$in", "$nin", "$size",
    "$mod", "$all", "$elemMatch", "$regex"]

/-- What is wrong with an operator that stands where a field or a combinator is expected. -/
def misplacedOperator (op : String) : Failure :=
  .invalidOperator (if op ∈ fieldOperators then .misplaced op else .unknown op)

def checkDepth (depth : Nat) : Except Failure Unit :=
  if maxSelectorDepth < depth then .error (.invalidSelector .tooDeep) else .ok ()

/-- Every item of the operand of a combinator has to be a mapping. -/
def checkOperands (op : String) : List Value → Except Failure Unit
  | [] => .ok ()
  | .document _ :: rest => checkOperands op rest
  | v :: _ => .error (.invalidSelector (.operandNotObject op v.typeName))

def arrayOperand (op : String) : Value → Except Failure (List Value)
  | .array items => .ok items
  | v => .error (.invalidOperator (.arrayExpected op v.typeName))

/-- A size is an integer that is not negative. -/
def readSize (operand : Value) : Except Failure Test :=
  match operand.int? with
  | some n =>
    if 0 ≤ n.toInt then .ok (.size n.toInt.toNat)
    else .error (.invalidOperator .sizeExpected)
  | none => .error (.invalidOperator .sizeExpected)

/-- A division is a pair of integers, the first not zero. -/
def readDivision (operand : Value) : Except Failure Test := do
  let items ← arrayOperand "$mod" operand
  match items with
  | [d, r] =>
    match d.int?, r.int? with
    | some divisor, some remainder =>
      if divisor = 0 then .error (.invalidOperator .zeroDivisor)
      else .ok (.modulo divisor remainder)
    | _, _ => .error (.invalidOperator .divisionExpected)
  | _ => .error (.invalidOperator .divisionExpected)

def readTypeName : Value → Except Failure Test
  | .string name =>
    match TypeName.ofText? name with
    | some type => .ok (.hasType type)
    | none => .error (.invalidOperator (.unknownTypeName name))
  | _ => .error (.invalidOperator .typeNameExpected)

/-- Reads an operator whose operand holds no selector. -/
def readTest (op : String) (operand : Value) : Except Failure Test :=
  match Comparison.ofKey? op with
  | some comparison => .ok (.compare comparison operand)
  | none =>
    match op with
    | "$exists" =>
      match operand with
      | .bool b => .ok (.present b)
      | _ => .error (.invalidOperator .booleanExpected)
    | "$type" => readTypeName operand
    | "$in" => (arrayOperand op operand).map .oneOf
    | "$nin" => (arrayOperand op operand).map .noneOf
    | "$all" => (arrayOperand op operand).map .allOf
    | "$size" => readSize operand
    | "$mod" => readDivision operand
    | "$regex" => .error (.invalidOperator .patternsUnavailable)
    | _ => .error (.invalidOperator (.unknown op))

def readPath (key : String) : Except Failure FieldPath :=
  (FieldPath.parse key).mapError .invalidFieldPath

mutual

/-- Reads a value at field level: operators on the field at `path`, fields below it, or a value
to be equal to. -/
def parseField (path : FieldPath) (depth : Nat) (v : Value) : Except Failure Selector :=
  match v with
  | .document (entry :: entries) => do
    checkDepth depth
    let parts ← parseFieldEntries path depth (entry :: entries)
    return Selector.conjoin parts
  | .document [] => do
    checkDepth depth
    return .field path (.compare .eq (.document []))
  | v => do
    checkDepth depth
    return .field path (.compare .eq v)
termination_by structural v

def parseFieldEntries (path : FieldPath) (depth : Nat) (entries : List (String × Value)) :
    Except Failure (List Selector) :=
  match entries with
  | [] => .ok []
  | (key, operand) :: rest => do
    let part ←
      if isOperatorKey key then
        match Combinator.ofKey? key with
        | some kind =>
          match operand with
          | .array items => do
            checkOperands key items
            let children ← parseFieldItems path (depth + 1) items
            .ok (.combine kind children)
          | _ => .error (.invalidOperator (.selectorsExpected key))
        | none =>
          if key = "$not" then
            match operand with
            | .document _ => do
              let child ← parseField path (depth + 1) operand
              .ok (.not child)
            | _ => .error (.invalidOperator (.objectExpected key))
          else if key = "$elemMatch" then
            match operand with
            | .document _ => do
              let inner ← parseField FieldPath.root (depth + 1) operand
              .ok (.elemMatch path inner)
            | _ => .error (.invalidOperator (.objectExpected key))
          else (readTest key operand).map (.field path)
      else do
        let below ← readPath key
        parseField (path.join below) (depth + 1) operand
    let parts ← parseFieldEntries path depth rest
    .ok (part :: parts)
termination_by structural entries

def parseFieldItems (path : FieldPath) (depth : Nat) (items : List Value) :
    Except Failure (List Selector) :=
  match items with
  | [] => .ok []
  | v :: rest => do
    let child ← parseField path depth v
    let children ← parseFieldItems path depth rest
    .ok (child :: children)
termination_by structural items

end

mutual

/-- Reads a value at the level of selectors; it has to be a mapping. -/
def parseObject (depth : Nat) (v : Value) : Except Failure Selector :=
  match v with
  | .document entries => do
    checkDepth depth
    let parts ← parseEntries depth entries
    return Selector.conjoin parts
  | v => .error (.invalidSelector (.notObject v.typeName))
termination_by structural v

def parseEntries (depth : Nat) (entries : List (String × Value)) :
    Except Failure (List Selector) :=
  match entries with
  | [] => .ok []
  | (key, operand) :: rest => do
    let part ←
      match Combinator.ofKey? key with
      | some kind =>
        match operand with
        | .array items => do
          checkOperands key items
          let children ← parseItems (depth + 1) items
          .ok (.combine kind children)
        | _ => .error (.invalidOperator (.selectorsExpected key))
      | none =>
        if key = "$not" then
          match operand with
          | .document _ => do
            let child ← parseObject (depth + 1) operand
            .ok (.not child)
          | _ => .error (.invalidOperator .selectorExpected)
        else if isOperatorKey key then .error (misplacedOperator key)
        else do
          let path ← readPath key
          parseField path (depth + 1) operand
    let parts ← parseEntries depth rest
    .ok (part :: parts)
termination_by structural entries

def parseItems (depth : Nat) (items : List Value) : Except Failure (List Selector) :=
  match items with
  | [] => .ok []
  | v :: rest => do
    let child ← parseObject depth v
    let children ← parseItems depth rest
    .ok (child :: children)
termination_by structural items

end

namespace Selector

/-- The selector that a value writes. -/
def parse (v : Value) : Except Failure Selector := parseObject 0 v

/-- The selector that a JSON text writes. -/
def fromJson (text : String) : Except Failure Selector := do
  let j ← (Json.parse text).mapError Failure.json
  parse (Value.ofJson j)

end Selector

end DocFind
