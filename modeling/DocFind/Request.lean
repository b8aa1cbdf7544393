import DocFind.Config
import DocFind.Selector.Parse
import DocFind.SortOrder

/-!
# Find requests

A request is a selector with options. The options are read in the order of their keys and the
first one at fault is reported; an option that is absent takes its default. A limit above the
greatest one is lowered to it.
-/
namespace DocFind

/-- The options of a find. -/
structure FindOptions where
  limit : Nat
  skip : Nat
  sort : Option SortOrder
  fields : Option (List FieldPath)
  r : Nat
  conflicts : Bool
  useIndex : Option String
  executionStats : Bool
deriving DecidableEq, Repr

namespace FindOptions

/-- The options of a request that names none. -/
def default (config : FindConfig) : FindOptions where
  limit := config.defaultLimit
  skip := 0
  sort := none
  fields := none
  r := 1
  conflicts := false
  useIndex := none
  executionStats := false

def fail {α : Type} (name : OptionName) (fault : OptionFault) : Except Failure α :=
  .error (.invalidOption name fault)

/-- The whole number of an integer that is not negative. -/
def natOfInt64? (n : Int64) : Option Nat := if 0 ≤ n.toInt then some n.toInt.toNat else none

def readNat (name : OptionName) (v : Value) : Except Failure Nat :=
  match v.int? with
  | none => fail name (.integerExpected v.typeName)
  | some n =>
    match natOfInt64? n with
    | some k => .ok k
    | none => fail name (.negative n.toInt)

/-- The number of copies to read is a positive word of 32 bits. -/
def readQuorum (v : Value) : Except Failure Nat := do
  let n ← readNat .r v
  if 0 < n ∧ n < 0x100000000 then .ok n else fail .r (.positiveExpected n)

def readBool (name : OptionName) : Value → Except Failure Bool
  | .bool b => .ok b
  | v => fail name (.booleanExpected v.typeName)

/-- Reads the text of a path inside an option. -/
def readOptionPath (name : OptionName) (raw : String) : Except Failure FieldPath :=
  (FieldPath.parse raw).mapError fun fault => .invalidOption name (.badPath fault)

def readDirection (v : Value) : Except Failure Direction :=
  match v with
  | .string s =>
    match Direction.ofText? s with
    | some d => .ok d
    | none => fail .sort (.unknownDirection v.text)
  | v => fail .sort (.unknownDirection v.text)

/-- The text and the direction of a sort entry. A bare text ascends. -/
def readSortEntry : Value → Except Failure (String × Direction)
  | .string s => .ok (s, .asc)
  | .document [(key, v)] => (readDirection v).map fun d => (key, d)
  | .document entries => fail .sort (.sortEntrySize entries.length)
  | v => fail .sort (.sortEntryType v.typeName)

/-- Reads the sort entries behind those read before, which share `direction`. -/
def readSortEntries (direction : Option Direction) :
    List Value → Except Failure (List FieldPath × Option Direction)
  | [] => .ok ([], direction)
  | v :: rest => do
    let (raw, d) ← readSortEntry v
    let path ← readOptionPath .sort raw
    if direction.any (· ≠ d) then fail .sort .mixedDirections
    else
      let (paths, direction) ← readSortEntries (some d) rest
      .ok (path :: paths, direction)

/-- Reads a sort. An empty list asks for none. -/
def readSort : Value → Except Failure (Option SortOrder)
  | .array items => do
    let (paths, direction) ← readSortEntries none items
    .ok (direction.map fun d => ⟨paths, d⟩)
  | v => fail .sort (.arrayExpected v.typeName)

def readField : Value → Except Failure FieldPath
  | .string s => readOptionPath .fields s
  | v => fail .fields (.fieldType v.typeName)

/-- Reads the fields to keep. An empty list asks for all. -/
def readFields : Value → Except Failure (Option (List FieldPath))
  | .array [] => .ok none
  | .array items => (items.mapM readField).map some
  | v => fail .fields (.arrayExpected v.typeName)

/-- The name in an index hint: a text, or the last of one or two texts. -/
def indexName? : Value → Option String
  | .string s => some s
  | .array [.string s] => some s
  | .array [.string _, .string s] => some s
  | _ => none

def readUseIndex (v : Value) : Except Failure String :=
  match indexName? v with
  | some name => if name = "" then fail .useIndex .indexNameExpected else .ok name
  | none => fail .useIndex .indexNameExpected

/-- Writes one option. -/
def set (config : FindConfig) (o : FindOptions) (name : OptionName) (v : Value) :
    Except Failure FindOptions :=
  match name with
  | .limit => (readNat .limit v).map fun n => { o with limit := min n config.maxLimit }
  | .skip => (readNat .skip v).map fun n => { o with skip := n }
  | .sort => (readSort v).map fun s => { o with sort := s }
  | .fields => (readFields v).map fun f => { o with fields := f }
  | .r => (readQuorum v).map fun n => { o with r := n }
  | .conflicts => (readBool .conflicts v).map fun b => { o with conflicts := b }
  | .useIndex => (readUseIndex v).map fun n => { o with useIndex := some n }
  | .executionStats => (readBool .executionStats v).map fun b => { o with executionStats := b }

/-- Writes the entries of an options document one after the other. -/
def setAll (config : FindConfig) (o : FindOptions) : List (String × Value) →
    Except Failure FindOptions
  | [] => .ok o
  | (key, v) :: rest =>
    match OptionName.ofText? key with
    | none => .error (.invalidRequest (.unknownOption key))
    | some name => do
      let o ← o.set config name v
      setAll config o rest

/-- The options that a document writes. -/
def parse (config : FindConfig) (options : Body) : Except Failure FindOptions :=
  setAll config (default config) options

/-- The options as they are shown. -/
def sortJson (sort : Option SortOrder) : Json :=
  match sort with
  | none => .null
  | some s =>
    .object [("fields", .ofTexts (s.fields.map FieldPath.text)),
      ("direction", .string s.direction.text)]

def fieldsJson (fields : Option (List FieldPath)) : Json :=
  match fields with
  | none => .null
  | some paths => .ofTexts (paths.map FieldPath.text)

end FindOptions

/-- A selector with options. -/
structure FindRequest where
  selector : Selector
  options : FindOptions
deriving Repr

namespace FindRequest

/-- The key of the selector in the body of a request. -/
def selectorKey : String := "selector"

/-- Reads a selector and options. The selector is read first. -/
def validate (config : FindConfig) (selector : Value) (options : Body) :
    Except Failure FindRequest := do
  let selector ← Selector.parse selector
  let options ← FindOptions.parse config options
  .ok ⟨selector, options⟩

/-- Reads a request that holds the selector among the options. -/
def ofBody (config : FindConfig) (body : Body) : Except Failure FindRequest :=
  match Entries.get? selectorKey body with
  | none => .error (.invalidRequest .missingSelector)
  | some selector => validate config selector (Entries.remove selectorKey body)

/-- Reads a request from a JSON text. -/
def fromJson (config : FindConfig) (text : String) : Except Failure FindRequest := do
  let j ← (Json.parse text).mapError Failure.json
  match Value.ofJson j with
  | .document entries => ofBody config entries
  | v => .error (.invalidRequest (.bodyNotObject v.typeName))

end FindRequest

end DocFind
