import DocFind.Index.Catalog
import DocFind.Request

/-!
# Plans

A plan says which index a find scans, in which range and direction, which conjuncts the range
leaves to check, and whether the documents have to be sorted. A hinted index is scanned if the
selector can use it; otherwise the best candidate is, with a warning. Without candidates the first
index whose order is the wanted one is scanned in full, or else the primary index.
-/
namespace DocFind

/-- Why a hint was not followed. -/
inductive Warning where
  | unknownIndex (name : String)
  | unusableIndex (name : String)
deriving DecidableEq, Repr

def Warning.text : Warning → String
  | unknownIndex name => "no matching index found, `" ++ name ++ "` does not exist"
  | unusableIndex name =>
    "`" ++ name ++ "` was not used because it does not match the selector"

/-- How a find is run. -/
structure ScanPlan where
  selector : Selector
  index : IndexDefinition
  /-- How many leading fields of the index the selector constrains. -/
  covered : Nat
  range : ScanRange
  direction : Direction
  /-- What the range does not settle. -/
  residual : Option Selector
  sort : Option SortOrder
  /-- Whether the scan leaves the documents to be sorted. -/
  sortInMemory : Bool
  limit : Nat
  skip : Nat
  fields : Option (List FieldPath)
  r : Nat
  conflicts : Bool
  executionStats : Bool
  warning : Option Warning
deriving Repr

/-- A range of an index, the conjuncts that it settles, and how many leading fields it fixes. -/
structure DerivedRange where
  range : ScanRange
  used : List Nat
  fixed : Nat
deriving Repr

/-- Derives the range from the fields behind those that `key` fixes: equalities extend the key, and
the first field with bounds only ends it. -/
def deriveFrom (constraints : Constraints) (key : IndexKey) (used : List Nat) :
    List FieldPath → DerivedRange
  | [] => stopAt
  | path :: rest =>
    match constraints.on? path with
    | none => stopAt
    | some c =>
      match c.equality with
      | some (position, v) =>
        deriveFrom constraints (key.snoc (.value v)) (used ++ [position]) rest
      | none =>
        ⟨.bounded key c.lower c.upper, used ++ c.boundPositions, key.parts.length⟩
where
  stopAt : DerivedRange :=
    if key.parts = [] then ⟨.full, used, 0⟩ else ⟨.startingWith key, used, key.parts.length⟩

/-- The range of an index under some constraints. -/
def deriveRange (constraints : Constraints) (fields : List FieldPath) : DerivedRange :=
  deriveFrom constraints ⟨[]⟩ [] fields

/-- Whether a scan with the leading fields fixed yields the order of a sort: the wanted fields that
are not fixed are the next ones, in order. -/
def providesOrder (d : IndexDefinition) (fixed : Nat) (sort : SortOrder) : Bool :=
  let wanted := sort.fields.filter fun path => path ∉ d.fields.take fixed
  wanted.isPrefixOf (d.fields.drop fixed)

/-- The candidate that a hint names, or the best one with the reason why not. -/
def followHint (catalog : IndexCatalog) (candidates : List Candidate) :
    Option String → Option Candidate × Option Warning
  | none => (candidates.head?, none)
  | some name =>
    match candidates.find? fun c => c.definition.name = name with
    | some c => (some c, none)
    | none =>
      (candidates.head?,
        some (if (catalog.get? name).isNone then .unknownIndex name else .unusableIndex name))

/-- The index that is scanned in full when the selector can use none. -/
def fallback (catalog : IndexCatalog) (sort : Option SortOrder) : IndexDefinition :=
  (sort.bind fun s => catalog.definitions.find? fun d => providesOrder d 0 s).getD catalog.primary

/-- The direction of a scan with the leading fields fixed, and whether the documents have to be
sorted behind it. -/
def scanOrder (index : IndexDefinition) (fixed : Nat) : Option SortOrder → Direction × Bool
  | some sort => if providesOrder index fixed sort then (sort.direction, false) else (.asc, true)
  | none => (.asc, false)

namespace ScanPlan

/-- The plan of a request. -/
def ofRequest (request : FindRequest) (catalog : IndexCatalog) (policy : TieBreak) : ScanPlan :=
  let o := request.options
  let constraints := Constraints.ofSelector request.selector
  let (chosen, warning) := followHint catalog (catalog.select constraints policy) o.useIndex
  let (index, covered) := match chosen with
    | some c => (c.definition, c.covered)
    | none => (fallback catalog o.sort, 0)
  let derived := deriveRange constraints index.fields
  let (direction, sortInMemory) := scanOrder index derived.fixed o.sort
  { selector := request.selector
    index
    covered
    range := derived.range
    direction
    residual := constraints.residual derived.used
    sort := o.sort
    sortInMemory
    limit := o.limit
    skip := o.skip
    fields := o.fields
    r := o.r
    conflicts := o.conflicts
    executionStats := o.executionStats
    warning }

/-- Whether no leading field is constrained. -/
def isFullScan (plan : ScanPlan) : Bool := plan.covered = 0

/-- The plan as it is shown. Parts that are absent are left out, except those that stand for a
choice of the request. -/
def explain (plan : ScanPlan) : Json :=
  .object <|
    [("index", .object [("name", .string plan.index.name),
      ("fields", .ofTexts (plan.index.fields.map FieldPath.text))]),
     ("covered_fields", .ofNat plan.covered),
     ("full_scan", .bool plan.isFullScan),
     ("selector", plan.selector.toJson),
     ("range", plan.range.toJson),
     ("direction", .string plan.direction.text)] ++
    (plan.residual.toList.map fun s => ("residual", s.toJson)) ++
    [("sort", FindOptions.sortJson plan.sort),
     ("sort_in_memory", .bool plan.sortInMemory),
     ("limit", .ofNat plan.limit),
     ("skip", .ofNat plan.skip),
     ("fields", FindOptions.fieldsJson plan.fields),
     ("r", .ofNat plan.r),
     ("conflicts", .bool plan.conflicts)] ++
    (plan.warning.toList.map fun w => ("warning", .string w.text))

end ScanPlan

end DocFind
