import DocFind.Failure
import DocFind.Index.Definition
import DocFind.Selector.Constraints

/-!
# The catalog of a collection

A catalog lists the indexes of a collection in the order of their declaration, the primary one
first. No two of them share a name or a list of fields. For a selector it proposes the indexes
whose leading field is constrained, the best one first.
-/
namespace DocFind

/-- The choice among indexes that cover equally many fields. -/
inductive TieBreak where
  | firstDeclared
  | lastDeclared
  /-- The fewest fields, then the earliest declaration. -/
  | narrowest
deriving DecidableEq, Repr

namespace TieBreak

def text : TieBreak → String
  | firstDeclared => "first_declared"
  | lastDeclared => "last_declared"
  | narrowest => "narrowest"

def ofText? : String → Option TieBreak
  | "first_declared" => some firstDeclared
  | "last_declared" => some lastDeclared
  | "narrowest" => some narrowest
  | _ => none

end TieBreak

/-- An index that a selector can use. -/
structure Candidate where
  definition : IndexDefinition
  /-- How many of its leading fields are constrained. -/
  covered : Nat
  /-- Its place in the catalog. -/
  position : Nat
deriving Repr

namespace Candidate

/-- Candidates by the policy alone. -/
def cmpPolicy (a b : Candidate) : TieBreak → Ordering
  | .firstDeclared => compare a.position b.position
  | .lastDeclared => compare b.position a.position
  | .narrowest =>
    (compare a.definition.fields.length b.definition.fields.length).then
      (compare a.position b.position)

/-- Better candidates first: more covered fields, then declared before primary, then the
policy. -/
def cmp (policy : TieBreak) (a b : Candidate) : Ordering :=
  (compare b.covered a.covered).then
    ((compare a.definition.isPrimary b.definition.isPrimary).then (a.cmpPolicy b policy))

end Candidate

/-- The indexes of a collection in the order of declaration. -/
structure IndexCatalog where
  definitions : List IndexDefinition
deriving Repr

namespace IndexCatalog

/-- The catalog of a new collection. -/
def initial : IndexCatalog := ⟨[.primary]⟩

def get? (catalog : IndexCatalog) (name : String) : Option IndexDefinition :=
  catalog.definitions.find? fun d => d.name = name

/-- The first index, which is the primary one. -/
def primary (catalog : IndexCatalog) : IndexDefinition := catalog.definitions.headD .primary

/-- Declares an index. Its name and its list of fields must both be new. -/
def add (catalog : IndexCatalog) (d : IndexDefinition) : Except Failure IndexCatalog :=
  if d.fields = [] then .error (.invalidRequest .noIndexFields)
  else
    match catalog.definitions.find? fun e => e.name = d.name ∨ e.fields = d.fields with
    | some e => .error (.indexAlreadyExists e.name)
    | none => .ok ⟨catalog.definitions ++ [d]⟩

/-- Drops a declared index and returns it. -/
def remove (catalog : IndexCatalog) (name : String) :
    Except Failure (IndexDefinition × IndexCatalog) :=
  if name = primaryIndexName then .error (.invalidRequest (.primaryIndexDeleted name))
  else
    match catalog.get? name with
    | none => .error (.noSuchIndex name)
    | some d => .ok (d, ⟨catalog.definitions.eraseP fun e => e.name = name⟩)

/-- The indexes whose leading field is constrained. -/
def candidates (catalog : IndexCatalog) (constraints : Constraints) : List Candidate :=
  catalog.definitions.zipIdx.filterMap fun (d, position) =>
    let covered := constraints.covered d.fields
    if 0 < covered then some ⟨d, covered, position⟩ else none

/-- The candidates, the best one first. -/
def select (catalog : IndexCatalog) (constraints : Constraints) (policy : TieBreak) :
    List Candidate :=
  (catalog.candidates constraints).mergeSort fun a b => (a.cmp policy b).isLE

end IndexCatalog

end DocFind
