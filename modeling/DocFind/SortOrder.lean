import DocFind.FieldPath.Resolve
import DocFind.Value.Order

/-!
# Sort orders

Documents are sorted by the values of a list of fields, all in one direction. A missing value
comes before every stored one.
-/
namespace DocFind

inductive Direction where
  | asc
  | desc
deriving DecidableEq, Repr

namespace Direction

def text : Direction → String
  | asc => "asc"
  | desc => "desc"

def ofText? : String → Option Direction
  | "asc" => some asc
  | "desc" => some desc
  | _ => none

/-- Descending reverses an outcome. -/
def orient : Direction → Ordering → Ordering
  | asc, o => o
  | desc, o => o.swap

/-- Descending reverses a sequence. -/
def arrange {α : Type} : Direction → List α → List α
  | asc, xs => xs
  | desc, xs => xs.reverse

end Direction

/-- Fields to sort by, with the direction that they share. -/
structure SortOrder where
  fields : List FieldPath
  direction : Direction
deriving DecidableEq, Repr

/-- Values with a missing one first. -/
def cmpMissingFirst : Option Value → Option Value → Ordering
  | none, none => .eq
  | none, some _ => .lt
  | some _, none => .gt
  | some a, some b => a.cmp b

namespace SortOrder

/-- Bodies by the values at the fields, the first difference deciding. -/
def cmpFields (a b : Body) : List FieldPath → Ordering
  | [] => .eq
  | path :: rest =>
    (cmpMissingFirst (Body.resolve? a path) (Body.resolve? b path)).then (cmpFields a b rest)

/-- Bodies in the direction of the sort. -/
def cmp (sort : SortOrder) (a b : Body) : Ordering :=
  sort.direction.orient (cmpFields a b sort.fields)

/-- Sorts by the bodies of the elements; elements that tie keep their order. -/
def sortBy {α : Type} (sort : SortOrder) (body : α → Body) (xs : List α) : List α :=
  xs.mergeSort fun x y => (sort.cmp (body x) (body y)).isLE

end SortOrder

end DocFind
