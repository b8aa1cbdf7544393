import DocFind.Index.Key

/-!
# Ranges of an index

A range lies between two bounds on keys. Ranges are derived from a prefix of values and the bounds
of the next part; a range over a next part never holds keys in which that part is missing. The
bounds on keys become bounds on entries through an entry without document, which comes before
every stored entry of its key.
-/
namespace DocFind

/-- One end of a range. -/
inductive Bound (α : Type) where
  | unbounded
  | included (a : α)
  | excluded (a : α)
deriving Repr, DecidableEq

namespace Bound

variable {α β : Type}

def map (f : α → β) : Bound α → Bound β
  | unbounded => unbounded
  | included a => included (f a)
  | excluded a => excluded (f a)

/-- Whether `x` is past a lower bound. -/
def admitsAbove (cmp : α → α → Ordering) (x : α) : Bound α → Bool
  | unbounded => true
  | included a => (cmp a x).isLE
  | excluded a => cmp a x == .lt

/-- Whether `x` is before an upper bound. -/
def admitsBelow (cmp : α → α → Ordering) (x : α) : Bound α → Bool
  | unbounded => true
  | included a => (cmp x a).isLE
  | excluded a => cmp x a == .lt

end Bound

/-- The keys between two bounds. -/
structure ScanRange where
  lower : Bound IndexKey
  upper : Bound IndexKey
deriving Repr

namespace ScanRange

/-- Every key. -/
def full : ScanRange := ⟨.unbounded, .unbounded⟩

/-- The keys that begin with `key`. -/
def startingWith (key : IndexKey) : ScanRange := ⟨.included key, .excluded (key.snoc .greatest)⟩

/-- The keys that begin with `key` and whose next part is a value between the bounds. -/
def bounded (key : IndexKey) (lower upper : Bound Value) : ScanRange where
  lower := match lower with
    | .included v => .included (key.snoc (.value v))
    | .excluded v => .excluded ((key.snoc (.value v)).snoc .greatest)
    | .unbounded => .excluded ((key.snoc .missing).snoc .greatest)
  upper := match upper with
    | .included v => .excluded ((key.snoc (.value v)).snoc .greatest)
    | .excluded v => .excluded (key.snoc (.value v))
    | .unbounded => .excluded (key.snoc .greatest)

/-- Whether a key lies in a range. -/
def holds (range : ScanRange) (key : IndexKey) : Bool :=
  range.lower.admitsAbove IndexKey.cmp key && range.upper.admitsBelow IndexKey.cmp key

/-- Whether the bounds leave no room for a key. -/
def isEmpty (range : ScanRange) : Bool :=
  match range.lower, range.upper with
  | .included s, .included e => s.cmp e == .gt
  | .included s, .excluded e => (s.cmp e).isGE
  | .excluded s, .excluded e => (s.cmp e).isGE
  | .excluded s, .included e => (s.cmp e).isGE
  | _, _ => false

/-- The bounds on entries. -/
def entryBounds (range : ScanRange) : Bound IndexEntry × Bound IndexEntry :=
  (range.lower.map fun key => ⟨key, ""⟩, range.upper.map fun key => ⟨key, ""⟩)

/-- A bound as it is shown: its key, or null, and whether the key belongs to the range. -/
def boundJson : Bound IndexKey → Json × Bool
  | .unbounded => (.null, true)
  | .included key => (key.toJson, true)
  | .excluded key => (key.toJson, false)

/-- A range as it is shown. -/
def toJson (range : ScanRange) : Json :=
  .object [("end_key", (boundJson range.upper).1),
    ("inclusive_end", .bool (boundJson range.upper).2),
    ("inclusive_start", .bool (boundJson range.lower).2),
    ("start_key", (boundJson range.lower).1)]

end ScanRange

end DocFind
