import DocFind.Index.Range
import DocFind.Selector

/-!
# Constraints on fields

The conjuncts of a selector are its parts under any nesting of conjunctions. An equality or a
bound among them constrains its field; whatever stands under another combinator, a negation or an
element match constrains nothing. For a field the first equality counts, and the tightest of its
lower and of its upper bounds. Conjuncts are known by their position.
-/
namespace DocFind

namespace Selector

mutual

/-- The parts of a selector under its conjunctions, in order. -/
def conjuncts : Selector → List Selector
  | combine .and children => conjunctsOfAll children
  | combine .or children => [combine .or children]
  | combine .nor children => [combine .nor children]
  | not child => [not child]
  | field path test => [field path test]
  | elemMatch path inner => [elemMatch path inner]

def conjunctsOfAll : List Selector → List Selector
  | [] => []
  | s :: rest => s.conjuncts ++ conjunctsOfAll rest

end

end Selector

/-- What the conjuncts say of one field. -/
structure FieldConstraint where
  /-- The position and the operand of the first equality. -/
  equality : Option (Nat × Value)
  lower : Bound Value
  upper : Bound Value
  /-- The positions of all bounds. -/
  boundPositions : List Nat
deriving Repr

namespace FieldConstraint

def none : FieldConstraint := ⟨.none, .unbounded, .unbounded, []⟩

/-- The tighter of two bounds; `wins` is the outcome of comparing the new limit with the current
one that makes the new bound tighter. Of two bounds at one limit an excluded one is tighter. -/
def tighter (wins : Ordering) (current new : Bound Value) : Bound Value :=
  match current, new with
  | .unbounded, _ => new
  | _, .unbounded => current
  | .included a, .included b => if b.cmp a = wins then new else current
  | .excluded a, .included b => if b.cmp a = wins then new else current
  | .included a, .excluded b => if b.cmp a = wins ∨ b.cmp a = .eq then new else current
  | .excluded a, .excluded b => if b.cmp a = wins ∨ b.cmp a = .eq then new else current

/-- Takes in a comparison at a position. An inequality says nothing that a scan could use. -/
def add (c : FieldConstraint) (position : Nat) (op : Comparison) (operand : Value) :
    FieldConstraint :=
  match op with
  | .eq => if c.equality.isSome then c else { c with equality := some (position, operand) }
  | .ne => c
  | .gt => bound { c with lower := tighter .gt c.lower (.excluded operand) }
  | .gte => bound { c with lower := tighter .gt c.lower (.included operand) }
  | .lt => bound { c with upper := tighter .lt c.upper (.excluded operand) }
  | .lte => bound { c with upper := tighter .lt c.upper (.included operand) }
where
  bound (c : FieldConstraint) : FieldConstraint :=
    { c with boundPositions := c.boundPositions ++ [position] }

end FieldConstraint

/-- The conjuncts of a selector. -/
structure Constraints where
  conjuncts : List Selector
deriving Repr

namespace Constraints

def ofSelector (s : Selector) : Constraints := ⟨s.conjuncts⟩

/-- The comparison that a conjunct makes of the field at a path, if a scan can use it. -/
def usable? (path : FieldPath) : Selector → Option (Comparison × Value)
  | .field p (.compare op operand) =>
    if p = path ∧ p.isRoot = false ∧ op ≠ .ne then some (op, operand) else none
  | _ => none

/-- The usable comparisons of a field, with their positions. -/
def comparisons (c : Constraints) (path : FieldPath) : List (Nat × Comparison × Value) :=
  c.conjuncts.zipIdx.filterMap fun (s, position) =>
    (usable? path s).map fun (op, operand) => (position, op, operand)

/-- The constraint on a field, if any conjunct makes one. -/
def on? (c : Constraints) (path : FieldPath) : Option FieldConstraint :=
  match c.comparisons path with
  | [] => none
  | found => some (found.foldl (fun k (position, op, operand) => k.add position op operand)
      FieldConstraint.none)

/-- How many of the leading fields are constrained. -/
def covered (c : Constraints) (fields : List FieldPath) : Nat :=
  (fields.takeWhile fun path => (c.on? path).isSome).length

/-- The conjuncts but for those at some positions. -/
def unused (c : Constraints) (used : List Nat) : List Selector :=
  c.conjuncts.zipIdx.filterMap fun (s, position) => if position ∈ used then none else some s

/-- The selector without the conjuncts at some positions, if anything is left. -/
def residual (c : Constraints) (used : List Nat) : Option Selector :=
  let rest := c.unused used
  if rest.isEmpty then none else some (Selector.conjoin rest)

end Constraints

end DocFind
