import DocFind.Document
import DocFind.Plan
import DocFind.Projection
import DocFind.Selector.Matching

/-!
# Running a plan

A run scans, keeps what the residual admits, sorts if it has to, skips, limits and shapes. Without
a sort of its own it stops at the document that fills the limit, and counts what it has seen.
-/
namespace DocFind

/-- Access to documents in the order of an index. -/
structure DocumentSource where
  /-- The documents of a range in the order of the entries, or the refusal of an unknown index. -/
  scan : IndexDefinition → ScanRange → Direction → Except Failure (List Document)

/-- What a run examined and returned. -/
structure ExecutionStats where
  keysExamined : Nat
  docsExamined : Nat
  returned : Nat
deriving DecidableEq, Repr

/-- What a run yields. -/
structure Execution where
  docs : List Body
  stats : ExecutionStats
deriving Repr

/-- The statistics as they are shown. -/
def ExecutionStats.toJson (stats : ExecutionStats) (elapsedMs : Nat) : Json :=
  .object [("execution_time_ms", .ofNat elapsedMs),
    ("results_returned", .ofNat stats.returned),
    ("total_docs_examined", .ofNat stats.docsExamined),
    ("total_keys_examined", .ofNat stats.keysExamined)]

/-- The first elements that pass, behind `skip` of them and up to the limit, and how many elements
were looked at to fill it. `room` is what the limit leaves behind the next element. -/
def collect {α : Type} (keep : α → Bool) (skip room : Nat) : List α → List α × Nat
  | [] => ([], 0)
  | x :: rest =>
    if keep x then
      match skip, room with
      | skip + 1, room =>
        let (xs, seen) := collect keep skip room rest
        (xs, seen + 1)
      | 0, 0 => ([x], 1)
      | 0, room + 1 =>
        let (xs, seen) := collect keep 0 room rest
        (x :: xs, seen + 1)
    else
      let (xs, seen) := collect keep skip room rest
      (xs, seen + 1)

namespace ScanPlan

/-- Whether a document passes the residual. -/
def keeps (plan : ScanPlan) (d : Document) : Bool := plan.residual.all fun s => s.accepts d.body

/-- What is returned of a document: its body, with the lost revisions if they are asked for,
reduced to the listed fields. -/
def shape (plan : ScanPlan) (d : Document) : Body :=
  let body :=
    if plan.conflicts && !d.conflicts.isEmpty then
      Entries.put conflictsField (.array (d.conflicts.map Value.string)) d.body
    else d.body
  match plan.fields with
  | some fields => Body.project fields body
  | none => body

/-- Sorts documents if the plan has an order. -/
def sorted (plan : ScanPlan) (docs : List Document) : List Document :=
  match plan.sort with
  | some sort => sort.sortBy Document.body docs
  | none => docs

/-- The documents that a plan selects, and how many it examined. -/
def select (plan : ScanPlan) (source : DocumentSource) : Except Failure (List Document × Nat) :=
  match plan.limit with
  | 0 => .ok ([], 0)
  | room + 1 => do
    let scanned ← source.scan plan.index plan.range plan.direction
    if plan.sortInMemory then
      .ok (((plan.sorted (scanned.filter plan.keeps)).drop plan.skip).take plan.limit,
        scanned.length)
    else .ok (collect plan.keeps plan.skip room scanned)

/-- Runs a plan. -/
def execute (plan : ScanPlan) (source : DocumentSource) : Except Failure Execution := do
  let (docs, examined) ← plan.select source
  .ok ⟨docs.map plan.shape, ⟨examined, examined, docs.length⟩⟩

end ScanPlan

end DocFind
