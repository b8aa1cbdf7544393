import DocFind.Execution
import DocFind.Log

/-!
# Finding documents

A find plans a request against a catalog, runs the plan on a source and reports what the plan
meant for the caller. It leaves a record of the plan and one of the run.
-/
namespace DocFind

/-- The documents of a find, with the facts of its plan. -/
structure FindResult where
  docs : List Body
  warning : Option String
  stats : ExecutionStats
  elapsedMs : Nat
  /-- Whether the statistics were asked for. -/
  includeStats : Bool
  index : String
  fullScan : Bool
deriving Repr

namespace FindResult

/-- The result as it is shown. -/
def toJson (result : FindResult) : Json :=
  .object <|
    [("docs", .array (result.docs.map Value.bodyToJson))] ++
    (if result.includeStats then
      [("execution_stats", result.stats.toJson result.elapsedMs)] else []) ++
    (result.warning.toList.map fun w => ("warning", .string w))

/-- The values of a field in the order of the results, where there is one. -/
def valuesOf (result : FindResult) (field : String) : List Value :=
  result.docs.filterMap (Entries.get? field)

end FindResult

namespace ScanPlan

/-- The record of a plan. -/
def planRecord (plan : ScanPlan) : LogRecord :=
  .debug ("plan index=" ++ plan.index.name ++ " covered=" ++ toString plan.covered ++
    " residual=" ++ toString plan.residual.isSome ++
    " sort_in_memory=" ++ toString plan.sortInMemory)

/-- The record of a scan that several copies were asked to serve. -/
def quorumRecords (plan : ScanPlan) : List LogRecord :=
  if 1 < plan.r ∧ 0 < plan.limit then
    [.debug ("r=" ++ toString plan.r ++ " served by the single local copy")]
  else []

/-- The bench line of a run. -/
def benchRecord (plan : ScanPlan) (stats : ExecutionStats) (elapsedMs : Nat) : LogRecord :=
  .bench (Json.compact (.object [
    ("bench", .string "query"),
    ("op", .string "find"),
    ("index", .string plan.index.name),
    ("duration_ms", .ofNat elapsedMs),
    ("used_index", .bool !plan.isFullScan),
    ("sort_in_memory", .bool plan.sortInMemory),
    ("docs_examined", .ofNat stats.docsExamined),
    ("result_count", .ofNat stats.returned),
    ("limit", .ofNat plan.limit),
    ("skip", .ofNat plan.skip)]))

/-- What a run of this plan yields to the caller. -/
def result (plan : ScanPlan) (execution : Execution) (elapsedMs : Nat) : FindResult where
  docs := execution.docs
  warning := plan.warning.map Warning.text
  stats := execution.stats
  elapsedMs := elapsedMs
  includeStats := plan.executionStats
  index := plan.index.name
  fullScan := plan.isFullScan

end ScanPlan

/-- Plans a request and runs it, with the records of doing so. -/
def find (source : DocumentSource) (catalog : IndexCatalog) (config : FindConfig)
    (request : FindRequest) (elapsedMs : Nat) : Except Failure FindResult × List LogRecord :=
  let plan := ScanPlan.ofRequest request catalog config.tieBreak
  match plan.execute source with
  | .error failure => (.error failure, [plan.planRecord])
  | .ok execution =>
    (.ok (plan.result execution elapsedMs),
      plan.planRecord :: plan.quorumRecords ++
        [plan.benchRecord execution.stats elapsedMs])

/-- The plan of a request, with the record of it. -/
def explain (catalog : IndexCatalog) (config : FindConfig) (request : FindRequest) :
    Json × List LogRecord :=
  let plan := ScanPlan.ofRequest request catalog config.tieBreak
  (plan.explain, [plan.planRecord])

end DocFind
