import DocFind.Failure
import DocFind.Log

/-!
# Counters

A database counts its finds, the requests it refused, the finds that scanned an index in full and
the slow ones. A count is a word of 64 bits, and the one behind the greatest is zero.
-/
namespace DocFind

structure Counters where
  queries : UInt64
  clientErrors : UInt64
  fullScans : UInt64
  slowQueries : UInt64
deriving DecidableEq, Repr

/-- One find, as it is recorded. -/
structure QueryRecord where
  collection : String
  index : String
  fullScan : Bool
  durationMs : Nat
  docsExamined : Nat
  results : Nat
deriving DecidableEq, Repr

/-- The line of a find. -/
def QueryRecord.line (q : QueryRecord) : String :=
  Json.compact (.object [
    ("collection", .string q.collection),
    ("docs_examined", .ofNat q.docsExamined),
    ("duration_ms", .ofNat q.durationMs),
    ("full_scan", .bool q.fullScan),
    ("index", .string q.index),
    ("results", .ofNat q.results)])

/-- A duration as a word of 64 bits; longer ones count as the longest. -/
def saturate (duration : Nat) : Nat := min duration 0xFFFFFFFFFFFFFFFF

namespace Counters

def zero : Counters := ⟨0, 0, 0, 0⟩

/-- Counts a refused request. -/
def recordClientError (c : Counters) (collection : String) (failure : Failure) :
    Counters × List LogRecord :=
  ({ c with clientErrors := c.clientErrors + 1 },
    [.info ("rejected find on " ++ collection ++ ": " ++ failure.message)])

/-- Counts a find, which is slow from `slowQueryMs` on. -/
def recordQuery (c : Counters) (q : QueryRecord) (slowQueryMs : Nat) :
    Counters × List LogRecord :=
  let slow := slowQueryMs ≤ q.durationMs
  ({ c with
      queries := c.queries + 1
      fullScans := c.fullScans + if q.fullScan then 1 else 0
      slowQueries := c.slowQueries + if slow then 1 else 0 },
    .info q.line :: if slow then [.slow ("slow query: " ++ q.line)] else [])

/-- The counters by name. -/
def entries (c : Counters) : List (String × Nat) :=
  [("queries_total", c.queries.toNat), ("client_errors_total", c.clientErrors.toNat),
    ("full_scans_total", c.fullScans.toNat), ("slow_queries_total", c.slowQueries.toNat)]

/-- The text exposition: a line for every counter. -/
def text (c : Counters) : String :=
  String.join (c.entries.map fun (name, n) => "mangolite_" ++ name ++ " " ++ toString n ++ "\n")

end Counters

end DocFind
