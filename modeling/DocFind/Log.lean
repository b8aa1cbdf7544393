import DocFind.Json.Printer

/-!
# Log records

Records carry a level, a target and a text. The targets tell queries, slow queries and bench lines
apart.
-/
namespace DocFind

/-- The severity of a record. -/
inductive LogLevel where
  | error
  | warn
  | info
  | debug
  | trace
deriving DecidableEq, Repr

namespace LogLevel

def text : LogLevel → String
  | error => "ERROR"
  | warn => "WARN"
  | info => "INFO"
  | debug => "DEBUG"
  | trace => "TRACE"

/-- Levels from the gravest to the finest, above zero. -/
def rank : LogLevel → Nat
  | error => 1
  | warn => 2
  | info => 3
  | debug => 4
  | trace => 5

end LogLevel

/-- The part of the program that a record speaks for. -/
inductive LogTarget where
  | query
  | metrics
  | bench
deriving DecidableEq, Repr

def LogTarget.text : LogTarget → String
  | query => "mangolite::query"
  | metrics => "mangolite::metrics"
  | bench => "mangolite::dev6"

structure LogRecord where
  level : LogLevel
  target : LogTarget
  text : String
deriving DecidableEq, Repr

namespace LogRecord

/-- A record of a request or of a change. -/
def info (text : String) : LogRecord := ⟨.info, .query, text⟩

/-- A record of a detail. -/
def debug (text : String) : LogRecord := ⟨.debug, .query, text⟩

/-- A record of a slow find. -/
def slow (text : String) : LogRecord := ⟨.warn, .metrics, text⟩

/-- A bench line. -/
def bench (text : String) : LogRecord := ⟨.trace, .bench, text⟩

end LogRecord

end DocFind
