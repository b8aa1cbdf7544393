import DocFind.Log

/-!
# Log files

Records go to the file of the logger that is named after their target, or else to the general
one. Slow finds have a file of their own; bench lines have one if they are asked for and are
dropped otherwise.
-/
namespace DocFind

/-- The finest level that is let through. -/
inductive LogFilter where
  | off
  | upTo (level : LogLevel)
deriving DecidableEq, Repr

namespace LogFilter

def text : LogFilter → String
  | off => "OFF"
  | upTo level => level.text

/-- The filter that a name asks for, in any case. Without a name, or for an unknown one, it is
the informative level. -/
def ofName (name : Option String) : LogFilter :=
  match String.ofList ((name.getD "info").toList.map Char.toLower) with
  | "off" => off
  | "error" => upTo .error
  | "warn" => upTo .warn
  | "debug" => upTo .debug
  | "trace" => upTo .trace
  | _ => upTo .info

def admits (filter : LogFilter) (level : LogLevel) : Bool :=
  match filter with
  | off => false
  | upTo finest => level.rank ≤ finest.rank

end LogFilter

/-- What becomes of the records of one target. -/
structure Logger where
  filter : LogFilter
  appenders : List String
deriving DecidableEq, Repr

/-- The log files of a program and the way to them. -/
structure LogSetup where
  root : Logger
  appenders : List String
  loggers : List (LogTarget × Logger)
deriving DecidableEq, Repr

namespace LogSetup

/-- The files of a program that logs at a level, with or without bench lines. -/
def build (level : Option String) (bench : Bool) : LogSetup :=
  let filter := LogFilter.ofName level
  { root := ⟨filter, ["app"]⟩
    appenders := ["app", "metrics"] ++ if bench then ["dev6"] else []
    loggers :=
      [(.metrics, ⟨filter, ["metrics"]⟩),
        (.bench, if bench then ⟨.upTo .trace, ["dev6"]⟩ else ⟨.off, []⟩)] }

/-- The logger of a target. -/
def loggerOf (setup : LogSetup) (target : LogTarget) : Logger :=
  ((setup.loggers.find? fun (t, _) => t = target).map Prod.snd).getD setup.root

/-- The appenders that a record goes to. -/
def route (setup : LogSetup) (record : LogRecord) : List String :=
  let logger := setup.loggerOf record.target
  if logger.filter.admits record.level then logger.appenders else []

/-- The name of the file behind an appender. -/
def fileName (appender : String) : String := appender ++ ".log"

/-- The line of a record behind its time. -/
def line (record : LogRecord) : String :=
  "[" ++ record.level.text ++ "] " ++ record.target.text ++ " - " ++ record.text

/-- The lines that some records leave in the file of an appender. -/
def linesOf (setup : LogSetup) (appender : String) (records : List LogRecord) : List String :=
  (records.filter fun r => appender ∈ setup.route r).map line

end LogSetup

end DocFind
