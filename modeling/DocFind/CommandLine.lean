import DocFind.CommandLine.FileFault
import DocFind.CommandLine.LogPath
import DocFind.CommandLine.Usage
import DocFind.Database
import DocFind.Log.Routing

/-!
# The program

The program reads documents from a file of JSON lines into a new database, declares the indexes
named on the command line and answers one request. It is a function of its words and of what it
finds around it: files, the environment, the time a run takes and identifiers for documents
without one. If a directory for log files is named, they are opened before anything is read. A run
may read its own log files, so what a file holds depends on the records so far.
-/
namespace DocFind

/-- What the program finds around it. -/
structure Surroundings where
  /-- The text of a file once some records have been logged, or the reason why it cannot be
  read. -/
  fileText : List LogRecord → String → Except FileFault String
  /-- The reason why the log files cannot be opened, if they are asked for and cannot. -/
  logFault? : Option FileFault
  env : String → Option String
  elapsedMs : Nat
  newId : Nat → String

/-- What the program does: its exit code, what it prints, and the lines of its log files, by the
path of the file. -/
structure Report where
  exitCode : Nat
  stdout : String
  stderr : String
  logs : List (String × List String)
deriving Repr

/-- A run that was stopped by an error, with the records so far. -/
structure Aborted where
  reason : String
  records : List LogRecord

/-- A run in progress. -/
structure Progress where
  database : Database
  records : List LogRecord

namespace Progress

/-- Runs an operation that has to succeed. -/
def step {α : Type} (p : Progress) (run : Database → Outcome (Except Failure α)) :
    Except Aborted (α × Progress) :=
  let outcome := run p.database
  let records := p.records ++ outcome.records
  match outcome.answer with
  | .error failure => .error ⟨failure.message, records⟩
  | .ok answer => .ok (answer, ⟨outcome.database, records⟩)

/-- Adds a record. -/
def record (p : Progress) (r : LogRecord) : Progress := { p with records := p.records ++ [r] }

end Progress

/-- The settings of a run: those of the configuration file over the defaults, and those of the
environment over both. -/
def loadConfig (s : Surroundings) (path : Option String) : Except Failure FindConfig := do
  let config ← match path with
    | none => .ok FindConfig.default
    | some path =>
      match s.fileText [] path with
      | .error fault => .error (.io fault.text)
      | .ok text => FindConfig.ofToml text
  config.withOverrides s.env

/-- The fields of an index on the command line: the pieces between commas, without the blanks
around them and without the empty ones. -/
def indexFields (spec : String) : List String :=
  ((splitAt ',' spec.toList).map trimChars).filterMap fun cs =>
    if cs = [] then none else some (String.ofList cs)

/-- Declares indexes one after the other. -/
def declareIndexes (s : Surroundings) (collection : String) (p : Progress) :
    List String → Except Aborted Progress
  | [] => .ok p
  | spec :: rest => do
    let (_, p) ← p.step fun db =>
      db.createIndex collection (indexFields spec) none s.elapsedMs
    declareIndexes s collection p rest

/-- Loads the documents of a command, one from each line that is not blank, and declares its
indexes. -/
def loadDocuments (s : Surroundings) (source : QuerySource) (p : Progress) :
    Except Aborted Progress := do
  let (_, p) ← p.step fun db => db.createCollection source.collection
  match s.fileText p.records source.docs with
  | .error fault => .error ⟨fault.text, p.records⟩
  | .ok text =>
    let texts := (lines text).filter fun line => trimChars line.toList ≠ []
    let (n, p) ← p.step fun db => db.insertJson source.collection s.newId texts
    let p := p.record
      (.info ("loaded " ++ toString n ++ " documents from " ++ source.docs))
    declareIndexes s source.collection p source.indexes

/-- Runs a command and returns what it prints, with the records. -/
def runCommand (s : Surroundings) (i : Invocation) : Except Aborted (String × List LogRecord) := do
  let config ← (loadConfig s i.config).mapError fun failure => ⟨failure.message, []⟩
  let start : Progress := ⟨.new config, []⟩
  match i.command with
  | .find source metrics =>
    let p ← loadDocuments s source start
    let (result, p) ← p.step fun db => db.find source.collection source.query s.elapsedMs
    let counters := if metrics then p.database.counters.text else ""
    .ok (result.toJson.pretty ++ "\n" ++ counters, p.records)
  | .explain source =>
    let p ← loadDocuments s source start
    let (report, p) ← p.step fun db => db.explain source.collection source.query
    .ok (report.pretty ++ "\n", p.records)

/-- The log files of some records, by path: none unless a directory was named. -/
def logFiles (env : String → Option String) (i : Invocation) (records : List LogRecord) :
    List (String × List String) :=
  match i.logDir with
  | none => []
  | some dir =>
    let setup := LogSetup.build i.logLevel false
    setup.appenders.map fun appender =>
      (LogPath.expand env (LogPath.join dir (LogSetup.fileName appender)),
        setup.linesOf appender records)

/-- Runs the program. -/
def runProgram (words : List String) (s : Surroundings) : Report :=
  match Invocation.ofWords words with
  | .error (.help topic) => ⟨0, topic.text, "", []⟩
  | .error .version => ⟨0, versionText, "", []⟩
  | .error (.fault fault) => ⟨2, "", "error: " ++ fault.text ++ "\n", []⟩
  | .ok i =>
    match s.logFault?, runCommand s i with
    | some fault, _ => ⟨1, "", "error: " ++ fault.text ++ "\n", []⟩
    | none, .error aborted =>
      ⟨1, "", "error: " ++ aborted.reason ++ "\n", logFiles s.env i aborted.records⟩
    | none, .ok (text, records) => ⟨0, text, "", logFiles s.env i records⟩

end DocFind
