import DocFind.CommandLine
import DocFind.Document.Identifier
import Std.Time

/-!
# The command line

Gathers what the program needs to know of its surroundings, runs it, prints what it says and
appends to its log files. A run is a function of the time that it takes: it is timed on a first
pass.
-/
namespace DocFind

/-- The number that the operating system gives to a failure. Some are counted down from zero. -/
def numberOf? : IO.Error → Option Nat
  | .noFileOrDirectory _ n _ => some (positive n)
  | .permissionDenied _ n _ => some (positive n)
  | .alreadyExists _ n _ => some (positive n)
  | .inappropriateType _ n _ => some (positive n)
  | .invalidArgument _ n _ => some (positive n)
  | _ => none
where
  positive (n : UInt32) : Nat := (min n (0 - n)).toNat

/-- The reason of a failure. -/
def faultOf (failure : IO.Error) : FileFault :=
  ((numberOf? failure).bind FileFault.ofNumber?).getD (.other (toString failure))

/-- The text of a file, or the reason why it cannot be read. -/
def readText (path : String) : IO (Except FileFault String) := do
  match ← (IO.FS.readBinFile path).toBaseIO with
  | .error failure => return .error (faultOf failure)
  | .ok bytes =>
    match String.fromUTF8? bytes with
    | some text => return .ok text
    | none => return .error .notText

/-- The files that a command reads. -/
def Invocation.files (i : Invocation) : List String :=
  let source := match i.command with
    | .find source _ => source
    | .explain source => source
  i.config.toList ++ [source.docs]

/-- The variables that hold settings. -/
def settingVariables : List String :=
  ["MANGOLITE_DEFAULT_LIMIT", "MANGOLITE_MAX_LIMIT", "MANGOLITE_SLOW_QUERY_MS",
    "MANGOLITE_TIE_BREAK"]

/-- The variables that a run may ask for. -/
def variablesOf (invocation : Option Invocation) : List String :=
  let dir := (invocation.bind Invocation.logDir).getD ""
  settingVariables ++ (LogPath.references dir.toList).map String.ofList

/-- Makes a directory and those above it. -/
def makeDirectories (path : String) : IO Unit := do
  match ← (IO.FS.createDir path).toBaseIO with
  | .ok () => return ()
  | .error failure =>
    match faultOf failure with
    | .notFound | .taken => IO.FS.createDirAll path
    | _ => throw failure

/-- Opens log files, in a directory that is made first, and returns the reason if that fails. -/
def openLogs (dir : Option String) (paths : List String) : IO (Option FileFault) := do
  let opened ← EIO.toBaseIO do
    if let some dir := dir then
      makeDirectories dir
    for path in paths do
      makeDirectories (LogPath.directory path)
      discard (IO.FS.Handle.mk path .append)
  match opened with
  | .ok () => return none
  | .error failure => return some (faultOf failure)

/-- The place that a path leads to, if there is something. -/
def placeOf (path : String) : IO (Option String) := do
  match ← (IO.FS.realPath path).toBaseIO with
  | .ok place => return some place.toString
  | .error _ => return none

/-- A file that a command reads, as it is before the run. -/
structure FileFound where
  path : String
  place : Option String
  text : Except FileFault String

/-- The text of a file behind which the lines of its own log files have been written, each behind a
time. -/
def FileFound.textAfter (file : FileFound) (places : Entries (Option String)) (time : String)
    (logs : List (String × List String)) : Except FileFault String :=
  let written := logs.filter fun (path, _) =>
    file.place.isSome && (Entries.get? path places).bind id = file.place
  file.text.map fun text =>
    text ++ textOfLines ((written.flatMap Prod.snd).map fun line => time ++ " " ++ line)

/-- The current time in log files. -/
def timeText : IO String := do
  return (← Std.Time.PlainDateTime.now).format "uuuu-MM-dd HH:mm:ss.SSS"

/-- What a run finds around it when it takes no time. The log files are opened and the other ones
read before it. -/
def gather (invocation : Option Invocation) : IO Surroundings := do
  let values ← (variablesOf invocation).mapM fun name => return (name, ← IO.getEnv name)
  let env := fun name => (Entries.get? name values).bind id
  let logs := fun records => (invocation.map fun i => logFiles env i records).getD []
  let logPaths := (logs []).map Prod.fst
  let logFault? ← openLogs (invocation.bind Invocation.logDir) logPaths
  let places ← logPaths.mapM fun path => return (path, ← placeOf path)
  let files ← ((invocation.map Invocation.files).getD []).mapM fun path =>
    return (⟨path, ← placeOf path, ← readText path⟩ : FileFound)
  let time ← timeText
  let bytes ← IO.getRandomBytes 16
  let bits := bytes.toList.foldl (fun bits byte => 256 * bits + byte.toNat) 0
  return {
    fileText records path :=
      match files.find? fun file => file.path = path with
      | some file => file.textAfter places time (logs records)
      | none => .error .notFound
    logFault?
    env
    elapsedMs := 0
    newId n := Identifier.ofBits (bits + n) }

/-- Appends lines to a log file, each behind the current time. -/
def appendLines (path : String) (lines : List String) : IO Unit := do
  let file ← IO.FS.Handle.mk path .append
  let time ← timeText
  for line in lines do
    file.putStrLn (time ++ " " ++ line)

/-- Writes what a run leaves behind and prints what it says. -/
def deliver (report : Report) : IO Unit := do
  for (path, lines) in report.logs do
    appendLines path lines
  IO.print report.stdout
  IO.eprint report.stderr

/-- Runs the program and returns its exit code. -/
def runTimed (words : List String) : IO UInt32 := do
  let invocation := (Invocation.ofWords words).toOption
  let surroundings ← gather invocation
  let started ← IO.monoMsNow
  let timed := runProgram words surroundings
  let stopped ← if timed.exitCode = 0 then IO.monoMsNow else pure started
  let report := runProgram words { surroundings with elapsedMs := stopped - started }
  deliver report
  return report.exitCode.toUInt32

end DocFind

def main (words : List String) : IO UInt32 := DocFind.runTimed words
