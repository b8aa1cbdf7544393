import DocFind.CommandLine

/-!
# Runs over a tree of files

A run can be given a tree of directories, files and links in place of a disk. A path is followed
part by part: every part but the last has to be a directory, an empty part or a dot stays there,
and two dots go up. A directory is made with those above it that are missing; a dot at the end of a
path asks for a directory that is there already.

Log files are part of the tree: a run sees what it has written so far, and leaves the tree with
all of it.
-/
namespace DocFind

/-- The names from the root of a tree down to a node. -/
abbrev Place := List String

/-- A file, a directory, or a link to another place, where there is no link. -/
inductive FileNode where
  | file (text : String)
  | directory (entries : List (String × FileNode))
  | link (target : Place)
deriving Repr, Inhabited

/-- A tree of files, the place where paths without a leading slash start, and the directories that
take no new names. -/
structure FileTree where
  root : FileNode
  base : Place
  fixed : List Place
deriving Repr

namespace FileNode

/-- The node at a place below another one. -/
def at? : Place → FileNode → Option FileNode
  | [], node => some node
  | name :: place, .directory entries => (Entries.get? name entries).bind (at? place)
  | _ :: _, _ => none

/-- The node with another one at a place below it, in directories that are made if they are not
there. Anything else on the way stays as it is. -/
def put (node new : FileNode) : Place → FileNode
  | [] => new
  | name :: place =>
    match node with
    | .directory entries =>
      let below := (Entries.get? name entries).getD (.directory [])
      .directory (Entries.put name (below.put new place) entries)
    | other => other

end FileNode

namespace FileTree

/-- Puts a node at a place. -/
def put (t : FileTree) (place : Place) (new : FileNode) : FileTree :=
  { t with root := t.root.put new place }

/-- Gives a name in a directory to a new node. -/
def make (t : FileTree) (above : Place) (name : String) (new : FileNode) :
    Except FileFault FileTree :=
  if above ∈ t.fixed then .error .notFound else .ok (t.put (above ++ [name]) new)

/-! ## Paths -/

/-- The most bytes of a name. -/
def maxName : Nat := 255

/-- The most bytes of a path. -/
def maxPath : Nat := 4095

/-- A path: where it starts and its parts between slashes. -/
structure Path where
  start : Place
  parts : List String

/-- Reads a path, which may not be too long. -/
def path (t : FileTree) (text : String) : Except FileFault Path :=
  if maxPath < text.utf8ByteSize then .error .nameTooLong
  else .ok ⟨if text.toList.head? = some '/' then [] else t.base,
    (splitAt '/' text.toList).map String.ofList⟩

/-- Goes on from a place by one part of a path. -/
def step (t : FileTree) (place : Place) (part : String) : Except FileFault Place :=
  match t.root.at? place with
  | some (.directory entries) =>
    if part = "" ∨ part = "." then .ok place
    else if part = ".." then .ok place.dropLast
    else if maxName < part.utf8ByteSize then .error .nameTooLong
    else match Entries.get? part entries with
      | none => .error .notFound
      | some (.link target) => .ok target
      | some _ => .ok (place ++ [part])
  | _ => .error .notDirectory

/-- Follows a path. -/
def follow (t : FileTree) (p : Path) : Except FileFault Place := p.parts.foldlM t.step p.start

/-- The text of a file. -/
def read (t : FileTree) (text : String) : Except FileFault String := do
  let place ← t.follow (← t.path text)
  match t.root.at? place with
  | some (.file text) => .ok text
  | _ => .error .isDirectory

/-! ## Directories -/

/-- Follows a path up to its last part, slashes at the end aside. -/
def followAbove (t : FileTree) (p : Path) : Except FileFault (Place × String) := do
  let parts := (p.parts.reverse.dropWhile (· = "")).reverse
  let place ← t.follow { p with parts := parts.dropLast }
  .ok (place, parts.getLastD "")

/-- Makes a directory, unless there is one already. -/
def makeDirectory (t : FileTree) (p : Path) : Except FileFault FileTree := do
  let (above, name) ← t.followAbove p
  match t.step above name with
  | .error .notFound => t.make above name (.directory [])
  | .error fault => .error fault
  | .ok _ =>
    match (t.follow p).toOption.bind fun place => t.root.at? place with
    | some (.directory _) => .ok t
    | _ => .error .taken

/-- Makes a directory, and those above it if it has no place to go: `above` holds their names from
the lowest one up. -/
def makeUnder (t : FileTree) (p : Path) (above : List String) : Except FileFault FileTree :=
  match t.makeDirectory p, above with
  | .error .notFound, name :: above => do
    let t ← t.makeUnder { p with parts := (name :: above).reverse } above
    t.makeDirectory p
  | made, _ => made
termination_by above.length

/-- Makes a directory and those above it. -/
def makeDirectories (t : FileTree) (text : String) : Except FileFault FileTree := do
  let p ← t.path text
  t.makeUnder p (p.parts.filter fun part => part ≠ "" ∧ part ≠ ".").dropLast.reverse

/-! ## Log files -/

/-- Adds lines to a file, which is made if it is not there. -/
def append (t : FileTree) (text : String) (lines : List String) : Except FileFault FileTree := do
  let (above, name) ← t.followAbove (← t.path text)
  match t.step above name with
  | .error .notFound => t.make above name (.file (textOfLines lines))
  | .error fault => .error fault
  | .ok place =>
    match t.root.at? place with
    | some (.file before) => .ok (t.put place (.file (before ++ textOfLines lines)))
    | _ => .error .isDirectory

/-- The time in the log files of a run over a tree. -/
def stamp : String := "1970-01-01 00:00:00.000 "

/-- Adds lines to log files. -/
def writeLogs (t : FileTree) (logs : List (String × List String)) : Except FileFault FileTree :=
  logs.foldlM (fun t (path, lines) => t.append path (lines.map (stamp ++ ·))) t

/-- What a run finds that takes no time, `logs` being its log files after some records. -/
def surroundings (t : FileTree) (logs : List LogRecord → List (String × List String))
    (env : String → Option String) (newId : Nat → String) : Surroundings :=
  { fileText := fun records path => do (← t.writeLogs (logs records)).read path
    logFault? := none
    env
    elapsedMs := 0
    newId }

/-- Opens log files, in a directory that is made first: the directories that their paths lead into
are made as well. -/
def openLogs (t : FileTree) (dir : Option String) (paths : List String) :
    Except FileFault FileTree := do
  let made ← (dir.map t.makeDirectories).getD (.ok t)
  paths.foldlM (fun t path => do (← t.makeDirectories (LogPath.directory path)).append path []) made

/-- Runs the program over a tree, and returns the tree that it leaves. -/
def run (t : FileTree) (words : List String) (env : String → Option String)
    (newId : Nat → String) : Report × FileTree :=
  let invocation := (Invocation.ofWords words).toOption
  let logs := fun records => (invocation.map fun i => logFiles env i records).getD []
  let dir := invocation.bind Invocation.logDir
  match t.openLogs dir ((logs []).map Prod.fst) with
  | .error fault =>
    (runProgram words { t.surroundings logs env newId with logFault? := some fault }, t)
  | .ok opened =>
    let report := runProgram words (opened.surroundings logs env newId)
    (report, (opened.writeLogs report.logs).toOption.getD opened)

end FileTree

end DocFind
