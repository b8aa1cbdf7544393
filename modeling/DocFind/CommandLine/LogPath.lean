import DocFind.Text.Alphanumeric

/-!
# Paths of log files

A log file has a name of its own in the directory of the log files. The path of the directory may
refer to variables of the environment: a reference is the mark `$ENV`, and the name of a variable
between braces behind it. A reference to a variable that is not set stays as it is, and so does one
that is not closed or holds something else than a name.
-/
namespace DocFind

/-- Puts a text in place of every occurrence of another one, which is not empty. Occurrences are
found from the left and do not overlap. `skip` counts the characters of an occurrence that are
still to be passed. -/
def replaceAll (old new : List Char) (skip : Nat) : List Char → List Char
  | [] => []
  | c :: cs =>
    match skip with
    | skip + 1 => replaceAll old new skip cs
    | 0 =>
      if old.isPrefixOf (c :: cs) then new ++ replaceAll old new (old.length - 1) cs
      else c :: replaceAll old new 0 cs

namespace LogPath

/-- What stands in front of the name of a variable. -/
def mark : List Char := "$ENV\x7b".toList

/-- The reference to a variable. -/
def reference (name : List Char) : List Char := mark ++ name ++ ['\x7d']

/-- Reads the name of a variable up to the closing brace. It holds letters, digits, underscores and
dots, and does not start with a dot. -/
def readName? (cs : List Char) : Option (List Char) :=
  let name := cs.takeWhile fun c => isAlphanumeric c || c = '_' || c = '.'
  match name, cs.drop name.length with
  | [], _ => none
  | '.' :: _, _ => none
  | name, '\x7d' :: _ => some name
  | _, _ => none

/-- The names of the variables that a path refers to, in order and as often as it does. -/
def references : List Char → List (List Char)
  | [] => []
  | c :: cs =>
    let here := if mark.isPrefixOf (c :: cs) then readName? ((c :: cs).drop mark.length) else none
    here.toList ++ references cs

/-- The path with the values of variables in place of the references to them. Every reference in
the path is looked up once. If its variable is set, the value comes in place of that reference
everywhere, also where another value has brought it in. -/
def expand (env : String → Option String) (path : String) : String :=
  String.ofList ((references path.toList).foldl (fun expanded name =>
    match env (String.ofList name) with
    | none => expanded
    | some value => replaceAll (reference name) value.toList 0 expanded) path.toList)

/-- The path of a name in a directory. -/
def join (dir name : String) : String :=
  if dir.toList.getLast?.all (· = '/') then dir ++ name else dir ++ "/" ++ name

/-- A path read from its end, without the slashes there and the dots behind slashes. -/
def trimEnd : List Char → List Char
  | '/' :: cs => trimEnd cs
  | '.' :: '/' :: cs => trimEnd cs
  | cs => cs

/-- The directory that a path of a file leads into. -/
def directory (path : String) : String :=
  match trimEnd (path.toList.reverse.dropWhile (· ≠ '/')) with
  | [] => if path.toList.head? = some '/' then "/" else "."
  | cs => String.ofList cs.reverse

end LogPath

end DocFind
