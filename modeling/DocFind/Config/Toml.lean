import DocFind.Entries

/-!
# Settings in TOML

Of TOML the settings need integers, texts, tables and empty lists. A table is filled by the keys
under its header, by dotted keys, or between braces. No key is set twice: what a table may still
take in depends on how it came about.
-/
namespace DocFind.Toml

/-- How a table came about. -/
inductive TableForm where
  /-- Implied by the header of a table in it. Its own header may still follow. -/
  | implied
  /-- Opened by its header. -/
  | declared
  /-- Implied by a dotted key. Further dotted keys may add to it. -/
  | dotted
  /-- Written between braces, and complete. -/
  | braced
deriving DecidableEq, Repr

/-- The value of a setting. -/
inductive Setting where
  | integer (n : Int)
  | text (s : String)
  | emptyList
  | table (form : TableForm) (entries : List (String × Setting))
deriving Repr, Inhabited

/-- Settings by key, in the order in which the keys were first written. -/
abbrev Table := Entries Setting

/-- Whether a list or a table holds nothing. -/
def Setting.isEmpty : Setting → Bool
  | .emptyList => true
  | .table _ entries => entries.isEmpty
  | _ => false

namespace Table

/-- Changes the table at the end of a path. The tables on the way have to admit it by their forms;
those that are not there are made, with the form `new`. -/
def changeAt? (admits : TableForm → Bool) (new : TableForm) (change : Table → Option Table) :
    List String → Table → Option Table
  | [], table => change table
  | key :: path, table =>
    match Entries.get? key table with
    | none =>
      (changeAt? admits new change path []).map fun inner =>
        Entries.put key (.table new inner) table
    | some (.table form inner) =>
      if admits form then
        (changeAt? admits new change path inner).map fun inner =>
          Entries.put key (.table form inner) table
      else none
    | some _ => none

/-- Sets a key that is not set yet. -/
def add? (key : String) (value : Setting) (table : Table) : Option Table :=
  if Entries.has key table then none else some (Entries.put key value table)

/-- Sets a dotted key. -/
def assign? (path : List String) (value : Setting) (table : Table) : Option Table :=
  path.getLast?.bind fun key =>
    changeAt? (· = .dotted) .dotted (add? key value) path.dropLast table

/-- Opens the table of a key: a new one, or one that was implied. -/
def openTable? (key : String) (table : Table) : Option Table :=
  match Entries.get? key table with
  | none => some (Entries.put key (.table .declared []) table)
  | some (.table .implied inner) => some (Entries.put key (.table .declared inner) table)
  | some _ => none

/-- Takes in a header. -/
def declare? (path : List String) (table : Table) : Option Table :=
  path.getLast?.bind fun key =>
    changeAt? (· ≠ .braced) .implied (openTable? key) path.dropLast table

/-- Sets a dotted key under a header that was taken in. -/
def assignUnder? (header path : List String) (value : Setting) (table : Table) : Option Table :=
  changeAt? (fun _ => true) .declared (assign? path value) header table

end Table

end DocFind.Toml
