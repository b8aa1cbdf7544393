/-!
# Faults of files

Why a file or a directory cannot be used. Most reasons are those of the operating system, which
knows them by numbers.
-/
namespace DocFind

/-- Why a file or a directory cannot be used. -/
inductive FileFault where
  | notFound
  | permissionDenied
  /-- Something else has the name already. -/
  | taken
  /-- A part of the path that has to be a directory is none. -/
  | notDirectory
  | isDirectory
  | nameTooLong
  /-- The bytes encode no text. -/
  | notText
  | other (reason : String)
deriving DecidableEq, Repr

namespace FileFault

/-- The reasons of the operating system, with their numbers. -/
def numbered : List (Nat × FileFault) :=
  [(2, notFound), (13, permissionDenied), (17, taken), (20, notDirectory), (21, isDirectory),
    (36, nameTooLong)]

def ofNumber? (number : Nat) : Option FileFault :=
  (numbered.find? fun (n, _) => n = number).map Prod.snd

def number? (fault : FileFault) : Option Nat :=
  (numbered.find? fun (_, f) => f = fault).map Prod.fst

def reason : FileFault → String
  | notFound => "No such file or directory"
  | permissionDenied => "Permission denied"
  | taken => "File exists"
  | notDirectory => "Not a directory"
  | isDirectory => "Is a directory"
  | nameTooLong => "File name too long"
  | notText => "stream did not contain valid UTF-8"
  | other reason => reason

/-- The reason, with the number that it has. -/
def text (fault : FileFault) : String :=
  match fault.number? with
  | some n => fault.reason ++ " (os error " ++ toString n ++ ")"
  | none => fault.reason

end FileFault

end DocFind
