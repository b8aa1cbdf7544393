import DocFind.Failure
import DocFind.Value.Json

/-!
# Documents

A document has an identifier, which its body repeats under `_id` as a text that is not empty, and
the revisions that lost to it.
-/
namespace DocFind

/-- The field of the identifier. -/
def idField : String := "_id"

/-- The field of the revision. -/
def revisionField : String := "_rev"

/-- The field under which lost revisions are shown. -/
def conflictsField : String := "_conflicts"

/-- A stored document. -/
structure Document where
  id : String
  body : Body
  conflicts : List String
deriving Repr

namespace Document

/-- The document with a body. A body without identifier gets `newId`, as its last field. -/
def ofBody (newId : String) (body : Body) : Except Failure Document :=
  match Entries.get? idField body with
  | some (.string s) =>
    if s = "" then .error (.invalidDocument (.badId (Value.string s).text))
    else .ok ⟨s, body, []⟩
  | some v => .error (.invalidDocument (.badId v.text))
  | none => .ok ⟨newId, Entries.put idField (.string newId) body, []⟩

/-- The body that a JSON text writes. -/
def bodyOfJson (text : String) : Except DocumentFault Body :=
  match Json.parse text with
  | .error fault => .error (.malformed fault)
  | .ok j =>
    match Value.ofJson j with
    | .document entries => .ok entries
    | _ => .error .notObject

/-- The document that a JSON text writes. -/
def fromJson (newId : String) (text : String) : Except Failure Document := do
  let body ← (bodyOfJson text).mapError Failure.invalidDocument
  ofBody newId body

/-- The same document with other lost revisions. -/
def withConflicts (conflicts : List String) (d : Document) : Document := { d with conflicts }

/-- The revision, if the body has a text there. -/
def revision? (d : Document) : Option String :=
  match Entries.get? revisionField d.body with
  | some (.string s) => some s
  | _ => none

end Document

end DocFind
