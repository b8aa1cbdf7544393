import DocFind.FieldPath
import DocFind.Value

/-!
# Projection

A projection keeps the listed fields of a document, inside the mappings that contain them. Only
mappings are followed: positions in arrays are not projected. A path that leads nowhere leaves no
trace.
-/
namespace DocFind

/-- Copies the field that the segments lead to from one body to another, merging it into what is
there. Nothing is copied if they lead nowhere. -/
def copyField? (source : Body) : List String → Body → Option Body
  | [], _ => none
  | [key], target => (Entries.get? key source).map fun v => Entries.put key v target
  | key :: next :: rest, target =>
    match Entries.get? key source with
    | some (.document inner) =>
      let present := match Entries.get? key target with
        | some (.document entries) => entries
        | _ => []
      (copyField? inner (next :: rest) present).map fun entries =>
        Entries.put key (.document entries) target
    | _ => none

namespace Body

/-- The body with the listed fields only. -/
def project (fields : List FieldPath) (body : Body) : Body :=
  fields.foldl (fun target path => (copyField? body path.segments target).getD target) []

end Body

end DocFind
