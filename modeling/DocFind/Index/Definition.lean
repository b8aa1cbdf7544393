import DocFind.Document
import DocFind.FieldPath

/-!
# Index definitions

An index has a name and a list of fields. Every collection has an index over the identifiers of
its documents, the primary one.
-/
namespace DocFind

structure IndexDefinition where
  name : String
  fields : List FieldPath
deriving DecidableEq, Repr

/-- The name of the primary index. -/
def primaryIndexName : String := "_all_docs"

namespace IndexDefinition

/-- The index over the identifiers. -/
def primary : IndexDefinition := ⟨primaryIndexName, [FieldPath.root.joinSegment idField]⟩

def isPrimary (d : IndexDefinition) : Bool := d.name = primaryIndexName

/-- The name of an index declared without one. -/
def defaultName (fields : List FieldPath) : String :=
  String.intercalate "-" (fields.map FieldPath.text)

end IndexDefinition

end DocFind
