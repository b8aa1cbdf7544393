import DocFind.Index.Definition
import DocFind.Index.Range
import DocFind.SortOrder

/-!
# Ordered indexes

An index holds one entry for every document, in ascending order and without repetition, and counts
its entries as they come and go. A scan returns the identifiers inside a range, in the order of
the entries or in the reverse of it.
-/
namespace DocFind

namespace IndexEntry

/-- Adds an entry unless it is there. -/
def insert (e : IndexEntry) : List IndexEntry → List IndexEntry
  | [] => [e]
  | f :: rest =>
    match e.cmp f with
    | .lt => e :: f :: rest
    | .eq => f :: rest
    | .gt => f :: insert e rest

/-- Drops an entry if it is there. -/
def remove (e : IndexEntry) : List IndexEntry → List IndexEntry
  | [] => []
  | f :: rest =>
    match e.cmp f with
    | .lt => f :: rest
    | .eq => rest
    | .gt => f :: remove e rest

/-- Whether an entry is there. -/
def isIn (e : IndexEntry) (entries : List IndexEntry) : Bool :=
  entries.any fun f => e.cmp f == .eq

/-- The ascending entries between two bounds. -/
def between (bounds : Bound IndexEntry × Bound IndexEntry) (entries : List IndexEntry) :
    List IndexEntry :=
  (entries.dropWhile fun e => !bounds.1.admitsAbove cmp e).takeWhile fun e =>
    bounds.2.admitsBelow cmp e

end IndexEntry

/-- An index with its entries and their number. -/
structure FieldIndex where
  definition : IndexDefinition
  entries : List IndexEntry
  count : Nat
deriving Repr

namespace FieldIndex

/-- The index without entries. -/
def empty (definition : IndexDefinition) : FieldIndex := ⟨definition, [], 0⟩

/-- The entry of a document. -/
def entryOf (index : FieldIndex) (d : Document) : IndexEntry :=
  ⟨IndexKey.ofBody index.definition.fields d.body, d.id⟩

def insert (index : FieldIndex) (d : Document) : FieldIndex :=
  let e := index.entryOf d
  if e.isIn index.entries then index
  else { index with entries := e.insert index.entries, count := index.count + 1 }

def remove (index : FieldIndex) (d : Document) : FieldIndex :=
  let e := index.entryOf d
  if e.isIn index.entries then
    { index with entries := e.remove index.entries, count := index.count - 1 }
  else index

/-- The index over a list of documents. -/
def build (definition : IndexDefinition) (documents : List Document) : FieldIndex :=
  documents.foldl insert (empty definition)

/-- The identifiers in a range. -/
def scan (index : FieldIndex) (range : ScanRange) (direction : Direction) : List String :=
  if range.isEmpty then []
  else
    direction.arrange ((IndexEntry.between range.entryBounds index.entries).map IndexEntry.id)

end FieldIndex

end DocFind
