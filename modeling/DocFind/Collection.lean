import DocFind.Execution
import DocFind.Index.FieldIndex

/-!
# Collections

A collection holds documents by identifier, a catalog, and an index for every definition in it.
Every write keeps the indexes in step with the documents. A value of this type is a snapshot:
later writes make other values and do not touch it.
-/
namespace DocFind

structure Collection where
  documents : Entries Document
  catalog : IndexCatalog
  indexes : Entries FieldIndex
deriving Repr

/-- An index of a collection as it is listed. -/
structure IndexInfo where
  definition : IndexDefinition
  entries : Nat
deriving Repr

namespace Collection

/-- The collection without documents. -/
def empty : Collection where
  documents := []
  catalog := .initial
  indexes := [(primaryIndexName, .empty .primary)]

def document? (c : Collection) (id : String) : Option Document := Entries.get? id c.documents

def size (c : Collection) : Nat := c.documents.length

def index? (c : Collection) (name : String) : Option FieldIndex := Entries.get? name c.indexes

/-- Writes a document over the one with its identifier, which is returned. -/
def put (c : Collection) (d : Document) : Option Document × Collection :=
  let old := c.document? d.id
  let cleared := match old with
    | some o => Entries.mapValues (fun index => index.remove o) c.indexes
    | none => c.indexes
  (old, { c with
    documents := Entries.put d.id d c.documents
    indexes := Entries.mapValues (fun index => index.insert d) cleared })

/-- Writes documents one after the other. -/
def putAll (c : Collection) (docs : List Document) : Collection :=
  docs.foldl (fun c d => (c.put d).2) c

/-- Drops the document with an identifier, which is returned. -/
def remove (c : Collection) (id : String) : Option Document × Collection :=
  match c.document? id with
  | none => (none, c)
  | some d =>
    (some d, { c with
      documents := Entries.remove id c.documents
      indexes := Entries.mapValues (fun index => index.remove d) c.indexes })

/-- The documents that some JSON texts write; `newId` supplies the identifiers of those without
one, by their place in the list. -/
def documentsOfJson (newId : Nat → String) (texts : List String) :
    Except Failure (List Document) :=
  texts.zipIdx.mapM fun (text, place) => Document.fromJson (newId place) text

/-- Declares an index over the current documents. -/
def createIndex (c : Collection) (fields : List String) (name : Option String) :
    Except Failure (FieldIndex × Collection) := do
  let paths ← (fields.mapM FieldPath.parse).mapError Failure.invalidFieldPath
  let definition : IndexDefinition := ⟨name.getD (IndexDefinition.defaultName paths), paths⟩
  let catalog ← c.catalog.add definition
  let index := FieldIndex.build definition (Entries.values c.documents)
  .ok (index, { c with
    catalog := catalog
    indexes := Entries.put definition.name index c.indexes })

/-- Drops a declared index. -/
def deleteIndex (c : Collection) (name : String) : Except Failure Collection := do
  let (_, catalog) ← c.catalog.remove name
  .ok { c with catalog := catalog, indexes := Entries.remove name c.indexes }

/-- The indexes in the order of declaration. -/
def indexInfos (c : Collection) : List IndexInfo :=
  c.catalog.definitions.map fun d => ⟨d, ((c.index? d.name).map FieldIndex.count).getD 0⟩

/-- The documents in the order of an index that the collection holds under the given name. -/
def source (c : Collection) : DocumentSource where
  scan definition range direction :=
    match c.index? definition.name with
    | none => .error (.noSuchIndex definition.name)
    | some index => .ok ((index.scan range direction).filterMap c.document?)

end Collection

end DocFind
