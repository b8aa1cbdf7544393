import DocFind.Collection
import DocFind.Counters
import DocFind.Find

/-!
# Databases

A database holds collections by name, the settings of find requests, and counters. Operations
answer with the next database and the records of what they did; one that is refused changes
nothing but the count of refused requests.
-/
namespace DocFind

structure Database where
  config : FindConfig
  collections : Entries Collection
  counters : Counters
deriving Repr

/-- What an operation answers, the database after it, and its records. -/
structure Outcome (α : Type) where
  answer : α
  database : Database
  records : List LogRecord

namespace Database

/-- The database without collections. -/
def new (config : FindConfig) : Database := ⟨config, [], .zero⟩

def collection? (db : Database) (name : String) : Option Collection :=
  Entries.get? name db.collections

/-- The names of the collections, ascending. -/
def collectionNames (db : Database) : List String :=
  (Entries.sortByKey db.collections).map Prod.fst

/-- An answer that changes and records nothing. -/
def unchanged {α : Type} (db : Database) (answer : α) : Outcome α := ⟨answer, db, []⟩

/-- The database with another state of a collection. -/
def withCollection (db : Database) (name : String) (c : Collection) : Database :=
  { db with collections := Entries.put name c db.collections }

/-! ## Collections -/

/-- Creates a collection. -/
def createCollection (db : Database) (name : String) : Outcome (Except Failure Unit) :=
  if name = "" then db.unchanged (.error (.invalidRequest .emptyCollectionName))
  else if (db.collection? name).isSome then
    db.unchanged (.error (.collectionAlreadyExists name))
  else ⟨.ok (), db.withCollection name .empty, [.info ("created collection " ++ name)]⟩

/-- Drops a collection and tells whether it was there. -/
def dropCollection (db : Database) (name : String) : Outcome Bool :=
  ⟨(db.collection? name).isSome,
    { db with collections := Entries.remove name db.collections }, []⟩

/-- Runs an operation on a collection that has to be there. -/
def onCollection {α : Type} (db : Database) (name : String)
    (run : Collection → Outcome (Except Failure α)) : Outcome (Except Failure α) :=
  match db.collection? name with
  | none => db.unchanged (.error (.noSuchCollection name))
  | some c => run c

/-! ## Documents -/

/-- Writes a document over the one with its identifier, which is returned. -/
def insertDocument (db : Database) (name : String) (d : Document) :
    Outcome (Except Failure (Option Document)) :=
  db.onCollection name fun c =>
    let (old, c) := c.put d
    ⟨.ok old, db.withCollection name c, [.debug (name ++ ": put " ++ d.id)]⟩

/-- Writes documents and returns their number. -/
def insertMany (db : Database) (name : String) (docs : List Document) :
    Outcome (Except Failure Nat) :=
  db.onCollection name fun c =>
    ⟨.ok docs.length, db.withCollection name (c.putAll docs), []⟩

/-- Writes the documents of some JSON texts and returns their number. All texts are read before
anything is written. -/
def insertJson (db : Database) (name : String) (newId : Nat → String) (texts : List String) :
    Outcome (Except Failure Nat) :=
  db.onCollection name fun _ =>
    match Collection.documentsOfJson newId texts with
    | .error failure => db.unchanged (.error failure)
    | .ok docs => db.insertMany name docs

/-- Drops the document with an identifier, which is returned. -/
def deleteDocument (db : Database) (name id : String) :
    Outcome (Except Failure (Option Document)) :=
  db.onCollection name fun c =>
    let (old, c) := c.remove id
    ⟨.ok old, db.withCollection name c, []⟩

/-! ## Indexes -/

/-- Declares an index over the documents of a collection. -/
def createIndex (db : Database) (name : String) (fields : List String)
    (indexName : Option String) (elapsedMs : Nat) : Outcome (Except Failure IndexDefinition) :=
  db.onCollection name fun c =>
    match c.createIndex fields indexName with
    | .error failure => db.unchanged (.error failure)
    | .ok (index, c) =>
      ⟨.ok index.definition, db.withCollection name c,
        [.info (name ++ ": built index " ++ index.definition.name ++ " over " ++
          toString index.count ++ " docs in " ++ toString elapsedMs ++ "ms")]⟩

/-- Drops a declared index. -/
def deleteIndex (db : Database) (name indexName : String) : Outcome (Except Failure Unit) :=
  db.onCollection name fun c =>
    match c.deleteIndex indexName with
    | .error failure => db.unchanged (.error failure)
    | .ok c => ⟨.ok (), db.withCollection name c, []⟩

/-- The indexes of a collection in the order of declaration. -/
def listIndexes (db : Database) (name : String) : Except Failure (List IndexInfo) :=
  match db.collection? name with
  | none => .error (.noSuchCollection name)
  | some c => .ok c.indexInfos

/-! ## Finds -/

/-- Counts a refused request if it was the caller's fault. -/
def refuse {α : Type} (db : Database) (name : String) (failure : Failure) :
    Outcome (Except Failure α) :=
  if failure.isClientError then
    let (counters, records) := db.counters.recordClientError name failure
    ⟨.error failure, { db with counters }, records⟩
  else db.unchanged (.error failure)

/-- Runs a request on a collection and counts it. -/
def findRequest (db : Database) (name : String) (request : FindRequest) (elapsedMs : Nat) :
    Outcome (Except Failure FindResult) :=
  db.onCollection name fun c =>
    match DocFind.find c.source c.catalog db.config request elapsedMs with
    | (.error failure, records) => ⟨.error failure, db, records⟩
    | (.ok result, records) =>
      let (counters, more) := db.counters.recordQuery
        { collection := name
          index := result.index
          fullScan := result.fullScan
          durationMs := saturate elapsedMs
          docsExamined := result.stats.docsExamined
          results := result.stats.returned } db.config.slowQueryMs
      ⟨.ok result, { db with counters }, records ++ more⟩

/-- Runs the request that a JSON text writes. -/
def find (db : Database) (name body : String) (elapsedMs : Nat) :
    Outcome (Except Failure FindResult) :=
  db.onCollection name fun _ =>
    match FindRequest.fromJson db.config body with
    | .error failure => db.refuse name failure
    | .ok request => db.findRequest name request elapsedMs

/-- The plan of the request that a JSON text writes. -/
def explain (db : Database) (name body : String) : Outcome (Except Failure Json) :=
  db.onCollection name fun c =>
    match FindRequest.fromJson db.config body with
    | .error failure => db.refuse name failure
    | .ok request =>
      let (report, records) := DocFind.explain c.catalog db.config request
      ⟨.ok report, db, records⟩

end Database

end DocFind
