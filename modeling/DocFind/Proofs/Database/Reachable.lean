import DocFind.Database
import DocFind.Proofs.Collection.Consistency

/-!
# Reachable databases

The operations on a database act on one collection at a time. Whatever operations have been run,
every collection is one that writes make of a new collection, so what holds of all such collections
holds inside every database.
-/
namespace DocFind

theorem Collection.run_concat (c : Collection) (writes : List Write) (w : Write) :
    c.run (writes ++ [w]) = (c.run writes).write w := by
  simp [run]

namespace Database

variable {db : Database} {name : String} {c : Collection}

/-- An operation on a database, with what it is given. -/
inductive Operation where
  | createCollection (name : String)
  | dropCollection (name : String)
  | insertDocument (name : String) (d : Document)
  | insertMany (name : String) (docs : List Document)
  | insertJson (name : String) (newId : Nat → String) (texts : List String)
  | deleteDocument (name id : String)
  | createIndex (name : String) (fields : List String) (indexName : Option String)
      (elapsedMs : Nat)
  | deleteIndex (name indexName : String)
  | findRequest (name : String) (request : FindRequest) (elapsedMs : Nat)
  | find (name body : String) (elapsedMs : Nat)
  | explain (name body : String)

/-- The database after an operation. -/
def after (db : Database) : Operation → Database
  | .createCollection name => (db.createCollection name).database
  | .dropCollection name => (db.dropCollection name).database
  | .insertDocument name d => (db.insertDocument name d).database
  | .insertMany name docs => (db.insertMany name docs).database
  | .insertJson name newId texts => (db.insertJson name newId texts).database
  | .deleteDocument name id => (db.deleteDocument name id).database
  | .createIndex name fields indexName elapsedMs =>
    (db.createIndex name fields indexName elapsedMs).database
  | .deleteIndex name indexName => (db.deleteIndex name indexName).database
  | .findRequest name request elapsedMs => (db.findRequest name request elapsedMs).database
  | .find name body elapsedMs => (db.find name body elapsedMs).database
  | .explain name body => (db.explain name body).database

/-- The database after operations one after the other. -/
def run (db : Database) (ops : List Operation) : Database := ops.foldl after db

/-- The settings are as they were, and every collection was there, is one write further or is
new. -/
structure Follows (next db : Database) : Prop where
  config : next.config = db.config
  collections : ∀ name c, next.collection? name = some c → db.collection? name = some c ∨
    (∃ old w, db.collection? name = some old ∧ c = old.write w) ∨ c = .empty

theorem Follows.of_collections {next : Database} (hconfig : next.config = db.config)
    (h : next.collections = db.collections) : Follows next db := by
  refine ⟨hconfig, fun name c hc => .inl ?_⟩
  rwa [collection?, h] at hc

theorem Follows.refl (db : Database) : Follows db db := .of_collections rfl rfl

theorem collection?_withCollection (db : Database) (name other : String) (c : Collection) :
    (db.withCollection name c).collection? other =
      if name = other then some c else db.collection? other :=
  Entries.get?_put name other c db.collections

theorem Follows.write (hc : db.collection? name = some c) (w : Collection.Write) :
    Follows (db.withCollection name (c.write w)) db := by
  refine ⟨rfl, fun other d hd => ?_⟩
  rw [collection?_withCollection] at hd
  split_ifs at hd with hname
  · obtain rfl := Option.some.inj hd
    exact .inr (.inl ⟨c, w, hname ▸ hc, rfl⟩)
  · exact .inl hd

theorem onCollection_of_some {α : Type} {run : Collection → Outcome (Except Failure α)}
    (hc : db.collection? name = some c) : db.onCollection name run = run c := by
  rw [onCollection, hc]

theorem Follows.onCollection {α : Type} {run : Collection → Outcome (Except Failure α)}
    (h : ∀ c, db.collection? name = some c → Follows (run c).database db) :
    Follows (db.onCollection name run).database db := by
  cases hc : db.collection? name with
  | none =>
    rw [Database.onCollection, hc]
    exact .refl db
  | some c =>
    rw [onCollection_of_some hc]
    exact h c hc

/-! ## Each operation -/

theorem createCollection_follows (db : Database) (name : String) :
    Follows (db.createCollection name).database db := by
  rw [createCollection]
  split_ifs
  · exact .refl db
  · exact .refl db
  · refine ⟨rfl, fun other c hc => ?_⟩
    rw [collection?_withCollection] at hc
    split_ifs at hc
    · exact .inr (.inr (Option.some.inj hc).symm)
    · exact .inl hc

theorem dropCollection_follows (db : Database) (name : String) :
    Follows (db.dropCollection name).database db := by
  refine ⟨rfl, fun other c hc => .inl ?_⟩
  have hremove := Entries.get?_remove name other db.collections
  have hget : Entries.get? other (Entries.remove name db.collections) = some c := hc
  rw [hremove] at hget
  split_ifs at hget
  exact hget

theorem insertDocument_follows (db : Database) (name : String) (d : Document) :
    Follows (db.insertDocument name d).database db :=
  .onCollection fun _ hc => .write hc (.insert d)

theorem insertMany_follows (db : Database) (name : String) (docs : List Document) :
    Follows (db.insertMany name docs).database db :=
  .onCollection fun _ hc => .write hc (.insertMany docs)

theorem insertJson_follows (db : Database) (name : String) (newId : Nat → String)
    (texts : List String) : Follows (db.insertJson name newId texts).database db := by
  refine .onCollection fun c hc => ?_
  cases Collection.documentsOfJson newId texts with
  | error failure => exact .refl db
  | ok docs => exact insertMany_follows db name docs

theorem deleteDocument_follows (db : Database) (name id : String) :
    Follows (db.deleteDocument name id).database db :=
  .onCollection fun _ hc => .write hc (.delete id)

theorem createIndex_follows (db : Database) (name : String) (fields : List String)
    (indexName : Option String) (elapsedMs : Nat) :
    Follows (db.createIndex name fields indexName elapsedMs).database db := by
  refine .onCollection fun c hc => ?_
  have hwrite := Follows.write hc (.createIndex fields indexName)
  rw [Collection.write] at hwrite
  cases hcreate : c.createIndex fields indexName with
  | error failure => exact .refl db
  | ok created =>
    rw [hcreate] at hwrite
    exact hwrite

theorem deleteIndex_follows (db : Database) (name indexName : String) :
    Follows (db.deleteIndex name indexName).database db := by
  refine .onCollection fun c hc => ?_
  have hwrite := Follows.write hc (.deleteIndex indexName)
  rw [Collection.write] at hwrite
  cases hdelete : c.deleteIndex indexName with
  | error failure => exact .refl db
  | ok next =>
    rw [hdelete] at hwrite
    exact hwrite

theorem refuse_follows {α : Type} (db : Database) (name : String) (failure : Failure) :
    Follows (db.refuse name failure : Outcome (Except Failure α)).database db := by
  rw [refuse]
  split
  · exact .of_collections rfl rfl
  · exact .refl db

theorem findRequest_follows (db : Database) (name : String) (request : FindRequest)
    (elapsedMs : Nat) : Follows (db.findRequest name request elapsedMs).database db := by
  refine .onCollection fun c _ => ?_
  split
  · exact .refl db
  · exact .of_collections rfl rfl

theorem find_follows (db : Database) (name body : String) (elapsedMs : Nat) :
    Follows (db.find name body elapsedMs).database db := by
  refine .onCollection fun c _ => ?_
  split
  · exact refuse_follows db name _
  · exact findRequest_follows db name _ elapsedMs

theorem explain_follows (db : Database) (name body : String) :
    Follows (db.explain name body).database db := by
  refine .onCollection fun c _ => ?_
  split
  · exact refuse_follows db name _
  · exact .refl db

theorem after_follows (db : Database) (op : Operation) : Follows (db.after op) db := by
  cases op with
  | createCollection name => exact createCollection_follows db name
  | dropCollection name => exact dropCollection_follows db name
  | insertDocument name d => exact insertDocument_follows db name d
  | insertMany name docs => exact insertMany_follows db name docs
  | insertJson name newId texts => exact insertJson_follows db name newId texts
  | deleteDocument name id => exact deleteDocument_follows db name id
  | createIndex name fields indexName elapsedMs =>
    exact createIndex_follows db name fields indexName elapsedMs
  | deleteIndex name indexName => exact deleteIndex_follows db name indexName
  | findRequest name request elapsedMs => exact findRequest_follows db name request elapsedMs
  | find name body elapsedMs => exact find_follows db name body elapsedMs
  | explain name body => exact explain_follows db name body

/-! ## Runs -/

/-- Every collection comes from writes on a new one. -/
def Reached (db : Database) : Prop :=
  ∀ name c, db.collection? name = some c → ∃ writes, c = Collection.empty.run writes

theorem Follows.reached {next : Database} (hf : Follows next db) (h : db.Reached) :
    next.Reached := by
  intro name c hc
  rcases hf.collections name c hc with hsame | ⟨old, w, hold, rfl⟩ | rfl
  · exact h name c hsame
  · obtain ⟨writes, rfl⟩ := h name old hold
    exact ⟨writes ++ [w], (Collection.run_concat _ writes w).symm⟩
  · exact ⟨[], rfl⟩

theorem Reached.run (h : db.Reached) (ops : List Operation) : (db.run ops).Reached := by
  induction ops generalizing db with
  | nil => exact h
  | cons op ops ih => exact ih ((after_follows db op).reached h)

theorem run_config (db : Database) (ops : List Operation) : (db.run ops).config = db.config := by
  induction ops generalizing db with
  | nil => rfl
  | cons op ops ih => exact (ih (db.after op)).trans (after_follows db op).config

theorem new_reached (config : FindConfig) : (new config).Reached := by
  intro name c hc
  cases hc

/-- Inside a reachable database every collection is consistent. -/
theorem run_consistent {config : FindConfig} {ops : List Operation}
    (hc : ((new config).run ops).collection? name = some c) : c.Consistent := by
  obtain ⟨writes, rfl⟩ := (new_reached config).run ops name c hc
  exact Collection.empty_consistent.run writes

end Database

end DocFind
