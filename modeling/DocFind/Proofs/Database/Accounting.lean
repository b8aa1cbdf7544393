import DocFind.Proofs.Database.Answers

/-!
# Refused operations and counters

An operation is refused in exactly the cases that are listed here. A refused one leaves the
database as it was, but that a body refused on a collection that is there is counted. A find that
is answered is counted, and so is its scan if it is a full one; reading changes no collection.
-/
namespace DocFind

/-- An operation that is refused leaves the database as it was. -/
def Outcome.UndoneIfRefused {α : Type} (o : Outcome (Except Failure α)) (db : Database) : Prop :=
  Refused o.answer → o.database = db

/-- A text that writes no document: it is no object, or what it has as its identifier is no text or
an empty one. -/
def Document.Unreadable (text : String) : Prop :=
  ∀ body, Document.bodyOfJson text = .ok body →
    ∃ v, Entries.get? idField body = some v ∧ ∀ s, v = .string s → s = ""

/-- An index that cannot be declared: a field is no path, there is none, or the name or the list of
fields is taken. -/
def Collection.Undeclarable (c : Collection) (fields : List String) (name : Option String) : Prop :=
  (∃ raw ∈ fields, Refused (FieldPath.parse raw)) ∨ fields = [] ∨
    ∃ paths, fields.mapM FieldPath.parse = .ok paths ∧ ∃ d ∈ c.catalog.definitions,
      d.name = name.getD (IndexDefinition.defaultName paths) ∨ d.fields = paths

namespace Database

variable {db : Database} {name : String} {c : Collection}

/-- Whether an operation answers with a failure. -/
def Refuses (db : Database) : Operation → Prop
  | .createCollection name => Refused (db.createCollection name).answer
  | .dropCollection _ => False
  | .insertDocument name d => Refused (db.insertDocument name d).answer
  | .insertMany name docs => Refused (db.insertMany name docs).answer
  | .insertJson name newId texts => Refused (db.insertJson name newId texts).answer
  | .deleteDocument name id => Refused (db.deleteDocument name id).answer
  | .createIndex name fields indexName elapsedMs =>
    Refused (db.createIndex name fields indexName elapsedMs).answer
  | .deleteIndex name indexName => Refused (db.deleteIndex name indexName).answer
  | .findRequest name request elapsedMs => Refused (db.findRequest name request elapsedMs).answer
  | .find name body elapsedMs => Refused (db.find name body elapsedMs).answer
  | .explain name body => Refused (db.explain name body).answer

/-- Whether a collection is missing or rules something out. -/
def Bars (db : Database) (name : String) (excludes : Collection → Prop) : Prop :=
  match db.collection? name with
  | none => True
  | some c => excludes c

/-- Whether a database cannot do what an operation asks for. -/
def CannotDo (db : Database) : Operation → Prop
  | .createCollection name => name = "" ∨ (db.collection? name).isSome = true
  | .dropCollection _ => False
  | .insertDocument name _ | .insertMany name _ | .deleteDocument name _ | .findRequest name _ _ =>
    db.Bars name fun _ => False
  | .insertJson name _ texts => db.Bars name fun _ => ∃ text ∈ texts, Document.Unreadable text
  | .createIndex name fields indexName _ => db.Bars name fun c => c.Undeclarable fields indexName
  | .deleteIndex name indexName => db.Bars name fun c =>
    indexName = primaryIndexName ∨ ∀ d ∈ c.catalog.definitions, d.name ≠ indexName
  | .find name body _ | .explain name body =>
    db.Bars name fun _ => Refused (FindRequest.fromJson db.config body)

/-- The database with one refused request more. -/
def countRejection (db : Database) : Database :=
  { db with counters := { db.counters with clientErrors := db.counters.clientErrors + 1 } }

/-- The database behind the refusal of an operation: a body that was read on a collection is
counted. -/
def afterRefusal (db : Database) : Operation → Database
  | .find name _ _ | .explain name _ =>
    if (db.collection? name).isSome then db.countRejection else db
  | _ => db

/-- The database behind the find of a request on a collection. The scan is a full one if the
selector constrains no leading field of the index. -/
def afterFind (db : Database) (c : Collection) (request : FindRequest) (elapsedMs : Nat) :
    Database :=
  let plan := ScanPlan.ofRequest request c.catalog db.config.tieBreak
  let leading := plan.index.fields.head?.bind (Constraints.ofSelector request.selector).on?
  let slow := db.config.slowQueryMs ≤ saturate elapsedMs
  { db with counters := { db.counters with
    queries := db.counters.queries + 1
    fullScans := db.counters.fullScans + if leading.isNone then 1 else 0
    slowQueries := db.counters.slowQueries + if slow then 1 else 0 } }

/-! ## When operations are refused -/

theorem refused_onCollection {α : Type} {run : Collection → Outcome (Except Failure α)}
    {excludes : Collection → Prop} (h : ∀ c, Refused (run c).answer ↔ excludes c) :
    Refused (db.onCollection name run).answer ↔ db.Bars name excludes := by
  rw [onCollection, Bars]
  cases db.collection? name with
  | none => exact iff_of_true (refused_error _) trivial
  | some c => exact h c

end Database

namespace Document

theorem refused_ofBody (newId : String) (body : Body) : Refused (ofBody newId body) ↔
    ∃ v, Entries.get? idField body = some v ∧ ∀ s, v = .string s → s = "" := by
  rw [ofBody]
  split
  · rename_i s hid
    split_ifs with hs
    · exact iff_of_true (refused_error _) ⟨_, hid, fun t ht => (Value.string.inj ht) ▸ hs⟩
    · refine iff_of_false (not_refused_ok _) ?_
      rintro ⟨v, hv, hempty⟩
      obtain rfl := Option.some.inj (hid.symm.trans hv)
      exact hs (hempty s rfl)
  · rename_i v hno hid
    exact iff_of_true (refused_error _) ⟨v, hid, fun s hs => absurd hs (hno s)⟩
  · rename_i hid
    refine iff_of_false (not_refused_ok _) ?_
    rintro ⟨v, hv, -⟩
    rw [hid] at hv
    cases hv

/-- Whether a text is refused does not depend on the identifier that it may be given. -/
theorem refused_fromJson (newId text : String) :
    Refused (fromJson newId text) ↔ Unreadable text := by
  rw [fromJson, Unreadable]
  simp only [refused_bind, refused_mapError, mapError_eq_ok, refused_ofBody]
  cases bodyOfJson text with
  | error fault => simp
  | ok body => simp

end Document

namespace IndexCatalog

theorem refused_add (catalog : IndexCatalog) (d : IndexDefinition) : Refused (catalog.add d) ↔
    d.fields = [] ∨ ∃ e ∈ catalog.definitions, e.name = d.name ∨ e.fields = d.fields := by
  rw [add]
  split_ifs with hnil
  · exact iff_of_true (refused_error _) (.inl hnil)
  split
  · rename_i e hfind
    refine iff_of_true (refused_error _) (.inr ⟨e, List.mem_of_find?_eq_some hfind, ?_⟩)
    simpa using List.find?_some hfind
  · rename_i hfind
    refine iff_of_false (not_refused_ok _) ?_
    rintro (h | ⟨e, he, htaken⟩)
    · exact hnil h
    · have hfree := List.find?_eq_none.mp hfind e he
      simp [htaken] at hfree

theorem refused_remove (catalog : IndexCatalog) (name : String) : Refused (catalog.remove name) ↔
    name = primaryIndexName ∨ ∀ d ∈ catalog.definitions, d.name ≠ name := by
  rw [remove]
  split_ifs with hname
  · exact iff_of_true (refused_error _) (.inl hname)
  split
  · rename_i hget
    refine iff_of_true (refused_error _) (.inr fun d hd => ?_)
    simpa using List.find?_eq_none.mp hget d hd
  · rename_i d hget
    refine iff_of_false (not_refused_ok _) ?_
    rintro (h | hfree)
    · exact hname h
    · refine hfree d (List.mem_of_find?_eq_some hget) ?_
      simpa using List.find?_some hget

end IndexCatalog

namespace Collection

variable (c : Collection)

theorem refused_documentsOfJson (newId : Nat → String) (texts : List String) :
    Refused (documentsOfJson newId texts) ↔ ∃ text ∈ texts, Document.Unreadable text := by
  rw [documentsOfJson, refused_mapM]
  simp only [Document.refused_fromJson]
  constructor
  · rintro ⟨⟨text, place⟩, hmem, hbad⟩
    exact ⟨text, List.mem_of_getElem? (List.mem_zipIdx_iff_getElem?.mp hmem), hbad⟩
  · rintro ⟨text, hmem, hbad⟩
    obtain ⟨place, hplace⟩ := List.mem_iff_getElem?.mp hmem
    exact ⟨(text, place), List.mem_zipIdx_iff_getElem?.mpr hplace, hbad⟩

theorem refused_createIndex (fields : List String) (name : Option String) :
    Refused (c.createIndex fields name) ↔ c.Undeclarable fields name := by
  rw [createIndex, Undeclarable, ← refused_mapM]
  simp only [refused_bind, refused_mapError, mapError_eq_ok, not_refused_ok,
    IndexCatalog.refused_add, and_false, exists_false, or_false]
  cases hpaths : fields.mapM FieldPath.parse with
  | error fault => simp
  | ok paths =>
    have hnil : paths = [] ↔ fields = [] := by
      rw [← List.length_eq_zero_iff, ← List.length_eq_zero_iff, length_eq_of_mapM_ok hpaths]
    simp [hnil]

theorem refused_deleteIndex (name : String) : Refused (c.deleteIndex name) ↔
    name = primaryIndexName ∨ ∀ d ∈ c.catalog.definitions, d.name ≠ name := by
  rw [deleteIndex, refused_bind, IndexCatalog.refused_remove]
  simp

end Collection

namespace Database

variable {db : Database} {name : String} {c : Collection}

theorem refused_createCollection (db : Database) (name : String) :
    Refused (db.createCollection name).answer ↔
      name = "" ∨ (db.collection? name).isSome = true := by
  rw [createCollection]
  split_ifs with hempty htaken
  · exact iff_of_true (refused_error _) (.inl hempty)
  · exact iff_of_true (refused_error _) (.inr htaken)
  · exact iff_of_false (not_refused_ok _) (not_or.mpr ⟨hempty, htaken⟩)

theorem refused_insertMany (db : Database) (name : String) (docs : List Document) :
    Refused (db.insertMany name docs).answer ↔ db.Bars name fun _ => False :=
  refused_onCollection fun _ => iff_of_false (not_refused_ok _) id

theorem refused_insertJson (db : Database) (name : String) (newId : Nat → String)
    (texts : List String) : Refused (db.insertJson name newId texts).answer ↔
      db.Bars name fun _ => ∃ text ∈ texts, Document.Unreadable text := by
  rw [insertJson, onCollection, Bars]
  cases hc : db.collection? name with
  | none => exact iff_of_true (refused_error _) trivial
  | some c =>
    dsimp only
    rw [← Collection.refused_documentsOfJson newId texts]
    cases Collection.documentsOfJson newId texts with
    | error failure => exact iff_of_true (refused_error _) (refused_error _)
    | ok docs =>
      have hinsert := refused_insertMany db name docs
      rw [Bars, hc] at hinsert
      exact iff_of_false (fun h => hinsert.mp h) (not_refused_ok _)

theorem refused_createIndex (db : Database) (name : String) (fields : List String)
    (indexName : Option String) (elapsedMs : Nat) :
    Refused (db.createIndex name fields indexName elapsedMs).answer ↔
      db.Bars name fun c => c.Undeclarable fields indexName := by
  refine refused_onCollection fun c => ?_
  rw [← c.refused_createIndex]
  cases c.createIndex fields indexName with
  | error failure => exact iff_of_true (refused_error _) (refused_error _)
  | ok created => exact iff_of_false (not_refused_ok _) (not_refused_ok _)

theorem refused_deleteIndex (db : Database) (name indexName : String) :
    Refused (db.deleteIndex name indexName).answer ↔ db.Bars name fun c =>
      indexName = primaryIndexName ∨ ∀ d ∈ c.catalog.definitions, d.name ≠ indexName := by
  refine refused_onCollection fun c => ?_
  rw [← c.refused_deleteIndex]
  cases c.deleteIndex indexName with
  | error failure => exact iff_of_true (refused_error _) (refused_error _)
  | ok next => exact iff_of_false (not_refused_ok _) (not_refused_ok _)

theorem refused_explain (db : Database) (name body : String) :
    Refused (db.explain name body).answer ↔
      db.Bars name fun _ => Refused (FindRequest.fromJson db.config body) := by
  refine refused_onCollection fun c => ?_
  cases FindRequest.fromJson db.config body with
  | error failure =>
    refine iff_of_true ?_ (refused_error _)
    dsimp only
    rw [refuse_answer]
    exact refused_error _
  | ok request => exact iff_of_false (not_refused_ok _) (not_refused_ok _)

theorem refused_insertDocument (db : Database) (name : String) (d : Document) :
    Refused (db.insertDocument name d).answer ↔ db.Bars name fun _ => False :=
  refused_onCollection fun _ => iff_of_false (not_refused_ok _) id

theorem refused_deleteDocument (db : Database) (name id : String) :
    Refused (db.deleteDocument name id).answer ↔ db.Bars name fun _ => False :=
  refused_onCollection fun _ => iff_of_false (not_refused_ok _) fun h => h

/-- Every collection that writes have made is consistent. -/
theorem Reached.consistent (h : db.Reached) (hc : db.collection? name = some c) :
    c.Consistent := by
  obtain ⟨writes, rfl⟩ := h name c hc
  exact Collection.empty_consistent.run writes

/-- A request is not refused: the index that its plan scans is there. -/
theorem Reached.refused_findRequest (h : db.Reached) (name : String) (request : FindRequest)
    (elapsedMs : Nat) :
    Refused (db.findRequest name request elapsedMs).answer ↔ db.Bars name fun _ => False := by
  rw [Bars]
  cases hc : db.collection? name with
  | none =>
    rw [findRequest, onCollection, hc]
    exact iff_of_true (refused_error _) trivial
  | some c =>
    obtain ⟨result, hfind⟩ := (h.consistent hc).find_ok db.config request elapsedMs
    rw [findRequest_answer hc, hfind]
    exact iff_of_false (not_refused_ok _) id

theorem Reached.refused_find (h : db.Reached) (name body : String) (elapsedMs : Nat) :
    Refused (db.find name body elapsedMs).answer ↔
      db.Bars name fun _ => Refused (FindRequest.fromJson db.config body) := by
  rw [Bars]
  cases hc : db.collection? name with
  | none =>
    rw [find, onCollection, hc]
    exact iff_of_true (refused_error _) trivial
  | some c =>
    rw [find_answer hc]
    have hrequest (request : FindRequest) :
        ¬ Refused (db.findRequest name request elapsedMs).answer := by
      rw [h.refused_findRequest, Bars, hc]
      exact id
    simp [hrequest]

theorem Reached.refuses_iff (h : db.Reached) (op : Operation) : db.Refuses op ↔ db.CannotDo op := by
  cases op with
  | createCollection name => exact refused_createCollection db name
  | dropCollection name => exact Iff.rfl
  | insertDocument name d => exact refused_insertDocument db name d
  | insertMany name docs => exact refused_insertMany db name docs
  | insertJson name newId texts => exact refused_insertJson db name newId texts
  | deleteDocument name id => exact refused_deleteDocument db name id
  | createIndex name fields indexName elapsedMs =>
    exact refused_createIndex db name fields indexName elapsedMs
  | deleteIndex name indexName => exact refused_deleteIndex db name indexName
  | findRequest name request elapsedMs => exact h.refused_findRequest name request elapsedMs
  | find name body elapsedMs => exact h.refused_find name body elapsedMs
  | explain name body => exact refused_explain db name body

/-! ## What refused operations leave -/

theorem undone_onCollection {α : Type} {run : Collection → Outcome (Except Failure α)}
    (h : ∀ c, (run c).UndoneIfRefused db) : (db.onCollection name run).UndoneIfRefused db := by
  rw [onCollection]
  cases db.collection? name with
  | none => exact fun _ => rfl
  | some c => exact h c

/-- What answers with a result is not refused. -/
theorem undone_ok {α : Type} (a : α) (next : Database) (records : List LogRecord) :
    (⟨.ok a, next, records⟩ : Outcome (Except Failure α)).UndoneIfRefused db :=
  fun h => absurd h (not_refused_ok a)

theorem createCollection_undone (db : Database) (name : String) :
    (db.createCollection name).UndoneIfRefused db := by
  rw [createCollection]
  split_ifs
  · exact fun _ => rfl
  · exact fun _ => rfl
  · exact undone_ok _ _ _

theorem insertDocument_undone (db : Database) (name : String) (d : Document) :
    (db.insertDocument name d).UndoneIfRefused db :=
  undone_onCollection fun _ => undone_ok _ _ _

theorem insertMany_undone (db : Database) (name : String) (docs : List Document) :
    (db.insertMany name docs).UndoneIfRefused db :=
  undone_onCollection fun _ => undone_ok _ _ _

theorem insertJson_undone (db : Database) (name : String) (newId : Nat → String)
    (texts : List String) : (db.insertJson name newId texts).UndoneIfRefused db := by
  refine undone_onCollection fun _ => ?_
  cases Collection.documentsOfJson newId texts with
  | error failure => exact fun _ => rfl
  | ok docs => exact insertMany_undone db name docs

theorem deleteDocument_undone (db : Database) (name id : String) :
    (db.deleteDocument name id).UndoneIfRefused db :=
  undone_onCollection fun _ => undone_ok _ _ _

theorem createIndex_undone (db : Database) (name : String) (fields : List String)
    (indexName : Option String) (elapsedMs : Nat) :
    (db.createIndex name fields indexName elapsedMs).UndoneIfRefused db := by
  refine undone_onCollection fun c => ?_
  cases c.createIndex fields indexName with
  | error failure => exact fun _ => rfl
  | ok created => exact undone_ok _ _ _

theorem deleteIndex_undone (db : Database) (name indexName : String) :
    (db.deleteIndex name indexName).UndoneIfRefused db := by
  refine undone_onCollection fun c => ?_
  cases c.deleteIndex indexName with
  | error failure => exact fun _ => rfl
  | ok next => exact undone_ok _ _ _

theorem findRequest_undone (db : Database) (name : String) (request : FindRequest)
    (elapsedMs : Nat) : (db.findRequest name request elapsedMs).UndoneIfRefused db := by
  refine undone_onCollection fun c => ?_
  split
  · exact fun _ => rfl
  · exact undone_ok _ _ _

/-- A body that is no request is counted, whatever is at fault in it. -/
theorem refuse_database {α : Type} {body : String} {failure : Failure}
    (h : FindRequest.fromJson db.config body = .error failure) :
    (db.refuse name failure : Outcome (Except Failure α)).database = db.countRejection := by
  have hclient := FindRequest.fromJson_clientOnly db.config body failure h
  rw [refuse, if_pos hclient]
  rfl

/-- What reads a body on a collection and hands its failure on leaves that one request more was
refused. -/
theorem database_of_refused_body {α : Type} {body : String}
    {run : Collection → Outcome (Except Failure α)}
    (hbars : db.Bars name fun _ => Refused (FindRequest.fromJson db.config body))
    (hrun : ∀ c failure, FindRequest.fromJson db.config body = .error failure →
      run c = db.refuse name failure) :
    (db.onCollection name run).database =
      if (db.collection? name).isSome then db.countRejection else db := by
  rw [Bars] at hbars
  rw [onCollection]
  cases hc : db.collection? name with
  | none => rfl
  | some c =>
    rw [hc] at hbars
    obtain ⟨failure, hbody⟩ := hbars
    dsimp only
    rw [hrun c failure hbody]
    exact refuse_database hbody

theorem Reached.find_after_refusal (h : db.Reached) {body : String} {elapsedMs : Nat}
    (hrefused : Refused (db.find name body elapsedMs).answer) :
    (db.find name body elapsedMs).database = db.afterRefusal (.find name body elapsedMs) := by
  refine database_of_refused_body ((h.refused_find name body elapsedMs).mp hrefused) ?_
  intro c failure hbody
  rw [hbody]

theorem explain_after_refusal {body : String} (hrefused : Refused (db.explain name body).answer) :
    (db.explain name body).database = db.afterRefusal (.explain name body) := by
  refine database_of_refused_body ((refused_explain db name body).mp hrefused) ?_
  intro c failure hbody
  rw [hbody]

theorem Reached.after_eq_afterRefusal (h : db.Reached) {op : Operation} (hop : db.Refuses op) :
    db.after op = db.afterRefusal op := by
  cases op with
  | createCollection name => exact createCollection_undone db name hop
  | dropCollection name => exact hop.elim
  | insertDocument name d => exact insertDocument_undone db name d hop
  | insertMany name docs => exact insertMany_undone db name docs hop
  | insertJson name newId texts => exact insertJson_undone db name newId texts hop
  | deleteDocument name id => exact deleteDocument_undone db name id hop
  | createIndex name fields indexName elapsedMs =>
    exact createIndex_undone db name fields indexName elapsedMs hop
  | deleteIndex name indexName => exact deleteIndex_undone db name indexName hop
  | findRequest name request elapsedMs => exact findRequest_undone db name request elapsedMs hop
  | find name body elapsedMs => exact h.find_after_refusal hop
  | explain name body => exact explain_after_refusal hop

/-! ## What reading counts -/

/-- A find that is answered is counted, with its scan and its duration. -/
theorem Reached.findRequest_database (h : db.Reached) (hc : db.collection? name = some c)
    (request : FindRequest) (elapsedMs : Nat) :
    (db.findRequest name request elapsedMs).database = db.afterFind c request elapsedMs := by
  obtain ⟨docs, examined, hselect, -⟩ := (h.consistent hc).plan_select request db.config.tieBreak
  have hfind := find_eq_result hselect elapsedMs
  rw [findRequest, onCollection_of_some hc]
  dsimp only
  split
  · rename_i failure records heq
    rw [heq] at hfind
    cases hfind
  · rename_i result records heq
    rw [heq] at hfind
    obtain rfl := Except.ok.inj hfind
    have hfull : (ScanPlan.ofRequest request c.catalog db.config.tieBreak).isFullScan = _ :=
      ScanPlan.isFullScan_eq (h.consistent hc).catalog
    simp only [Counters.recordQuery, ScanPlan.result, hfull, afterFind]

theorem find_database {body : String} {request : FindRequest} (hc : db.collection? name = some c)
    (hbody : FindRequest.fromJson db.config body = .ok request) (elapsedMs : Nat) :
    (db.find name body elapsedMs).database =
      (db.findRequest name request elapsedMs).database := by
  rw [find, onCollection_of_some hc, hbody]

theorem explain_database {body : String} {request : FindRequest}
    (hc : db.collection? name = some c)
    (hbody : FindRequest.fromJson db.config body = .ok request) :
    (db.explain name body).database = db := by
  rw [explain, onCollection_of_some hc, hbody]

/-- What is answered was asked of a collection. -/
theorem exists_of_onCollection {α : Type} {run : Collection → Outcome (Except Failure α)} {a : α}
    (h : (db.onCollection name run).answer = .ok a) :
    ∃ c, db.collection? name = some c ∧ (run c).answer = .ok a := by
  rw [onCollection] at h
  cases hc : db.collection? name with
  | none =>
    rw [hc] at h
    cases h
  | some c =>
    rw [hc] at h
    exact ⟨c, rfl, h⟩

theorem exists_of_find {body : String} {elapsedMs : Nat} {result : FindResult}
    (h : (db.find name body elapsedMs).answer = .ok result) :
    ∃ c request, db.collection? name = some c ∧
      FindRequest.fromJson db.config body = .ok request := by
  obtain ⟨c, hc, -⟩ := exists_of_onCollection h
  rw [find_answer hc, bind_eq_ok] at h
  obtain ⟨request, hbody, -⟩ := h
  exact ⟨c, request, hc, hbody⟩

theorem exists_of_explain {body : String} {report : Json}
    (h : (db.explain name body).answer = .ok report) :
    ∃ c request, db.collection? name = some c ∧
      FindRequest.fromJson db.config body = .ok request := by
  obtain ⟨c, hc, hreport⟩ := exists_of_onCollection h
  cases hbody : FindRequest.fromJson db.config body with
  | error failure =>
    rw [hbody] at hreport
    dsimp only at hreport
    rw [refuse_answer] at hreport
    cases hreport
  | ok request => exact ⟨c, request, hc, rfl⟩

/-- After any operations on a new database, an operation is refused in just the cases listed, and
leaves everything as it was, up to the count of a body refused on a collection that is there. A find
that is answered counts itself and a full scan, and a plan that is explained counts nothing. -/
theorem run_refuses_and_counts (config : FindConfig) (ops : List Operation) :
    let db := (new config).run ops
    (∀ op, (db.Refuses op ↔ db.CannotDo op) ∧
      (db.Refuses op → db.after op = db.afterRefusal op)) ∧
    (∀ name request elapsedMs result,
      (db.findRequest name request elapsedMs).answer = .ok result →
        ∃ c, db.collection? name = some c ∧
          (db.findRequest name request elapsedMs).database = db.afterFind c request elapsedMs) ∧
    (∀ name body elapsedMs result, (db.find name body elapsedMs).answer = .ok result →
      ∃ c request, db.collection? name = some c ∧ FindRequest.fromJson config body = .ok request ∧
        (db.find name body elapsedMs).database = db.afterFind c request elapsedMs) ∧
    ∀ name body report, (db.explain name body).answer = .ok report →
      (db.explain name body).database = db := by
  intro db
  have hreached : db.Reached := (new_reached config).run ops
  have hconfig : db.config = config := run_config _ ops
  refine ⟨fun op => ⟨hreached.refuses_iff op, hreached.after_eq_afterRefusal⟩, ?_, ?_, ?_⟩
  · intro name request elapsedMs result h
    obtain ⟨c, hc, -⟩ := exists_of_onCollection h
    exact ⟨c, hc, hreached.findRequest_database hc request elapsedMs⟩
  · intro name body elapsedMs result h
    obtain ⟨c, request, hc, hbody⟩ := exists_of_find h
    refine ⟨c, request, hc, hconfig ▸ hbody, ?_⟩
    rw [find_database hc hbody, hreached.findRequest_database hc]
  · intro name body report h
    obtain ⟨c, request, hc, hbody⟩ := exists_of_explain h
    exact explain_database hc hbody

/-- A name that is taken, a body that is no request, and a find that scans a whole collection. -/
theorem run_refuses_and_counts_each :
    let db := (new .default).run [.createCollection "c"]
    let request : FindRequest := ⟨.combine .and [], .default .default⟩
    db.after (.createCollection "c") = db ∧
      (db.after (.find "c" "1" 0)).counters = ⟨0, 1, 0, 0⟩ ∧
      (db.after (.findRequest "c" request 0)).counters = ⟨1, 0, 1, 0⟩ := by
  intro db request
  obtain ⟨hrefused, hfind, -⟩ := run_refuses_and_counts .default [.createCollection "c"]
  have hcreate := (hrefused (.createCollection "c")).2 ⟨_, rfl⟩
  have hbody := (hrefused (.find "c" "1" 0)).2 ⟨_, rfl⟩
  have hanswered : ¬ db.Refuses (.findRequest "c" request 0) := (hrefused _).1.mp
  obtain ⟨result, hresult⟩ : ∃ result, (db.findRequest "c" request 0).answer = .ok result := by
    cases hanswer : (db.findRequest "c" request 0).answer with
    | error failure => exact absurd ⟨failure, hanswer⟩ hanswered
    | ok result => exact ⟨result, rfl⟩
  obtain ⟨c, hc, hrequest⟩ := hfind "c" request 0 result hresult
  obtain rfl := Option.some.inj hc
  -- the selector constrains no field, so the scan is a full one whatever index it is of
  have hleading : (Constraints.ofSelector request.selector).on? = fun _ => none := rfl
  have hcounters : (db.afterFind .empty request 0).counters = ⟨1, 0, 1, 0⟩ := by
    rw [afterFind, hleading]
    dsimp only
    rw [Option.bind_fun_none]
    rfl
  exact ⟨hcreate, congrArg Database.counters hbody,
    (congrArg Database.counters hrequest).trans hcounters⟩

end Database

end DocFind
