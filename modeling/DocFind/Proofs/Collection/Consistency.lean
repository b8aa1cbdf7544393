import DocFind.Collection
import DocFind.Document.Identifier
import DocFind.Proofs.Entries.Lookup
import DocFind.Proofs.Index.Contents
import Mathlib.Data.List.Nodup

/-!
# Collections stay consistent

A collection is consistent if its catalog is well formed, every document stands under its own
identifier, there is one index for every definition of the catalog, and each index holds the
documents. Every operation keeps a collection consistent, so every run of operations does.
-/
namespace DocFind

namespace IndexCatalog

variable {catalog next : IndexCatalog} {d : IndexDefinition} {name : String}

/-- The primary index comes first, and no two indexes share a name or a list of fields. -/
structure WellFormed (catalog : IndexCatalog) : Prop where
  primary : catalog.definitions.head? = some .primary
  names : (catalog.definitions.map IndexDefinition.name).Nodup
  fieldLists : (catalog.definitions.map IndexDefinition.fields).Nodup
  fields_ne_nil : ∀ d ∈ catalog.definitions, d.fields ≠ []

theorem initial_wellFormed : initial.WellFormed where
  primary := rfl
  names := List.nodup_singleton _
  fieldLists := List.nodup_singleton _
  fields_ne_nil d hd := by
    obtain rfl : d = .primary := List.mem_singleton.mp hd
    exact List.cons_ne_nil _ _

theorem add_eq_ok (h : catalog.add d = .ok next) :
    d.fields ≠ [] ∧ (∀ e ∈ catalog.definitions, e.name ≠ d.name ∧ e.fields ≠ d.fields) ∧
      next = ⟨catalog.definitions ++ [d]⟩ := by
  rw [add] at h
  split_ifs at h with hnil
  split at h
  · cases h
  · rename_i hfind
    refine ⟨hnil, fun e he => ?_, (Except.ok.inj h).symm⟩
    have hnot := List.find?_eq_none.mp hfind e he
    simpa [not_or] using hnot

theorem remove_eq_ok (h : catalog.remove name = .ok (d, next)) :
    name ≠ primaryIndexName ∧
      next = ⟨catalog.definitions.eraseP fun e => e.name = name⟩ := by
  rw [remove] at h
  split_ifs at h with hname
  split at h
  · cases h
  · exact ⟨hname, (Prod.mk.inj (Except.ok.inj h)).2.symm⟩

theorem WellFormed.add (h : catalog.WellFormed) (ha : catalog.add d = .ok next) :
    next.WellFormed := by
  obtain ⟨hnil, hnew, rfl⟩ := add_eq_ok ha
  refine ⟨?_, ?_, ?_, ?_⟩
  · rw [List.head?_append, h.primary, Option.some_or]
  · rw [List.map_append, List.nodup_append]
    refine ⟨h.names, List.nodup_singleton _, fun n hn m hm => ?_⟩
    obtain ⟨e, he, rfl⟩ := List.mem_map.mp hn
    obtain rfl : m = d.name := List.mem_singleton.mp hm
    exact (hnew e he).1
  · rw [List.map_append, List.nodup_append]
    refine ⟨h.fieldLists, List.nodup_singleton _, fun n hn m hm => ?_⟩
    obtain ⟨e, he, rfl⟩ := List.mem_map.mp hn
    obtain rfl : m = d.fields := List.mem_singleton.mp hm
    exact (hnew e he).2
  · intro e he
    rcases List.mem_append.mp he with he | he
    · exact h.fields_ne_nil e he
    · obtain rfl : e = d := List.mem_singleton.mp he
      exact hnil

theorem WellFormed.remove (h : catalog.WellFormed) (hr : catalog.remove name = .ok (d, next)) :
    next.WellFormed := by
  obtain ⟨hname, rfl⟩ := remove_eq_ok hr
  have hsub : (catalog.definitions.eraseP fun e => e.name = name).Sublist catalog.definitions :=
    List.eraseP_sublist
  refine ⟨?_, (hsub.map _).nodup h.names, (hsub.map _).nodup h.fieldLists,
    fun e he => h.fields_ne_nil e (hsub.mem he)⟩
  obtain ⟨rest, hrest⟩ := List.head?_eq_some_iff.mp h.primary
  have hprimary : ¬ (IndexDefinition.primary.name = name) := fun he => hname he.symm
  rw [hrest, List.eraseP_cons_of_neg (by simpa using hprimary), List.head?_cons]

/-- Where a name belongs to one definition, dropping the first of that name drops all. -/
theorem eraseP_eq_filter {ds : List IndexDefinition}
    (h : (ds.map IndexDefinition.name).Nodup) (name : String) :
    (ds.eraseP fun d => d.name = name) = ds.filter fun d => d.name ≠ name := by
  induction ds with
  | nil => rfl
  | cons d ds ih =>
    rw [List.map_cons, List.nodup_cons] at h
    by_cases hd : d.name = name
    · have hkeep : ds.filter (fun e => e.name ≠ name) = ds := by
        refine List.filter_eq_self.mpr fun e he => ?_
        have hne : e.name ≠ name := by
          rintro rfl
          exact h.1 (hd ▸ List.mem_map_of_mem he)
        simpa using hne
      rw [List.eraseP_cons_of_pos (by simpa using hd), List.filter_cons_of_neg (by simpa using hd),
        hkeep]
    · rw [List.eraseP_cons_of_neg (by simpa using hd), List.filter_cons_of_pos (by simpa using hd),
        ih h.2]

end IndexCatalog

namespace Collection

variable {c : Collection}

/-- Documents, catalog and indexes belong together. -/
structure Consistent (c : Collection) : Prop where
  catalog : c.catalog.WellFormed
  keys : (Entries.keys c.documents).Nodup
  own : ∀ e ∈ c.documents, e.2.id = e.1
  /-- One index for every definition, under its name. -/
  indexes : c.indexes.map (fun e => (e.1, e.2.definition)) =
    c.catalog.definitions.map fun d => (d.name, d)
  held : ∀ e ∈ c.indexes, e.2.Holds (Entries.values c.documents)

/-- The stored documents. -/
def stored (c : Collection) : List Document := Entries.values c.documents

theorem Consistent.ids (h : c.Consistent) :
    c.stored.map Document.id = Entries.keys c.documents := by
  rw [stored, Entries.values, Entries.keys, List.map_map]
  exact List.map_congr_left h.own

theorem Consistent.nodup_ids (h : c.Consistent) : (c.stored.map Document.id).Nodup :=
  h.ids ▸ h.keys

theorem empty_consistent : empty.Consistent where
  catalog := IndexCatalog.initial_wellFormed
  keys := List.nodup_nil
  own := by simp [empty]
  indexes := rfl
  held e he := by
    obtain rfl : e = (primaryIndexName, .empty .primary) := List.mem_singleton.mp he
    exact FieldIndex.empty_holds _

/-! ## Writing and dropping documents -/

theorem remove_of_none {id : String} (h : c.document? id = none) : c.remove id = (none, c) := by
  rw [remove, h]

theorem remove_of_some {id : String} {d : Document} (h : c.document? id = some d) :
    c.remove id = (some d, { c with
      documents := Entries.remove id c.documents
      indexes := Entries.mapValues (fun index => index.remove d) c.indexes }) := by
  rw [remove, h]

@[simp] theorem remove_catalog (c : Collection) (id : String) :
    (c.remove id).2.catalog = c.catalog := by
  rw [remove]
  split <;> rfl

theorem remove_documents (c : Collection) (id : String) :
    (c.remove id).2.documents = Entries.remove id c.documents := by
  cases hd : c.document? id with
  | none =>
    rw [remove_of_none hd, Entries.remove_of_not_mem (Entries.get?_eq_none_iff.mp hd)]
  | some d => rw [remove_of_some hd]

theorem put_documents (c : Collection) (d : Document) :
    (c.put d).2.documents = Entries.put d.id d c.documents := rfl

theorem put_indexes (c : Collection) (d : Document) :
    (c.put d).2.indexes =
      Entries.mapValues (fun index => index.insert d) (c.remove d.id).2.indexes := by
  cases hd : c.document? d.id <;> simp [put, remove, hd]

/-- Changing the entries of every index leaves their names and definitions. -/
theorem map_definition_mapValues (f : FieldIndex → FieldIndex)
    (hf : ∀ index, (f index).definition = index.definition) (es : Entries FieldIndex) :
    (Entries.mapValues f es).map (fun e => (e.1, e.2.definition)) =
      es.map fun e => (e.1, e.2.definition) := by
  simp [Entries.mapValues, hf]

theorem Consistent.remove (h : c.Consistent) (id : String) : (c.remove id).2.Consistent := by
  refine ⟨?_, ?_, ?_, ?_, ?_⟩
  · rw [remove_catalog]
    exact h.catalog
  · rw [remove_documents]
    exact Entries.nodup_keys_remove id h.keys
  · rw [remove_documents]
    exact fun e he => h.own e (List.mem_of_mem_filter he)
  · rw [remove_catalog, ← h.indexes, Collection.remove]
    split
    · rfl
    · exact map_definition_mapValues _ (fun index => index.remove_definition _) _
  · intro e he
    rw [remove_documents]
    cases hd : c.document? id with
    | none =>
      rw [remove_of_none hd] at he
      rw [Entries.remove_of_not_mem (Entries.get?_eq_none_iff.mp hd)]
      exact h.held e he
    | some d =>
      simp only [remove_of_some hd] at he
      obtain ⟨index, hindex, hvalue⟩ := Entries.mem_mapValues he
      have hdocs := (Entries.perm_cons_remove h.keys hd).map Prod.snd
      rw [hvalue]
      exact ((h.held _ hindex).perm hdocs).remove

theorem Consistent.put (h : c.Consistent) (d : Document) : (c.put d).2.Consistent := by
  have hrest := h.remove d.id
  have hperm := Entries.put_perm d.id d h.keys
  refine ⟨h.catalog, Entries.nodup_keys_put d.id d h.keys, ?_, ?_, ?_⟩
  · intro e he
    rw [put_documents, hperm.mem_iff] at he
    rcases List.mem_cons.mp he with rfl | he
    · rfl
    · exact h.own e (List.mem_of_mem_filter he)
  · rw [put_indexes, map_definition_mapValues _ (fun index => index.insert_definition d),
      hrest.indexes, remove_catalog]
    rfl
  · intro e he
    rw [put_indexes] at he
    obtain ⟨index, hindex, hvalue⟩ := Entries.mem_mapValues he
    have hheld := hrest.held _ hindex
    rw [remove_documents] at hheld
    rw [hvalue, put_documents]
    -- An insertion takes an identifier that the index does not hold: `remove` has dropped it.
    refine (hheld.insert fun o ho => ?_).perm (hperm.map Prod.snd).symm
    obtain ⟨f, hf, rfl⟩ := List.mem_map.mp ho
    rw [h.own f (List.mem_of_mem_filter hf)]
    exact (Entries.mem_keys_remove.mp (List.mem_map_of_mem hf)).2

theorem Consistent.putAll (h : c.Consistent) (docs : List Document) :
    (c.putAll docs).Consistent := by
  induction docs generalizing c with
  | nil => exact h
  | cons d docs ih => exact ih (h.put d)

/-! ## Declaring and dropping indexes -/

theorem createIndex_eq_ok {fields : List String} {name : Option String} {index : FieldIndex}
    {next : Collection} (h : c.createIndex fields name = .ok (index, next)) :
    ∃ d catalog, c.catalog.add d = .ok catalog ∧ index = .build d c.stored ∧
      next = { c with catalog := catalog, indexes := Entries.put d.name index c.indexes } := by
  rw [createIndex] at h
  cases hp : (fields.mapM FieldPath.parse).mapError Failure.invalidFieldPath with
  | error fault =>
    rw [hp] at h
    cases h
  | ok paths =>
    rw [hp] at h
    simp only [bind, Except.bind] at h
    split at h
    · cases h
    · rename_i catalog hadd
      obtain ⟨rfl, rfl⟩ := Prod.mk.inj (Except.ok.inj h)
      exact ⟨_, catalog, hadd, rfl, rfl⟩

theorem deleteIndex_eq_ok {name : String} {next : Collection}
    (h : c.deleteIndex name = .ok next) :
    ∃ d catalog, c.catalog.remove name = .ok (d, catalog) ∧
      next = { c with catalog := catalog, indexes := Entries.remove name c.indexes } := by
  rw [deleteIndex] at h
  simp only [bind, Except.bind] at h
  split at h
  · cases h
  · rename_i removed hremove
    exact ⟨removed.1, removed.2, hremove, (Except.ok.inj h).symm⟩

theorem Consistent.indexNames (h : c.Consistent) :
    Entries.keys c.indexes = c.catalog.definitions.map IndexDefinition.name := by
  have hnames := congrArg (List.map Prod.fst) h.indexes
  rwa [List.map_map, List.map_map] at hnames

theorem Consistent.createIndex (h : c.Consistent) {fields : List String} {name : Option String}
    {index : FieldIndex} {next : Collection} (hc : c.createIndex fields name = .ok (index, next)) :
    next.Consistent := by
  obtain ⟨d, catalog, hadd, rfl, rfl⟩ := createIndex_eq_ok hc
  obtain ⟨-, hnew, hcatalog⟩ := IndexCatalog.add_eq_ok hadd
  -- A new name goes behind the others, in the catalog and among the indexes alike.
  have hfresh : d.name ∉ Entries.keys c.indexes := by
    rw [h.indexNames]
    intro hmem
    obtain ⟨e, he, hname⟩ := List.mem_map.mp hmem
    exact (hnew e he).1 hname
  refine ⟨h.catalog.add hadd, h.keys, h.own, ?_, ?_⟩
  · rw [hcatalog, Entries.put_of_not_mem _ hfresh, List.map_append, h.indexes, List.map_append]
    simp
  · intro e he
    rw [Entries.put_of_not_mem _ hfresh] at he
    rcases List.mem_append.mp he with he | he
    · exact h.held e he
    · obtain rfl := List.mem_singleton.mp he
      exact FieldIndex.build_holds d h.nodup_ids

theorem Consistent.deleteIndex (h : c.Consistent) {name : String} {next : Collection}
    (hd : c.deleteIndex name = .ok next) : next.Consistent := by
  obtain ⟨d, catalog, hremove, rfl⟩ := deleteIndex_eq_ok hd
  obtain ⟨-, hcatalog⟩ := IndexCatalog.remove_eq_ok hremove
  refine ⟨h.catalog.remove hremove, h.keys, h.own, ?_, ?_⟩
  · have hfilter := congrArg (List.filter fun p => p.1 ≠ name) h.indexes
    rw [List.filter_map, List.filter_map] at hfilter
    rw [hcatalog, IndexCatalog.eraseP_eq_filter h.catalog.names]
    exact hfilter
  · exact fun e he => h.held e (List.mem_of_mem_filter he)

/-! ## Runs -/

/-- An operation that can change a collection, with what it is given. -/
inductive Write where
  | insert (d : Document)
  | insertMany (docs : List Document)
  /-- `bits` supplies the identifiers of the texts without one. -/
  | insertJson (bits : Nat → Nat) (texts : List String)
  | delete (id : String)
  | createIndex (fields : List String) (name : Option String)
  | deleteIndex (name : String)

/-- The collection after an operation; one that fails leaves it. -/
def write (c : Collection) : Write → Collection
  | .insert d => (c.put d).2
  | .insertMany docs => c.putAll docs
  | .insertJson bits texts =>
    match documentsOfJson (fun place => Identifier.ofBits (bits place)) texts with
    | .ok docs => c.putAll docs
    | .error _ => c
  | .delete id => (c.remove id).2
  | .createIndex fields name =>
    match c.createIndex fields name with
    | .ok (_, next) => next
    | .error _ => c
  | .deleteIndex name =>
    match c.deleteIndex name with
    | .ok next => next
    | .error _ => c

/-- The collection after operations one after the other. -/
def run (c : Collection) (writes : List Write) : Collection := writes.foldl write c

theorem Consistent.write (h : c.Consistent) (w : Write) : (c.write w).Consistent := by
  cases w with
  | insert d => exact h.put d
  | insertMany docs => exact h.putAll docs
  | insertJson bits texts =>
    rw [Collection.write]
    split
    · exact h.putAll _
    · exact h
  | delete id => exact h.remove id
  | createIndex fields name =>
    rw [Collection.write]
    split
    · rename_i hok
      exact h.createIndex hok
    · exact h
  | deleteIndex name =>
    rw [Collection.write]
    split
    · rename_i hok
      exact h.deleteIndex hok
    · exact h

theorem Consistent.run (h : c.Consistent) (writes : List Write) : (c.run writes).Consistent := by
  induction writes generalizing c with
  | nil => exact h
  | cons w writes ih => exact ih (h.write w)

end Collection

end DocFind
