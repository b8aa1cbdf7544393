import DocFind.Proofs.Collection.Consistency
import DocFind.Proofs.Refusal

/-!
# The invariant of a store

After any operations on a new collection, failed ones included, its catalog is well formed, every
index is the one that would be built anew over the stored documents, and every document stands
under the identifier that its body repeats, provided that the callers make documents from bodies
and JSON texts.
-/
namespace DocFind

theorem Identifier.ofBits_ne_empty (bits : Nat) : ofBits bits ≠ "" := by
  intro h
  have hlist := congrArg String.toList h
  simp [ofBits, List.intercalate] at hlist

namespace Document

/-- Documents as callers make them: from a body or a JSON text, with lost revisions added. -/
inductive Built : Document → Prop where
  | ofBody (bits : Nat) (body : Body) {d : Document}
      (h : Document.ofBody (Identifier.ofBits bits) body = .ok d) : Built d
  | fromJson (bits : Nat) (text : String) {d : Document}
      (h : Document.fromJson (Identifier.ofBits bits) text = .ok d) : Built d
  | withConflicts {d : Document} (conflicts : List String) (h : Built d) :
      Built (d.withConflicts conflicts)

/-- The body repeats the identifier, which is not empty. -/
def SelfIdentified (d : Document) : Prop :=
  d.id ≠ "" ∧ Entries.get? idField d.body = some (.string d.id)

theorem ofBody_selfIdentified {newId : String} {body : Body} {d : Document} (hid : newId ≠ "")
    (h : ofBody newId body = .ok d) : d.SelfIdentified := by
  rw [ofBody] at h
  split at h
  · rename_i s hs
    split_ifs at h with hempty
    obtain rfl := Except.ok.inj h
    exact ⟨hempty, hs⟩
  · cases h
  · obtain rfl := Except.ok.inj h
    refine ⟨hid, ?_⟩
    rw [Entries.get?_put, if_pos rfl]

theorem fromJson_eq_ok {newId text : String} {d : Document} (h : fromJson newId text = .ok d) :
    ∃ body, ofBody newId body = .ok d := by
  rw [fromJson] at h
  cases hb : (bodyOfJson text).mapError Failure.invalidDocument with
  | error fault =>
    rw [hb] at h
    cases h
  | ok body =>
    rw [hb] at h
    exact ⟨body, h⟩

theorem Built.selfIdentified {d : Document} (h : d.Built) : d.SelfIdentified := by
  induction h with
  | ofBody _ _ h => exact ofBody_selfIdentified (Identifier.ofBits_ne_empty _) h
  | fromJson _ _ h =>
    obtain ⟨body, hbody⟩ := fromJson_eq_ok h
    exact ofBody_selfIdentified (Identifier.ofBits_ne_empty _) hbody
  | withConflicts conflicts _ ih => exact ih

end Document

namespace Collection

variable {c : Collection}

/-- The documents that an operation is handed. -/
def Write.documents : Write → List Document
  | insert d => [d]
  | insertMany docs => docs
  | _ => []

/-- Every stored document repeats its identifier. -/
def SelfIdentified (c : Collection) : Prop := ∀ d ∈ c.stored, d.SelfIdentified

theorem SelfIdentified.remove (h : c.SelfIdentified) (id : String) :
    (c.remove id).2.SelfIdentified := by
  intro d hd
  rw [stored, remove_documents] at hd
  exact h d ((List.filter_sublist.map Prod.snd).mem hd)

theorem SelfIdentified.put (h : c.SelfIdentified) (hc : c.Consistent) {d : Document}
    (hd : d.SelfIdentified) : (c.put d).2.SelfIdentified := by
  intro o ho
  have hperm := (Entries.put_perm d.id d hc.keys).map Prod.snd
  rcases List.mem_cons.mp (hperm.mem_iff.mp ho) with rfl | ho
  · exact hd
  · exact h o ((List.filter_sublist.map Prod.snd).mem ho)

theorem SelfIdentified.putAll (h : c.SelfIdentified) (hc : c.Consistent) {docs : List Document}
    (hdocs : ∀ d ∈ docs, d.SelfIdentified) : (c.putAll docs).SelfIdentified := by
  induction docs generalizing c with
  | nil => exact h
  | cons d docs ih =>
    have hput := h.put hc (hdocs d List.mem_cons_self)
    exact ih hput (hc.put d) fun o ho => hdocs o (List.mem_cons_of_mem _ ho)

theorem SelfIdentified.write (h : c.SelfIdentified) (hc : c.Consistent) {w : Write}
    (hw : ∀ d ∈ w.documents, d.Built) : (c.write w).SelfIdentified := by
  cases w with
  | insert d => exact h.put hc (hw d (List.mem_singleton_self d)).selfIdentified
  | insertMany docs => exact h.putAll hc fun d hd => (hw d hd).selfIdentified
  | insertJson bits texts =>
    rw [Collection.write]
    split
    · rename_i docs hdocs
      refine h.putAll hc fun d hd => ?_
      obtain ⟨⟨text, place⟩, -, hparse⟩ := mem_of_mapM_ok hdocs hd
      exact (Document.Built.fromJson _ _ hparse).selfIdentified
    · exact h
  | delete id => exact h.remove id
  | createIndex fields name =>
    rw [Collection.write]
    split
    · rename_i hok
      obtain ⟨d, catalog, -, -, rfl⟩ := createIndex_eq_ok hok
      exact h
    · exact h
  | deleteIndex name =>
    rw [Collection.write]
    split
    · rename_i hok
      obtain ⟨d, catalog, -, rfl⟩ := deleteIndex_eq_ok hok
      exact h
    · exact h

theorem SelfIdentified.run (h : c.SelfIdentified) (hc : c.Consistent) {writes : List Write}
    (hw : ∀ w ∈ writes, ∀ d ∈ w.documents, d.Built) : (c.run writes).SelfIdentified := by
  induction writes generalizing c with
  | nil => exact h
  | cons w writes ih =>
    have hstep := h.write hc (hw w List.mem_cons_self)
    exact ih hstep (hc.write w) fun v hv => hw v (List.mem_cons_of_mem _ hv)

/-- What holds of a collection between operations. -/
structure StoreInvariant (c : Collection) : Prop where
  catalog : c.catalog.WellFormed
  /-- One index for every definition of the catalog, under its name, and no other. -/
  indexes : c.indexes.map (fun e => (e.1, e.2.definition)) =
    c.catalog.definitions.map fun d => (d.name, d)
  /-- Every index is the one built over the documents, in whatever order they come. -/
  rebuilt : ∀ e ∈ c.indexes, ∀ docs : List Document, docs.Perm c.stored →
    e.2 = .build e.2.definition docs
  /-- One entry for every document and no other, none of them twice. -/
  entries : ∀ e ∈ c.indexes, e.2.entries.Perm (c.stored.map e.2.definition.entryOf) ∧
    IndexEntry.Ascending e.2.entries ∧ e.2.count = c.size
  /-- Every document is under its own identifier, which its body repeats and which is not empty. -/
  documents : (Entries.keys c.documents).Nodup ∧ ∀ id d, c.document? id = some d →
    d.id = id ∧ id ≠ "" ∧ Entries.get? idField d.body = some (.string id)

theorem Consistent.storeInvariant (hc : c.Consistent) (h : c.SelfIdentified) :
    c.StoreInvariant := by
  refine ⟨hc.catalog, hc.indexes, ?_, ?_, hc.keys, ?_⟩
  · exact fun e he docs hdocs => (hc.held e he).eq_build hc.nodup_ids hdocs
  · intro e he
    have hheld := hc.held e he
    exact ⟨hheld.contents, hheld.ascending, hheld.counted.trans (Entries.length_values _)⟩
  · intro id d hd
    have hmem := Entries.mem_of_get? hd
    have hid : d.id = id := hc.own _ hmem
    obtain ⟨hne, hbody⟩ := h d (List.mem_map_of_mem hmem)
    rw [hid] at hne hbody
    exact ⟨hid, hne, hbody⟩

/-- The invariant holds after every run of operations on a new collection. -/
theorem run_storeInvariant (writes : List Write)
    (hbuilt : ∀ w ∈ writes, ∀ d ∈ w.documents, d.Built) : (empty.run writes).StoreInvariant := by
  have hc := empty_consistent.run writes
  have hempty : empty.SelfIdentified := by
    intro d hd
    simp [stored, empty, Entries.values] at hd
  exact hc.storeInvariant (hempty.run empty_consistent hbuilt)

/-- Two documents of one identifier around the declaration of an index: the second replaces the
first in both indexes. -/
theorem run_storeInvariant_replaced :
    let writes : List Write := [
      .insert ⟨"a", [("_id", .string "a"), ("n", .int32 1)], []⟩,
      .createIndex ["n"] none,
      .insert ⟨"a", [("_id", .string "a"), ("n", .double Double.nan)], ["1-x"]⟩,
      .deleteIndex primaryIndexName]
    (∀ w ∈ writes, ∀ d ∈ w.documents, d.Built) ∧ (empty.run writes).StoreInvariant := by
  intro writes
  have hbuilt : ∀ w ∈ writes, ∀ d ∈ w.documents, d.Built := by
    intro w hw d hd
    simp only [writes, List.mem_cons, List.not_mem_nil, or_false] at hw
    rcases hw with rfl | rfl | rfl | rfl
    · obtain rfl := List.mem_singleton.mp hd
      exact .ofBody 0 [("_id", .string "a"), ("n", .int32 1)] rfl
    · cases hd
    · obtain rfl := List.mem_singleton.mp hd
      exact .withConflicts ["1-x"] (.ofBody 0 [("_id", .string "a"), ("n", .double Double.nan)] rfl)
    · cases hd
  exact ⟨hbuilt, run_storeInvariant writes hbuilt⟩

end Collection

end DocFind
