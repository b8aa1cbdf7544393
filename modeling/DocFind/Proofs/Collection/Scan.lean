import DocFind.Proofs.Collection.Consistency
import DocFind.Proofs.Index.Scan

/-!
# What a scan of a collection yields

A scan of a consistent collection yields every document whose key lies in the range, once, in the
order of the entries or in the reverse of it.
-/
namespace DocFind

theorem Direction.filterMap_arrange {α β : Type} (f : α → Option β) (direction : Direction)
    (xs : List α) : (direction.arrange xs).filterMap f = direction.arrange (xs.filterMap f) := by
  cases direction
  · rfl
  · exact List.filterMap_reverse

namespace Collection

variable {c : Collection} {definition : IndexDefinition}

theorem Consistent.document?_id (h : c.Consistent) {d : Document} (hd : d ∈ c.stored) :
    c.document? d.id = some d := by
  obtain ⟨e, he, rfl⟩ := List.mem_map.mp hd
  rw [h.own e he]
  exact (Entries.get?_eq_some_iff h.keys).mpr he

theorem Consistent.filterMap_document? (h : c.Consistent) {docs : List Document}
    (hdocs : ∀ d ∈ docs, d ∈ c.stored) : docs.filterMap (fun d => c.document? d.id) = docs := by
  induction docs with
  | nil => rfl
  | cons d docs ih =>
    have hd : c.document? d.id = some d := h.document?_id (hdocs d List.mem_cons_self)
    rw [List.filterMap_cons, hd, ih fun e he => hdocs e (List.mem_cons_of_mem _ he)]

/-- The index of a definition in the catalog is there, and holds the documents. -/
theorem Consistent.index? (h : c.Consistent) (hd : definition ∈ c.catalog.definitions) :
    ∃ index, c.index? definition.name = some index ∧ index.definition = definition ∧
      index.Holds c.stored := by
  have hmem : (definition.name, definition) ∈ c.indexes.map fun e => (e.1, e.2.definition) := by
    rw [h.indexes]
    exact List.mem_map.mpr ⟨definition, hd, rfl⟩
  obtain ⟨⟨name, index⟩, he, heq⟩ := List.mem_map.mp hmem
  obtain ⟨hname, rfl⟩ := Prod.mk.inj heq
  have hkeys : (Entries.keys c.indexes).Nodup := h.indexNames ▸ h.catalog.names
  exact ⟨index, (Entries.get?_eq_some_iff hkeys).mpr (hname ▸ he), rfl, h.held _ he⟩

/-- An index that is there is declared in the catalog under its name. -/
theorem Consistent.index?_declared (h : c.Consistent) {name : String} {index : FieldIndex}
    (hindex : c.index? name = some index) :
    index.definition ∈ c.catalog.definitions ∧ index.definition.name = name := by
  have hmem : (name, index.definition) ∈ c.indexes.map fun e => (e.1, e.2.definition) :=
    List.mem_map.mpr ⟨(name, index), Entries.mem_of_get? hindex, rfl⟩
  rw [h.indexes] at hmem
  obtain ⟨d, hd, heq⟩ := List.mem_map.mp hmem
  obtain ⟨hname, rfl⟩ := Prod.mk.inj heq
  exact ⟨hd, hname⟩

/-- A source knows an index by its name alone. -/
theorem source_scan_congr {other : IndexDefinition} (h : definition.name = other.name)
    (range : ScanRange) (direction : Direction) :
    c.source.scan definition range direction = c.source.scan other range direction := by
  simp only [source, h]

/-- Documents in the ascending order of their entries. -/
def InEntryOrder (definition : IndexDefinition) (docs : List Document) : Prop :=
  docs.Pairwise fun d e => (definition.entryOf d).cmp (definition.entryOf e) = .lt

/-- A scan yields the documents of the range, each once, in the order of the index. -/
theorem Consistent.source_scan (h : c.Consistent) (hd : definition ∈ c.catalog.definitions)
    (range : ScanRange)
    (hclear : ∀ d ∈ c.stored, range.ClearOf (IndexKey.ofBody definition.fields d.body))
    (direction : Direction) :
    ∃ docs, c.source.scan definition range direction = .ok (direction.arrange docs) ∧
      docs.Perm (c.stored.filter fun d =>
        range.holds (IndexKey.ofBody definition.fields d.body)) ∧
      InEntryOrder definition docs := by
  obtain ⟨index, hindex, rfl, hheld⟩ := h.index? hd
  have hof : ∀ e ∈ index.entries, ∃ d ∈ c.stored, index.definition.entryOf d = e := fun e he =>
    List.mem_map.mp (hheld.contents.mem_iff.mp he)
  have hscan := FieldIndex.scan_eq hheld.ascending range (fun e he => by
    obtain ⟨d, hstored, rfl⟩ := hof e he
    exact hclear d hstored) direction
  let found := index.entries.filter fun e => range.holds e.key
  refine ⟨found.filterMap fun e => c.document? e.id, ?_, ?_, ?_⟩
  · simp only [source, hindex, hscan]
    rw [Direction.filterMap_arrange, List.filterMap_map]
    rfl
  · have hfound : found.Perm ((c.stored.filter fun d =>
        range.holds (IndexKey.ofBody index.definition.fields d.body)).map
          index.definition.entryOf) := by
      have hperm := hheld.contents.filter fun e => range.holds e.key
      rwa [List.filter_map] at hperm
    refine (hfound.filterMap _).trans (List.Perm.of_eq ?_)
    rw [List.filterMap_map]
    exact h.filterMap_document? fun d hd => List.mem_of_mem_filter hd
  · rw [InEntryOrder, List.pairwise_filterMap]
    have hascending : found.Pairwise fun e f => e.cmp f = .lt :=
      List.Pairwise.sublist List.filter_sublist hheld.ascending
    refine hascending.imp_of_mem fun {e f} he hf hlt d hd o ho => ?_
    obtain ⟨d', hd', rfl⟩ := hof e (List.mem_of_mem_filter he)
    obtain ⟨o', ho', rfl⟩ := hof f (List.mem_of_mem_filter hf)
    obtain rfl := Option.some.inj ((h.document?_id hd').symm.trans hd)
    obtain rfl := Option.some.inj ((h.document?_id ho').symm.trans ho)
    exact hlt

end Collection

end DocFind
