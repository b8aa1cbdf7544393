import DocFind.Index.FieldIndex
import DocFind.Proofs.Index.KeyOrder

/-!
# What an index holds

An index holds a list of documents if its entries are theirs, in ascending order, and it counts
them. Adding and dropping a document keep this, so that maintaining an index write by write and
building it anew give the same index, whatever the order in which it is built.
-/
namespace DocFind

/-- The entry of a document in an index of this definition. -/
def IndexDefinition.entryOf (definition : IndexDefinition) (d : Document) : IndexEntry :=
  ⟨.ofBody definition.fields d.body, d.id⟩

namespace IndexEntry

/-- Entries in ascending order, none of them twice. -/
def Ascending (entries : List IndexEntry) : Prop := entries.Pairwise fun e f => e.cmp f = .lt

theorem id_eq_of_cmp_eq {e f : IndexEntry} (h : e.cmp f = .eq) : e.id = f.id := by
  rw [cmp, Ordering.then_eq_eq] at h
  exact Std.LawfulEqCmp.eq_of_compare h.2

theorem isIn_iff {e : IndexEntry} {es : List IndexEntry} :
    e.isIn es = true ↔ ∃ f ∈ es, e.cmp f = .eq := by
  simp [isIn, List.any_eq_true]

theorem isIn_of_mem {e : IndexEntry} {es : List IndexEntry} (h : e ∈ es) : e.isIn es = true :=
  isIn_iff.mpr ⟨e, h, Std.ReflCmp.compare_self⟩

theorem insert_perm {e : IndexEntry} {es : List IndexEntry} (h : ¬ e.isIn es = true) :
    (e.insert es).Perm (e :: es) := by
  induction es with
  | nil => exact .refl _
  | cons f es ih =>
    rw [insert]
    cases hc : e.cmp f with
    | lt => exact .refl _
    | eq => exact absurd (isIn_iff.mpr ⟨f, List.mem_cons_self, hc⟩) h
    | gt =>
      have hrest : ¬ e.isIn es = true := by
        intro hin
        obtain ⟨g, hg, heq⟩ := isIn_iff.mp hin
        exact h (isIn_iff.mpr ⟨g, List.mem_cons_of_mem _ hg, heq⟩)
      exact ((ih hrest).cons f).trans (.swap _ _ _)

theorem insert_ascending {e : IndexEntry} {es : List IndexEntry} (h : ¬ e.isIn es = true)
    (hes : Ascending es) : Ascending (e.insert es) := by
  induction es with
  | nil => exact List.pairwise_singleton _ _
  | cons f es ih =>
    obtain ⟨hf, hrest⟩ := List.pairwise_cons.mp hes
    rw [insert]
    cases hc : e.cmp f with
    | lt =>
      refine List.pairwise_cons.mpr ⟨fun g hg => ?_, hes⟩
      rcases List.mem_cons.mp hg with rfl | hg
      · exact hc
      · exact Std.TransCmp.lt_trans hc (hf g hg)
    | eq => exact absurd (isIn_iff.mpr ⟨f, List.mem_cons_self, hc⟩) h
    | gt =>
      have hin : ¬ e.isIn es = true := by
        intro hin
        obtain ⟨g, hg, heq⟩ := isIn_iff.mp hin
        exact h (isIn_iff.mpr ⟨g, List.mem_cons_of_mem _ hg, heq⟩)
      refine List.pairwise_cons.mpr ⟨fun g hg => ?_, ih hin hrest⟩
      rcases List.mem_cons.mp ((insert_perm hin).mem_iff.mp hg) with rfl | hg
      · exact Std.OrientedCmp.lt_of_gt hc
      · exact hf g hg

theorem remove_sublist (e : IndexEntry) (es : List IndexEntry) :
    (e.remove es).Sublist es := by
  induction es with
  | nil => exact .slnil
  | cons f es ih =>
    rw [remove]
    cases e.cmp f with
    | lt => exact .refl _
    | eq => exact List.sublist_cons_self f es
    | gt => exact ih.cons_cons f

/-- In ascending entries the one that is dropped is the very entry that was there. -/
theorem perm_cons_remove {e : IndexEntry} {es : List IndexEntry} (hes : Ascending es)
    (h : e ∈ es) : es.Perm (e :: e.remove es) := by
  induction es with
  | nil => simp at h
  | cons f es ih =>
    obtain ⟨hf, hrest⟩ := List.pairwise_cons.mp hes
    have hself : e.cmp e = .eq := Std.ReflCmp.compare_self
    rw [remove]
    rcases List.mem_cons.mp h with rfl | hmem
    · rw [hself]
    · have hgt : e.cmp f = .gt := Std.OrientedCmp.gt_of_lt (hf e hmem)
      rw [hgt]
      exact ((ih hrest hmem).cons f).trans (.swap _ _ _)

/-- Ascending lists of the same entries are the same list. -/
theorem eq_of_perm {es fs : List IndexEntry} (hes : Ascending es) (hfs : Ascending fs)
    (h : es.Perm fs) : es = fs := by
  refine h.eq_of_pairwise (fun e f _ _ hef hfe => ?_) hes hfs
  have hgt : e.cmp f = .gt := Std.OrientedCmp.gt_of_lt hfe
  rw [hef] at hgt
  cases hgt

end IndexEntry

namespace FieldIndex

variable {index : FieldIndex} {d : Document} {docs : List Document}

/-- The index holds the entries of these documents and no others. -/
structure Holds (index : FieldIndex) (docs : List Document) : Prop where
  ascending : IndexEntry.Ascending index.entries
  contents : index.entries.Perm (docs.map index.definition.entryOf)
  counted : index.count = docs.length

@[simp] theorem insert_definition (index : FieldIndex) (d : Document) :
    (index.insert d).definition = index.definition := by
  rw [insert]
  split <;> rfl

@[simp] theorem remove_definition (index : FieldIndex) (d : Document) :
    (index.remove d).definition = index.definition := by
  rw [remove]
  split <;> rfl

theorem entryOf_eq (index : FieldIndex) : index.entryOf = index.definition.entryOf := rfl

theorem Holds.perm {docs' : List Document} (h : index.Holds docs) (hp : docs.Perm docs') :
    index.Holds docs' where
  ascending := h.ascending
  contents := h.contents.trans (hp.map _)
  counted := h.counted.trans hp.length_eq

theorem Holds.isIn_iff (h : index.Holds docs) :
    (index.entryOf d).isIn index.entries = true ↔
      ∃ o ∈ docs, (index.entryOf d).cmp (index.entryOf o) = .eq := by
  rw [IndexEntry.isIn_iff, entryOf_eq]
  simp only [h.contents.mem_iff, List.mem_map, exists_exists_and_eq_and]

theorem empty_holds (definition : IndexDefinition) : (empty definition).Holds [] where
  ascending := List.Pairwise.nil
  contents := .refl _
  counted := rfl

/-- Adding a document of a new identifier. -/
theorem Holds.insert (h : index.Holds docs) (hd : ∀ o ∈ docs, o.id ≠ d.id) :
    (index.insert d).Holds (d :: docs) := by
  have hnew : ¬ (index.entryOf d).isIn index.entries = true := by
    rw [h.isIn_iff]
    rintro ⟨o, ho, heq⟩
    exact hd o ho (IndexEntry.id_eq_of_cmp_eq heq).symm
  have hinsert : index.insert d =
      { index with
        entries := (index.entryOf d).insert index.entries, count := index.count + 1 } :=
    if_neg hnew
  refine ⟨?_, ?_, ?_⟩
  · rw [hinsert]
    exact IndexEntry.insert_ascending hnew h.ascending
  · rw [insert_definition, hinsert]
    exact (IndexEntry.insert_perm hnew).trans (h.contents.cons _)
  · rw [hinsert, List.length_cons, ← h.counted]

/-- Dropping one of the documents. -/
theorem Holds.remove (h : index.Holds (d :: docs)) : (index.remove d).Holds docs := by
  have hmem : index.entryOf d ∈ index.entries := by
    rw [h.contents.mem_iff]
    exact List.mem_cons_self
  have hremove : index.remove d =
      { index with
        entries := (index.entryOf d).remove index.entries, count := index.count - 1 } :=
    if_pos (IndexEntry.isIn_of_mem hmem)
  refine ⟨?_, ?_, ?_⟩
  · rw [hremove]
    exact h.ascending.sublist (IndexEntry.remove_sublist _ _)
  · rw [remove_definition, hremove]
    have hperm := (IndexEntry.perm_cons_remove h.ascending hmem).symm.trans h.contents
    exact List.Perm.cons_inv hperm
  · rw [hremove]
    have hcount := h.counted
    rw [List.length_cons] at hcount
    simp only
    omega

/-! ## Building -/

theorem foldl_insert_definition (docs : List Document) (index : FieldIndex) :
    (docs.foldl FieldIndex.insert index).definition = index.definition := by
  induction docs generalizing index with
  | nil => rfl
  | cons d docs ih => rw [List.foldl_cons, ih, insert_definition]

@[simp] theorem build_definition (definition : IndexDefinition) (docs : List Document) :
    (build definition docs).definition = definition :=
  foldl_insert_definition docs _

theorem Holds.foldl_insert {added : List Document} (h : index.Holds docs)
    (hnodup : (added.map Document.id).Nodup)
    (hnew : ∀ d ∈ added, ∀ o ∈ docs, o.id ≠ d.id) :
    (added.foldl FieldIndex.insert index).Holds (added ++ docs) := by
  induction added generalizing index docs with
  | nil => exact h
  | cons d added ih =>
    obtain ⟨hd, hnodup⟩ := List.nodup_cons.mp hnodup
    have hstep := h.insert (hnew d List.mem_cons_self)
    refine (ih hstep hnodup fun a ha o ho => ?_).perm List.perm_middle
    rcases List.mem_cons.mp ho with rfl | ho
    · exact fun he => hd (he ▸ List.mem_map.mpr ⟨a, ha, rfl⟩)
    · exact hnew a (List.mem_cons_of_mem _ ha) o ho

theorem build_holds (definition : IndexDefinition) {docs : List Document}
    (hids : (docs.map Document.id).Nodup) : (build definition docs).Holds docs := by
  have h := (empty_holds definition).foldl_insert hids (by simp)
  rwa [List.append_nil] at h

/-- What an index holds determines it. -/
theorem Holds.unique {other : FieldIndex} (h : index.Holds docs) (ho : other.Holds docs)
    (hdef : index.definition = other.definition) : index = other := by
  have hcontents := ho.contents
  rw [← hdef] at hcontents
  have hentries := IndexEntry.eq_of_perm h.ascending ho.ascending
    (h.contents.trans hcontents.symm)
  have hcount := h.counted.trans ho.counted.symm
  cases index
  cases other
  simp only at hdef hentries hcount
  rw [hdef, hentries, hcount]

/-- An index kept up write by write is the one built over its documents, in any order. -/
theorem Holds.eq_build {docs' : List Document} (h : index.Holds docs)
    (hids : (docs.map Document.id).Nodup) (hp : docs'.Perm docs) :
    index = build index.definition docs' :=
  (h.perm hp.symm).unique (build_holds _ ((hp.map _).nodup_iff.mpr hids))
    (build_definition _ _).symm

end FieldIndex

end DocFind
