import DocFind.Proofs.Index.Contents

/-!
# Indexes under changes

However documents are added to an index and dropped from it, its entries ascend, each of them is the
entry of some document, and the latest change about an entry decides whether it is there. Nothing is
assumed of the documents: they may come twice, share an identifier or never have been added.
-/
namespace DocFind

namespace IndexEntry

variable {e f : IndexEntry} {es : List IndexEntry}

theorem mem_remove (hes : Ascending es) : f ∈ e.remove es ↔ f ∈ es ∧ e.cmp f ≠ .eq := by
  induction es with
  | nil => simp [remove]
  | cons g es ih =>
    obtain ⟨hg, hrest⟩ := List.pairwise_cons.mp hes
    rw [remove]
    cases hc : e.cmp g with
    | lt =>
      refine ⟨fun hf => ⟨hf, ?_⟩, And.left⟩
      rcases List.mem_cons.mp hf with rfl | hf
      · simp [hc]
      · simp [Std.TransCmp.lt_trans hc (hg f hf)]
    | eq =>
      constructor
      · intro hf
        exact ⟨List.mem_cons_of_mem g hf, by simp [Std.TransCmp.lt_of_eq_of_lt hc (hg f hf)]⟩
      · rintro ⟨hf, hne⟩
        rcases List.mem_cons.mp hf with rfl | hf
        · exact absurd hc hne
        · exact hf
    | gt =>
      have hne : e.cmp g ≠ .eq := by simp [hc]
      simp only [List.mem_cons, ih hrest]
      constructor
      · rintro (rfl | ⟨hf, hf'⟩)
        · exact ⟨.inl rfl, hne⟩
        · exact ⟨.inr hf, hf'⟩
      · rintro ⟨rfl | hf, hf'⟩
        · exact .inl rfl
        · exact .inr ⟨hf, hf'⟩

/-- Only what is equal to the dropped entry goes. -/
theorem isIn_remove (hes : Ascending es) :
    f.isIn (e.remove es) = true ↔ f.isIn es = true ∧ f.cmp e ≠ .eq := by
  simp only [isIn_iff, mem_remove hes]
  constructor
  · rintro ⟨g, ⟨hg, hne⟩, hfg⟩
    refine ⟨⟨g, hg, hfg⟩, fun hfe => hne ?_⟩
    exact Std.TransCmp.eq_trans (Std.OrientedCmp.eq_symm hfe) hfg
  · rintro ⟨⟨g, hg, hfg⟩, hne⟩
    refine ⟨g, ⟨hg, fun heg => hne ?_⟩, hfg⟩
    exact Std.TransCmp.eq_trans hfg (Std.OrientedCmp.eq_symm heg)

end IndexEntry

/-- A change to an index. -/
inductive IndexChange where
  | insert (d : Document)
  | remove (d : Document)

/-- Whether an entry is there behind a change, from whether it was before. -/
def IndexChange.leaves (definition : IndexDefinition) (e : IndexEntry) (before : Bool) :
    IndexChange → Bool
  | insert d => before || e.cmp (definition.entryOf d) == .eq
  | remove d => before && e.cmp (definition.entryOf d) != .eq

/-- Whether an entry is there behind some changes to an index without entries: the latest change
about it decides. -/
def IndexDefinition.lists (definition : IndexDefinition) (changes : List IndexChange)
    (e : IndexEntry) : Bool :=
  changes.foldl (fun before change => change.leaves definition e before) false

namespace FieldIndex

variable {index : FieldIndex}

/-- The index behind a change. -/
def apply (index : FieldIndex) : IndexChange → FieldIndex
  | .insert d => index.insert d
  | .remove d => index.remove d

/-- The index behind some changes. -/
def run (index : FieldIndex) (changes : List IndexChange) : FieldIndex := changes.foldl apply index

theorem build_eq_run (definition : IndexDefinition) (docs : List Document) :
    build definition docs = (empty definition).run (docs.map .insert) := by
  rw [run, List.foldl_map]
  rfl

theorem run_append (index : FieldIndex) (changes more : List IndexChange) :
    index.run (changes ++ more) = (index.run changes).run more := List.foldl_append

@[simp] theorem apply_definition (index : FieldIndex) (change : IndexChange) :
    (index.apply change).definition = index.definition := by
  cases change with
  | insert d => exact insert_definition index d
  | remove d => exact remove_definition index d

theorem run_definition (index : FieldIndex) (changes : List IndexChange) :
    (index.run changes).definition = index.definition := by
  induction changes generalizing index with
  | nil => rfl
  | cons change changes ih => exact (ih (index.apply change)).trans (apply_definition index change)

/-- The entries ascend, and each is the entry of some document. -/
structure Proper (index : FieldIndex) : Prop where
  ascending : IndexEntry.Ascending index.entries
  keyed : ∀ e ∈ index.entries, ∃ d, e = index.definition.entryOf d

theorem empty_proper (definition : IndexDefinition) : (empty definition).Proper where
  ascending := List.Pairwise.nil
  keyed _ he := absurd he List.not_mem_nil

theorem Proper.insert (h : index.Proper) (d : Document) : (index.insert d).Proper := by
  rw [FieldIndex.insert]
  split
  · exact h
  · rename_i hnew
    refine ⟨IndexEntry.insert_ascending hnew h.ascending, fun e he => ?_⟩
    rcases List.mem_cons.mp ((IndexEntry.insert_perm hnew).mem_iff.mp he) with rfl | he
    · exact ⟨d, rfl⟩
    · exact h.keyed e he

theorem Proper.remove (h : index.Proper) (d : Document) : (index.remove d).Proper := by
  rw [FieldIndex.remove]
  split
  · exact ⟨h.ascending.sublist (IndexEntry.remove_sublist _ _),
      fun e he => h.keyed e ((IndexEntry.remove_sublist _ _).subset he)⟩
  · exact h

theorem Proper.apply (h : index.Proper) (change : IndexChange) : (index.apply change).Proper := by
  cases change with
  | insert d => exact h.insert d
  | remove d => exact h.remove d

theorem Proper.run (h : index.Proper) (changes : List IndexChange) :
    (index.run changes).Proper := by
  induction changes generalizing index with
  | nil => exact h
  | cons change changes ih => exact ih (h.apply change)

/-! ## What is there -/

theorem isIn_insert (index : FieldIndex) (d : Document) (e : IndexEntry) :
    e.isIn (index.insert d).entries = true ↔
      e.isIn index.entries = true ∨ e.cmp (index.definition.entryOf d) = .eq := by
  rw [insert]
  split
  · rename_i hin
    obtain ⟨f, hf, hdf⟩ := IndexEntry.isIn_iff.mp hin
    refine ⟨.inl, fun h => h.elim id fun hed => ?_⟩
    exact IndexEntry.isIn_iff.mpr ⟨f, hf, Std.TransCmp.eq_trans hed hdf⟩
  · rename_i hnew
    simp only [IndexEntry.isIn_iff, (IndexEntry.insert_perm hnew).mem_iff, List.mem_cons,
      exists_eq_or_imp]
    exact or_comm

theorem Proper.isIn_remove (h : index.Proper) (d : Document) (e : IndexEntry) :
    e.isIn (index.remove d).entries = true ↔
      e.isIn index.entries = true ∧ e.cmp (index.definition.entryOf d) ≠ .eq := by
  rw [FieldIndex.remove]
  split
  · exact IndexEntry.isIn_remove h.ascending
  · rename_i hout
    refine ⟨fun he => ⟨he, fun hed => hout ?_⟩, And.left⟩
    obtain ⟨f, hf, hef⟩ := IndexEntry.isIn_iff.mp he
    exact IndexEntry.isIn_iff.mpr
      ⟨f, hf, Std.TransCmp.eq_trans (Std.OrientedCmp.eq_symm hed) hef⟩

theorem Proper.isIn_apply (h : index.Proper) (change : IndexChange) (e : IndexEntry) :
    e.isIn (index.apply change).entries =
      change.leaves index.definition e (e.isIn index.entries) := by
  rw [Bool.eq_iff_iff]
  cases change with
  | insert d =>
    rw [FieldIndex.apply, isIn_insert, IndexChange.leaves, Bool.or_eq_true, beq_iff_eq]
  | remove d =>
    rw [FieldIndex.apply, h.isIn_remove, IndexChange.leaves, Bool.and_eq_true, bne_iff_ne]

/-- The latest change about an entry decides whether it is there. -/
theorem Proper.isIn_run (h : index.Proper) (changes : List IndexChange) (e : IndexEntry) :
    e.isIn (index.run changes).entries =
      changes.foldl (fun before change => change.leaves index.definition e before)
        (e.isIn index.entries) := by
  induction changes generalizing index with
  | nil => rfl
  | cons change changes ih =>
    rw [List.foldl_cons, ← h.isIn_apply, ← apply_definition index change]
    exact ih (h.apply change)

end FieldIndex

end DocFind
