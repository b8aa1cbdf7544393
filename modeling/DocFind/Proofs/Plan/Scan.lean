import DocFind.Proofs.Collection.Scan
import DocFind.Proofs.Execution.Window
import DocFind.Proofs.Plan.DerivedRange
import DocFind.Proofs.SortOrder.Laws

/-!
# What the scan of a plan yields

A plan scans an index of the catalog in a range derived for it. On a consistent collection with this
catalog the scan cannot fail; it yields the documents of the range in the order of the index, and
the ones that pass the residual are those that the selector accepts. Where a plan does not sort, the
order of the index is the wanted one, because the documents of the range agree in the fields that
the sort skips.
-/
namespace DocFind

/-- A candidate is an index of the catalog with the number of its constrained leading fields. -/
theorem of_mem_select {catalog : IndexCatalog} {c : Constraints} {policy : TieBreak}
    {candidate : Candidate} (h : candidate ∈ catalog.select c policy) :
    candidate.definition ∈ catalog.definitions ∧
      candidate.covered = c.covered candidate.definition.fields := by
  rw [IndexCatalog.select, List.mem_mergeSort, IndexCatalog.candidates, List.mem_filterMap] at h
  obtain ⟨⟨d, position⟩, hmem, hd⟩ := h
  dsimp only at hd
  split_ifs at hd
  obtain rfl := Option.some.inj hd
  exact ⟨(List.mem_zipIdx hmem).2.2 ▸ List.getElem_mem _, rfl⟩

theorem mem_of_followHint {catalog : IndexCatalog} {candidates : List Candidate}
    {hint : Option String} {chosen : Candidate}
    (h : (followHint catalog candidates hint).1 = some chosen) : chosen ∈ candidates := by
  cases hint with
  | none => exact List.mem_of_mem_head? h
  | some name =>
    rw [followHint] at h
    split at h
    · rename_i found hfound
      obtain rfl := Option.some.inj h
      exact List.mem_of_find?_eq_some hfound
    · exact List.mem_of_mem_head? h

/-- Without candidates no index has a constrained leading field. -/
theorem covered_of_select_eq_nil {catalog : IndexCatalog} {c : Constraints} {policy : TieBreak}
    (h : catalog.select c policy = []) {d : IndexDefinition} (hd : d ∈ catalog.definitions) :
    c.covered d.fields = 0 := by
  have hnone : catalog.candidates c = [] := by
    have hperm : (catalog.select c policy).Perm (catalog.candidates c) := List.mergeSort_perm _ _
    rw [h] at hperm
    exact hperm.symm.eq_nil
  obtain ⟨i, hi⟩ := List.mem_iff_getElem?.mp hd
  have hcovered := List.filterMap_eq_nil_iff.mp hnone (d, i)
    (List.mem_zipIdx_iff_getElem?.mpr hi)
  dsimp only at hcovered
  split_ifs at hcovered
  omega

theorem select_eq_nil_of_followHint {catalog : IndexCatalog} {candidates : List Candidate}
    {hint : Option String} (h : (followHint catalog candidates hint).1 = none) :
    candidates = [] := by
  cases hint with
  | none => exact List.head?_eq_none_iff.mp h
  | some name =>
    rw [followHint] at h
    split at h
    · cases h
    · exact List.head?_eq_none_iff.mp h

theorem fallback_mem {catalog : IndexCatalog} (hc : catalog.WellFormed) (sort : Option SortOrder) :
    fallback catalog sort ∈ catalog.definitions := by
  rw [fallback]
  cases hfound : sort.bind fun s => catalog.definitions.find? fun d => providesOrder d 0 s with
  | some d =>
    obtain ⟨s, -, hs⟩ := Option.bind_eq_some_iff.mp hfound
    exact List.mem_of_find?_eq_some hs
  | none =>
    obtain ⟨rest, hrest⟩ := List.head?_eq_some_iff.mp hc.primary
    rw [Option.getD_none, IndexCatalog.primary, hrest]
    exact List.mem_cons_self

namespace ScanPlan

variable {request : FindRequest} {catalog : IndexCatalog} {policy : TieBreak}

/-- The range that a plan was made from. -/
def derived (request : FindRequest) (catalog : IndexCatalog) (policy : TieBreak) : DerivedRange :=
  deriveRange (.ofSelector request.selector) (ofRequest request catalog policy).index.fields

theorem derived_sound : (derived request catalog policy).Sound (.ofSelector request.selector)
    (ofRequest request catalog policy).index.fields :=
  deriveRange_sound _ _

theorem index_mem (hc : catalog.WellFormed) :
    (ofRequest request catalog policy).index ∈ catalog.definitions := by
  rw [ofRequest]
  dsimp only
  split
  · rename_i chosen hchosen
    exact (of_mem_select (mem_of_followHint hchosen)).1
  · exact fallback_mem hc _

/-- A plan counts the leading fields of its index that the selector constrains, also where it falls
back on an index because the selector can use none. -/
theorem covered_eq (hc : catalog.WellFormed) : (ofRequest request catalog policy).covered =
    (Constraints.ofSelector request.selector).covered
      (ofRequest request catalog policy).index.fields := by
  rw [ofRequest]
  dsimp only
  split
  · rename_i chosen hchosen
    exact (of_mem_select (mem_of_followHint hchosen)).2
  · rename_i hnone
    exact (covered_of_select_eq_nil (select_eq_nil_of_followHint hnone) (fallback_mem hc _)).symm

/-- A plan scans in full just if its leading field is not constrained. -/
theorem isFullScan_eq (hc : catalog.WellFormed) : (ofRequest request catalog policy).isFullScan =
    ((ofRequest request catalog policy).index.fields.head?.bind
      (Constraints.ofSelector request.selector).on?).isNone := by
  rw [isFullScan, covered_eq hc, Constraints.covered]
  cases (ofRequest request catalog policy).index.fields with
  | nil => rfl
  | cons path rest =>
    rw [List.takeWhile_cons, List.head?_cons, Option.bind_some]
    cases (Constraints.ofSelector request.selector).on? path <;> simp

theorem range_eq : (ofRequest request catalog policy).range =
    (derived request catalog policy).range := rfl

theorem residual_eq : (ofRequest request catalog policy).residual =
    (Constraints.ofSelector request.selector).residual (derived request catalog policy).used := rfl

/-- Whether the key of a document lies in the range of a plan. -/
def inRange (plan : ScanPlan) (d : Document) : Bool :=
  plan.range.holds (.ofBody plan.index.fields d.body)

/-- Range and residual together are the selector. -/
theorem inRange_and_keeps (d : Document) :
    ((ofRequest request catalog policy).inRange d && (ofRequest request catalog policy).keeps d) =
      request.selector.accepts d.body := by
  rw [Bool.eq_iff_iff, Bool.and_eq_true, inRange, range_eq, derived_sound.settles, keeps,
    residual_eq]
  exact (Constraints.accepts_iff_used_and_residual _ _ _).symm

/-- The documents in the range of a plan agree in the fields that it fixes. -/
theorem agree_of_inRange {d e : Document}
    (hd : (ofRequest request catalog policy).inRange d = true)
    (he : (ofRequest request catalog policy).inRange e = true) :
    SortOrder.cmpFields d.body e.body ((ofRequest request catalog policy).index.fields.take
      (derived request catalog policy).fixed) = .eq := by
  have hsound : (derived request catalog policy).Sound _ _ := derived_sound
  obtain ⟨pins, hpins⟩ := hsound.pinned
  rw [SortOrder.cmpFields_eq]
  exact Std.TransCmp.eq_trans (Std.OrientedCmp.eq_symm (hpins d.body hd)) (hpins e.body he)

/-! ## Order -/

theorem scanOrder_eq (request : FindRequest) (catalog : IndexCatalog) (policy : TieBreak) :
    ((ofRequest request catalog policy).direction,
    (ofRequest request catalog policy).sortInMemory) =
      scanOrder (ofRequest request catalog policy).index (derived request catalog policy).fixed
        request.options.sort := rfl

theorem direction_of_no_sort (h : request.options.sort = none) :
    (ofRequest request catalog policy).sortInMemory = false ∧
      (ofRequest request catalog policy).direction = .asc := by
  have horder := scanOrder_eq request catalog policy
  rw [h] at horder
  obtain ⟨hdirection, hmemory⟩ := Prod.mk.inj horder
  exact ⟨hmemory, hdirection⟩

/-- A plan sorts what an ascending scan yields, or scans an index that has the wanted order. -/
theorem order_cases {sort : SortOrder} (h : request.options.sort = some sort) :
    ((ofRequest request catalog policy).sortInMemory = true ∧
        (ofRequest request catalog policy).direction = .asc) ∨
      ((ofRequest request catalog policy).sortInMemory = false ∧
        (ofRequest request catalog policy).direction = sort.direction ∧
        providesOrder (ofRequest request catalog policy).index
          (derived request catalog policy).fixed sort = true) := by
  have horder := scanOrder_eq request catalog policy
  rw [h, scanOrder] at horder
  split_ifs at horder with hprovides
  · obtain ⟨hdirection, hmemory⟩ := Prod.mk.inj horder
    exact .inr ⟨hmemory, hdirection, hprovides⟩
  · obtain ⟨hdirection, hmemory⟩ := Prod.mk.inj horder
    exact .inl ⟨hmemory, hdirection⟩

end ScanPlan

/-- Among bodies that agree in the fixed fields, the order of the index is the one provided. -/
theorem providesOrder_sound {d : IndexDefinition} {fixed : Nat} {sort : SortOrder}
    (h : providesOrder d fixed sort = true) {a b : Body}
    (hfixed : SortOrder.cmpFields a b (d.fields.take fixed) = .eq)
    (hkey : (SortOrder.cmpFields a b d.fields).isLE = true) :
    (SortOrder.cmpFields a b sort.fields).isLE = true := by
  rw [← SortOrder.cmpFields_filter hfixed sort.fields]
  obtain ⟨rest, hrest⟩ := List.isPrefixOf_iff_prefix.mp h
  rw [← List.take_append_drop fixed d.fields, SortOrder.cmpFields_append, hfixed,
    Ordering.eq_then, ← hrest, SortOrder.cmpFields_append] at hkey
  exact (Ordering.isLE_then_iff_and.mp hkey).1

end DocFind
