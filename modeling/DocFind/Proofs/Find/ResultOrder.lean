import DocFind.Proofs.Find.Selection

/-!
# The order of results

Results come in the order of the sort, whether the plan sorts or relies on an index, and documents
that tie come in the order of their entries in the chosen index, or in the reverse of it where a
descending sort is served by the index. Results without a sort come in the order of the entries.
-/
namespace DocFind

namespace Collection

variable {definition : IndexDefinition} {docs : List Document}

/-- Documents by a sort, and those that tie under it by their entries in the given direction. -/
structure InSortOrder (definition : IndexDefinition) (sort : SortOrder) (ties : Direction)
    (docs : List Document) : Prop where
  sorted : docs.Pairwise fun d e => (sort.cmp d.body e.body).isLE = true
  tied : docs.Pairwise fun d e => sort.cmp d.body e.body = .eq →
    ties.orient ((definition.entryOf d).cmp (definition.entryOf e)) = .lt

theorem InSortOrder.sublist {sort : SortOrder} {ties : Direction} {some : List Document}
    (h : InSortOrder definition sort ties docs) (hsub : some.Sublist docs) :
    InSortOrder definition sort ties some where
  sorted := h.sorted.sublist hsub
  tied := h.tied.sublist hsub

/-- Sorting in memory leaves ties in the order of the scan. -/
theorem InEntryOrder.sortBy (h : InEntryOrder definition docs) (sort : SortOrder) :
    InSortOrder definition sort .asc (sort.sortBy Document.body docs) where
  sorted := sort.sortBy_sorted Document.body docs
  tied := sort.sortBy_stable Document.body docs h

/-- Documents that agree in the fixed fields are in the order that their index provides, and in the
reverse of it when the scan is reversed. -/
theorem InEntryOrder.arrange {sort : SortOrder} {fixed : Nat} (h : InEntryOrder definition docs)
    (hprovides : providesOrder definition fixed sort = true)
    (hagree : ∀ d ∈ docs, ∀ e ∈ docs,
      SortOrder.cmpFields d.body e.body (definition.fields.take fixed) = .eq) :
    InSortOrder definition sort sort.direction (sort.direction.arrange docs) := by
  have hfields : docs.Pairwise fun d e =>
      (SortOrder.cmpFields d.body e.body sort.fields).isLE = true := by
    refine h.imp_of_mem fun {d e} hd he hlt => ?_
    refine providesOrder_sound hprovides (hagree d hd e he) ?_
    rw [SortOrder.cmpFields_eq]
    have hle : ((definition.entryOf d).cmp (definition.entryOf e)).isLE = true := by simp [hlt]
    exact (Ordering.isLE_then_iff_and.mp hle).1
  obtain ⟨fields, direction⟩ := sort
  cases direction with
  | asc =>
    refine ⟨hfields, List.Pairwise.imp ?_ h⟩
    intro d e hlt _
    exact hlt
  | desc =>
    refine ⟨List.pairwise_reverse.mpr (hfields.imp fun {d e} hle => ?_),
      List.pairwise_reverse.mpr (h.imp fun {d e} hlt _ => ?_)⟩
    · rw [SortOrder.cmp, Direction.orient, ← SortOrder.cmpFields_swap]
      exact hle
    · rw [Direction.orient, Ordering.swap_eq_lt]
      exact Std.OrientedCmp.gt_of_lt hlt

end Collection

namespace ScanPlan

open Collection (InEntryOrder InSortOrder)

variable {request : FindRequest} {catalog : IndexCatalog} {policy : TieBreak} {docs : List Document}

/-- Without a sort what passes comes in the order of the scan. -/
theorem passing_inEntryOrder (hsort : request.options.sort = none)
    (horder : InEntryOrder (ofRequest request catalog policy).index docs) :
    let plan := ofRequest request catalog policy
    InEntryOrder plan.index (plan.passing (plan.direction.arrange docs)) := by
  intro plan
  obtain ⟨hmemory, hdirection⟩ : plan.sortInMemory = false ∧ plan.direction = .asc :=
    direction_of_no_sort hsort
  rw [passing_of_scan hmemory, hdirection]
  exact List.Pairwise.sublist List.filter_sublist horder

/-- With a sort what passes is sorted, in memory or because the index provides the order. -/
theorem passing_inSortOrder {sort : SortOrder} (hsort : request.options.sort = some sort)
    (horder : InEntryOrder (ofRequest request catalog policy).index docs)
    (hrange : ∀ d ∈ docs, (ofRequest request catalog policy).inRange d = true) :
    let plan := ofRequest request catalog policy
    InSortOrder plan.index sort (if plan.sortInMemory then .asc else sort.direction)
      (plan.passing (plan.direction.arrange docs)) := by
  intro plan
  have hcases : (plan.sortInMemory = true ∧ plan.direction = .asc) ∨
      (plan.sortInMemory = false ∧ plan.direction = sort.direction ∧
        providesOrder plan.index (derived request catalog policy).fixed sort = true) :=
    order_cases hsort
  rcases hcases with ⟨hmemory, hdirection⟩ | ⟨hmemory, hdirection, hprovides⟩
  · have hkept : InEntryOrder plan.index (docs.filter plan.keeps) :=
      List.Pairwise.sublist List.filter_sublist horder
    have hplan : plan.sort = some sort := hsort
    rw [passing_of_sort hmemory hplan, hdirection, if_pos hmemory]
    exact hkept.sortBy sort
  · have hagree : ∀ d ∈ docs, ∀ e ∈ docs, SortOrder.cmpFields d.body e.body
        (plan.index.fields.take (derived request catalog policy).fixed) = .eq :=
      fun d hd e he => agree_of_inRange (hrange d hd) (hrange e he)
    have hscan : ¬ plan.sortInMemory = true := by simp [hmemory]
    rw [passing_of_scan hmemory, hdirection, if_neg hscan]
    exact (horder.arrange hprovides hagree).sublist List.filter_sublist

end ScanPlan

namespace Collection

/-- What a find selects and returns comes in order, whatever index its plan has chosen. -/
theorem find_in_order (writes : List Write) (config : FindConfig) (request : FindRequest)
    (elapsedMs : Nat) :
    let c := empty.run writes
    let plan := ScanPlan.ofRequest request c.catalog config.tieBreak
    ∃ selected examined result, plan.select c.source = .ok (selected, examined) ∧
      (find c.source c.catalog config request elapsedMs).1 = .ok result ∧
      result.docs = selected.map plan.shape ∧
      match request.options.sort with
      | none => InEntryOrder plan.index selected
      | some sort => InSortOrder plan.index sort
          (if plan.sortInMemory then .asc else sort.direction) selected := by
  intro c plan
  have hc : c.Consistent := empty_consistent.run writes
  obtain ⟨docs, examined, hselect, hperm, horder⟩ := hc.plan_select request config.tieBreak
  obtain ⟨result, hfind, hdocs⟩ := find_of_select hselect elapsedMs
  -- Skipping and taking leave a sublist of what passes, and so its order.
  have hwindow : (((plan.passing (plan.direction.arrange docs)).drop plan.skip).take
      plan.limit).Sublist (plan.passing (plan.direction.arrange docs)) :=
    (List.take_sublist _ _).trans (List.drop_sublist _ _)
  refine ⟨_, examined, result, hselect, hfind, hdocs, ?_⟩
  cases hsort : request.options.sort with
  | none => exact List.Pairwise.sublist hwindow (ScanPlan.passing_inEntryOrder hsort horder)
  | some sort =>
    have hrange : ∀ d ∈ docs, plan.inRange d = true :=
      fun d hd => (List.mem_filter.mp (hperm.mem_iff.mp hd)).2
    exact (ScanPlan.passing_inSortOrder hsort horder hrange).sublist hwindow

end Collection

end DocFind
