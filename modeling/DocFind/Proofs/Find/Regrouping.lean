import DocFind.Proofs.Find.Selection
import DocFind.Proofs.Plan.Regrouping

/-!
# Regrouping conjunctions changes no answer

Two selectors with the same conjuncts are planned on one index, but for ranges and residuals that
may differ, so their scans may yield different documents. What passes is the same on both sides:
the accepted documents in the order of the index. Sorting, reversing, skipping and limiting then act
on equal lists.
-/
namespace DocFind

theorem Direction.filter_arrange {α : Type} (direction : Direction) (p : α → Bool) (xs : List α) :
    (direction.arrange xs).filter p = direction.arrange (xs.filter p) := by
  cases direction
  · rfl
  · exact List.filter_reverse

namespace ScanPlan

/-- What a plan selects of the documents that it keeps of an ascending scan. -/
def window (plan : ScanPlan) (kept : List Document) : List Document :=
  let scanned := plan.direction.arrange kept
  ((if plan.sortInMemory then plan.sorted scanned else scanned).drop plan.skip).take plan.limit

theorem window_eq (plan : ScanPlan) (docs : List Document) :
    ((plan.passing (plan.direction.arrange docs)).drop plan.skip).take plan.limit =
      plan.window (docs.filter plan.keeps) := by
  rw [passing, Direction.filter_arrange, window]

end ScanPlan

namespace Collection

variable {c : Collection} {definition : IndexDefinition} {docs docs' : List Document}

/-- The order of the entries leaves no choice. -/
theorem InEntryOrder.eq_of_perm (h : InEntryOrder definition docs)
    (h' : InEntryOrder definition docs') (hperm : docs.Perm docs') : docs = docs' := by
  refine hperm.eq_of_pairwise (fun d e _ _ hde hed => ?_) h h'
  have hgt : (definition.entryOf d).cmp (definition.entryOf e) = .gt := Std.OrientedCmp.gt_of_lt hed
  rw [hde] at hgt
  cases hgt

/-- What a plan keeps of its scan: the accepted documents, in the order of its index. -/
theorem Consistent.plan_keeps (hc : c.Consistent) (request : FindRequest) (policy : TieBreak) :
    let plan := ScanPlan.ofRequest request c.catalog policy
    ∃ kept examined, plan.select c.source = .ok (plan.window kept, examined) ∧
      kept.Perm (c.stored.filter fun d => request.selector.accepts d.body) ∧
      InEntryOrder plan.index kept := by
  intro plan
  obtain ⟨docs, examined, hselect, hperm, horder⟩ := hc.plan_select request policy
  have hwindow : ((plan.passing (plan.direction.arrange docs)).drop plan.skip).take plan.limit =
      plan.window (docs.filter plan.keeps) := plan.window_eq docs
  have hkept := hperm.filter plan.keeps
  rw [List.filter_filter] at hkept
  have haccept : ∀ d ∈ c.stored, (plan.keeps d && plan.inRange d) =
      request.selector.accepts d.body :=
    fun d _ => (Bool.and_comm _ _).trans (ScanPlan.inRange_and_keeps d)
  refine ⟨docs.filter plan.keeps, examined, ?_, hkept.trans (.of_eq (List.filter_congr haccept)),
    horder.sublist List.filter_sublist⟩
  rw [← hwindow]
  exact hselect

/-- With the same conjuncts and options the same documents are selected, in the same order. -/
theorem Consistent.select_regrouped (hc : c.Consistent) {a b : Selector}
    (h : (Constraints.ofSelector a).SameConjuncts (.ofSelector b)) (options : FindOptions)
    (policy : TieBreak) :
    ∃ selected examined examined',
      (ScanPlan.ofRequest ⟨a, options⟩ c.catalog policy).select c.source =
        .ok (selected, examined) ∧
      (ScanPlan.ofRequest ⟨b, options⟩ c.catalog policy).select c.source =
        .ok (selected, examined') := by
  let p := ScanPlan.ofRequest ⟨a, options⟩ c.catalog policy
  let q := ScanPlan.ofRequest ⟨b, options⟩ c.catalog policy
  have hindex : p.index = q.index :=
    ScanPlan.regrouped_congr h options c.catalog policy ScanPlan.index fun _ _ _ _ => rfl
  have hwindow : p.window = q.window :=
    ScanPlan.regrouped_congr h options c.catalog policy ScanPlan.window fun _ _ _ _ => rfl
  obtain ⟨kept, examined, hselect, hperm, horder⟩ := hc.plan_keeps ⟨a, options⟩ policy
  obtain ⟨kept', examined', hselect', hperm', horder'⟩ := hc.plan_keeps ⟨b, options⟩ policy
  have haccept : (fun d : Document => b.accepts d.body) = fun d => a.accepts d.body :=
    funext fun d => (Selector.holds_congr h (.body d.body)).symm
  rw [haccept] at hperm'
  have horder' : InEntryOrder p.index kept' := hindex ▸ horder'
  obtain rfl := horder.eq_of_perm horder' (hperm.trans hperm'.symm)
  have hselect' : q.select c.source = .ok (p.window kept, examined') := hwindow ▸ hselect'
  exact ⟨_, examined, examined', hselect, hselect'⟩

/-- On every collection that writes lead to, two selectors whose conjuncts are permutations of each
other are answered alike: the documents and their order, the index, whether it was scanned in full,
and the warning. -/
theorem find_of_conjuncts_perm (writes : List Write) (config : FindConfig) {a b : Selector}
    (h : a.conjuncts.Perm b.conjuncts) (options : FindOptions) (elapsedMs elapsedMs' : Nat) :
    let c := empty.run writes
    ∃ result result',
      (find c.source c.catalog config ⟨a, options⟩ elapsedMs).1 = .ok result ∧
      (find c.source c.catalog config ⟨b, options⟩ elapsedMs').1 = .ok result' ∧
      result.docs = result'.docs ∧ result.index = result'.index ∧
      result.fullScan = result'.fullScan ∧ result.warning = result'.warning := by
  intro c
  have hc : c.Consistent := empty_consistent.run writes
  have hsame : (Constraints.ofSelector a).SameConjuncts (.ofSelector b) := fun s => h.mem_iff
  obtain ⟨selected, examined, examined', hselect, hselect'⟩ :=
    hc.select_regrouped hsame options config.tieBreak
  refine ⟨_, _, find_eq_result hselect elapsedMs, find_eq_result hselect' elapsedMs',
    ?_, ?_, ?_, ?_⟩
  · exact ScanPlan.regrouped_congr hsame options c.catalog config.tieBreak
      (fun plan => selected.map plan.shape) fun _ _ _ _ => rfl
  · exact ScanPlan.regrouped_congr hsame options c.catalog config.tieBreak
      (fun plan => plan.index.name) fun _ _ _ _ => rfl
  · exact ScanPlan.regrouped_congr hsame options c.catalog config.tieBreak
      ScanPlan.isFullScan fun _ _ _ _ => rfl
  · exact ScanPlan.regrouped_congr hsame options c.catalog config.tieBreak
      (fun plan => plan.warning.map Warning.text) fun _ _ _ _ => rfl

/-- Two equalities of one field, of which the index takes the first, and a bound stated twice. -/
theorem find_of_conjuncts_perm_contradictory :
    let five : Selector := .field ⟨["m"]⟩ (.compare .eq (.int32 5))
    let seven : Selector := .field ⟨["m"]⟩ (.compare .eq (.int32 7))
    let bound : Selector := .field ⟨["n"]⟩ (.compare .gte (.int32 1))
    let a : Selector := .combine .and [five, seven, bound, bound]
    let b : Selector := .combine .and [bound, .combine .and [bound, .combine .and [seven, five]]]
    let d : Document := ⟨"d", [("_id", .string "d"), ("m", .int32 7), ("n", .int32 1)], []⟩
    let c := empty.run [.insert d, .createIndex ["m", "n"] none]
    a.conjuncts.Perm b.conjuncts ∧ ∃ result result',
      (find c.source c.catalog .default ⟨a, .default .default⟩ 0).1 = .ok result ∧
      (find c.source c.catalog .default ⟨b, .default .default⟩ 0).1 = .ok result' ∧
      result.docs = result'.docs := by
  intro five seven bound a b d c
  have hperm : a.conjuncts.Perm b.conjuncts :=
    (List.reverse_perm [five, seven, bound, bound]).symm
  obtain ⟨result, result', hfind, hfind', hdocs, -⟩ := find_of_conjuncts_perm
    [.insert d, .createIndex ["m", "n"] none] .default hperm (.default .default) 0 0
  exact ⟨hperm, result, result', hfind, hfind', hdocs⟩

end Collection

end DocFind
