import DocFind.Find
import DocFind.Proofs.Plan.Scan

/-!
# What a find selects

On a consistent collection a find never fails. It selects a window of the documents that pass the
plan, out of those in the range, and returns them in the shape of the request.
-/
namespace DocFind

/-- A find reports what its plan selects. -/
theorem find_eq_result {source : DocumentSource} {catalog : IndexCatalog} {config : FindConfig}
    {request : FindRequest} {selected : List Document} {examined : Nat}
    (h : (ScanPlan.ofRequest request catalog config.tieBreak).select source =
      .ok (selected, examined)) (elapsedMs : Nat) :
    (find source catalog config request elapsedMs).1 =
      .ok ((ScanPlan.ofRequest request catalog config.tieBreak).result
        ⟨selected.map (ScanPlan.ofRequest request catalog config.tieBreak).shape,
          ⟨examined, examined, selected.length⟩⟩ elapsedMs) := by
  have hexecute : (ScanPlan.ofRequest request catalog config.tieBreak).execute source =
      .ok ⟨selected.map (ScanPlan.ofRequest request catalog config.tieBreak).shape,
        ⟨examined, examined, selected.length⟩⟩ := by
    rw [ScanPlan.execute, h]
    rfl
  rw [find]
  simp only [hexecute]

/-- A find returns what its plan selects, shaped. -/
theorem find_of_select {source : DocumentSource} {catalog : IndexCatalog} {config : FindConfig}
    {request : FindRequest} {selected : List Document} {examined : Nat}
    (h : (ScanPlan.ofRequest request catalog config.tieBreak).select source =
      .ok (selected, examined)) (elapsedMs : Nat) :
    ∃ result, (find source catalog config request elapsedMs).1 = .ok result ∧
      result.docs = selected.map (ScanPlan.ofRequest request catalog config.tieBreak).shape :=
  ⟨_, find_eq_result h elapsedMs, rfl⟩

/-- A find that may return something is refused if its scan is. -/
theorem find_of_scan_error {source : DocumentSource} {catalog : IndexCatalog} {config : FindConfig}
    {request : FindRequest} {failure : Failure}
    (h : source.scan (ScanPlan.ofRequest request catalog config.tieBreak).index
      (ScanPlan.ofRequest request catalog config.tieBreak).range
      (ScanPlan.ofRequest request catalog config.tieBreak).direction = .error failure)
    (hroom : 0 < request.options.limit) (elapsedMs : Nat) :
    (find source catalog config request elapsedMs).1 = .error failure := by
  have hlimit : ∃ room, (ScanPlan.ofRequest request catalog config.tieBreak).limit = room + 1 :=
    Nat.exists_eq_add_one.mpr hroom
  obtain ⟨room, hlimit⟩ := hlimit
  have hexecute : (ScanPlan.ofRequest request catalog config.tieBreak).execute source =
      .error failure := by
    rw [ScanPlan.execute, ScanPlan.select]
    simp only [hlimit, h]
    rfl
  rw [find]
  simp only [hexecute]

theorem Direction.arrange_perm {α : Type} (direction : Direction) (xs : List α) :
    (direction.arrange xs).Perm xs := by
  cases direction
  · exact .refl xs
  · exact List.reverse_perm xs

namespace ScanPlan

theorem passing_perm (plan : ScanPlan) (docs : List Document) :
    (plan.passing docs).Perm (docs.filter plan.keeps) := by
  rw [passing]
  split_ifs
  · rw [sorted]
    split
    · exact SortOrder.sortBy_perm _ _ _
    · exact .refl _
  · exact .refl _

end ScanPlan

namespace Collection

variable {c : Collection} (request : FindRequest) (policy : TieBreak)

/-- The scan of a plan yields the documents in its range in the order of its index, and the plan
selects a window of those that pass. -/
theorem Consistent.plan_select (hc : c.Consistent) :
    let plan := ScanPlan.ofRequest request c.catalog policy
    ∃ docs examined,
      plan.select c.source = .ok
        (((plan.passing (plan.direction.arrange docs)).drop plan.skip).take plan.limit, examined) ∧
      docs.Perm (c.stored.filter plan.inRange) ∧ InEntryOrder plan.index docs := by
  intro plan
  have hclear : ∀ d ∈ c.stored, plan.range.ClearOf (.ofBody plan.index.fields d.body) :=
    fun d _ => ScanPlan.derived_sound.clear _ (IndexKey.ofBody_stored _ d.body)
  obtain ⟨docs, hscan, hperm, horder⟩ :=
    hc.source_scan (ScanPlan.index_mem hc.catalog) plan.range hclear plan.direction
  obtain ⟨examined, -, hselect⟩ := plan.select_eq hscan
  exact ⟨docs, examined, hselect, hperm, horder⟩

/-- A plan made against any catalog is run on the index that has its name. When nothing is skipped
and the limit has room, it selects what lies in its range there and passes. -/
theorem Consistent.select_of_index? (hc : c.Consistent) {catalog : IndexCatalog}
    {held : FieldIndex}
    (hheld : c.index? (ScanPlan.ofRequest request catalog policy).index.name = some held)
    (hskip : request.options.skip = 0) (hlimit : c.size ≤ request.options.limit) :
    let plan := ScanPlan.ofRequest request catalog policy
    ∃ selected examined, plan.select c.source = .ok (selected, examined) ∧
      selected.Perm (c.stored.filter fun d =>
        plan.range.holds (.ofBody held.definition.fields d.body) && plan.keeps d) := by
  intro plan
  obtain ⟨hdeclared, hname⟩ := hc.index?_declared hheld
  have hclear : ∀ d ∈ c.stored, plan.range.ClearOf (.ofBody held.definition.fields d.body) :=
    fun d _ => ScanPlan.derived_sound.clear _ (IndexKey.ofBody_stored _ d.body)
  obtain ⟨docs, hscan, hperm, -⟩ := hc.source_scan hdeclared plan.range hclear plan.direction
  rw [source_scan_congr hname] at hscan
  obtain ⟨examined, -, hselect⟩ := plan.select_eq hscan
  have hpassing : (plan.passing (plan.direction.arrange docs)).Perm (c.stored.filter fun d =>
      plan.range.holds (.ofBody held.definition.fields d.body) && plan.keeps d) := by
    have hkept := ((plan.direction.arrange_perm docs).trans hperm).filter plan.keeps
    rw [List.filter_filter] at hkept
    simp only [Bool.and_comm] at hkept ⊢
    exact (plan.passing_perm _).trans hkept
  have hfits : (plan.passing (plan.direction.arrange docs)).length ≤ plan.limit := by
    have hstored : c.stored.length = c.size := Entries.length_values _
    have hle := List.length_filter_le (fun d : Document =>
      plan.range.holds (.ofBody held.definition.fields d.body) && plan.keeps d) c.stored
    have hroom : c.size ≤ plan.limit := hlimit
    rw [hpassing.length_eq]
    omega
  have hnoskip : plan.skip = 0 := hskip
  rw [hnoskip, List.drop_zero, List.take_of_length_le hfits] at hselect
  exact ⟨_, examined, hselect, hpassing⟩

end Collection

end DocFind
