import DocFind.Proofs.Index.Selection
import DocFind.Proofs.Plan.Scan

/-!
# Hinted indexes

A hint is followed if the selector constrains the leading field of the index of that name. Otherwise
the plan carries a warning. It is issued before the fallback on an index that no field is
constrained of, so a plan that scans in full carries it even if it falls back on the hinted index.
-/
namespace DocFind

namespace IndexDefinition

/-- The selector constrains the leading field of the index. -/
def UsableFor (d : IndexDefinition) (s : Selector) : Prop :=
  ∃ path ∈ d.fields.head?, s.Constrains path

end IndexDefinition

/-- The candidates are the indexes of the catalog that the selector can use. -/
theorem IndexCatalog.mem_select_iff {catalog : IndexCatalog} {policy : TieBreak} {s : Selector}
    {P : Value → Prop} (hs : s.WellFormed P false) {d : IndexDefinition} :
    d ∈ (catalog.select (.ofSelector s) policy).map Candidate.definition ↔
      d ∈ catalog.definitions ∧ d.UsableFor s := by
  have hperm := (catalog.select_perm (.ofSelector s) policy).map Candidate.definition
  rw [hperm.mem_iff, candidates_map_definition, List.mem_filter, decide_eq_true_eq,
    Selector.covered_pos_iff hs]
  rfl

/-- The reason why the hint of a name is not followed. -/
def Warning.ofName (catalog : IndexCatalog) (name : String) : Warning :=
  if (catalog.get? name).isNone then .unknownIndex name else .unusableIndex name

theorem Warning.ofName_eq_unknownIndex_iff {catalog : IndexCatalog} {name : String} :
    ofName catalog name = .unknownIndex name ↔ ∀ d ∈ catalog.definitions, d.name ≠ name := by
  have hnone : (catalog.get? name).isNone = true ↔ ∀ d ∈ catalog.definitions, d.name ≠ name := by
    simp [IndexCatalog.get?]
  rw [← hnone, ofName]
  split_ifs with h <;> simp [h]

theorem Warning.ofName_eq_unusableIndex_iff {catalog : IndexCatalog} {name : String} :
    ofName catalog name = .unusableIndex name ↔ ∃ d ∈ catalog.definitions, d.name = name := by
  have hsome : (catalog.get? name).isNone = false ↔ ∃ d ∈ catalog.definitions, d.name = name := by
    simp [IndexCatalog.get?]
  rw [← hsome, ofName]
  split_ifs with h <;> simp [h]

/-- A hint leads to a candidate of its name, or there is none and the best candidate is taken. -/
theorem followHint_cases (catalog : IndexCatalog) (candidates : List Candidate) (name : String) :
    (∃ c ∈ candidates, c.definition.name = name ∧
      followHint catalog candidates (some name) = (some c, none)) ∨
    ((∀ c ∈ candidates, c.definition.name ≠ name) ∧
      followHint catalog candidates (some name) =
        (candidates.head?, some (.ofName catalog name))) := by
  rw [followHint]
  split
  · rename_i c hc
    exact .inl ⟨c, List.mem_of_find?_eq_some hc, by simpa using List.find?_some hc, rfl⟩
  · rename_i hnone
    refine .inr ⟨fun c hc hname => ?_, rfl⟩
    exact List.find?_eq_none.mp hnone c hc (decide_eq_true hname)

namespace ScanPlan

variable {request : FindRequest} {catalog : IndexCatalog} {policy : TieBreak}

/-- What the hint of a request leads to. -/
def followed (request : FindRequest) (catalog : IndexCatalog) (policy : TieBreak) :
    Option Candidate × Option Warning :=
  followHint catalog (catalog.select (.ofSelector request.selector) policy)
    request.options.useIndex

theorem warning_eq : (ofRequest request catalog policy).warning =
    (followed request catalog policy).2 := rfl

theorem index_of_followed {c : Candidate} (h : (followed request catalog policy).1 = some c) :
    (ofRequest request catalog policy).index = c.definition := by
  rw [followed] at h
  simp only [ofRequest, h]

section

variable {P : Value → Prop} {name : String} (hs : request.selector.WellFormed P false)

include hs

/-- A plan covers fields just if the selector can use its index. -/
theorem covered_pos_iff (hc : catalog.WellFormed) :
    0 < (ofRequest request catalog policy).covered ↔
      (ofRequest request catalog policy).index.UsableFor request.selector := by
  rw [covered_eq hc, Selector.covered_pos_iff hs]
  rfl

/-- An index that the selector can use is scanned, be it another one. -/
theorem index_usable {d : IndexDefinition} (hd : d ∈ catalog.definitions)
    (husable : d.UsableFor request.selector) :
    (ofRequest request catalog policy).index.UsableFor request.selector := by
  have hmem : d ∈ (catalog.select (.ofSelector request.selector) policy).map
      Candidate.definition := (IndexCatalog.mem_select_iff hs).mpr ⟨hd, husable⟩
  cases hfollowed : (followed request catalog policy).1 with
  | none =>
    rw [select_eq_nil_of_followHint hfollowed] at hmem
    cases hmem
  | some c =>
    rw [index_of_followed hfollowed]
    have hc := List.mem_map_of_mem (f := Candidate.definition) (mem_of_followHint hfollowed)
    exact ((IndexCatalog.mem_select_iff hs).mp hc).2

/-- A plan scans in full just if the selector can use no index. -/
theorem isFullScan_iff (hc : catalog.WellFormed) :
    (ofRequest request catalog policy).isFullScan = true ↔
      ∀ d ∈ catalog.definitions, ¬ d.UsableFor request.selector := by
  have hfull : (ofRequest request catalog policy).isFullScan = true ↔
      ¬ (ofRequest request catalog policy).index.UsableFor request.selector := by
    rw [← covered_pos_iff hs hc, isFullScan, decide_eq_true_eq]
    omega
  rw [hfull]
  exact ⟨fun h d hd husable => h (index_usable hs hd husable), fun h => h _ (index_mem hc)⟩

/-- A hint is followed just if the selector can use an index of its name. -/
theorem hint_cases (catalog : IndexCatalog) (policy : TieBreak)
    (hhint : request.options.useIndex = some name) :
    (∃ d ∈ catalog.definitions, d.name = name ∧ d.UsableFor request.selector ∧
      (ofRequest request catalog policy).index = d ∧
      (ofRequest request catalog policy).warning = none) ∨
    ((∀ d ∈ catalog.definitions, d.name = name → ¬ d.UsableFor request.selector) ∧
      (ofRequest request catalog policy).warning = some (.ofName catalog name)) := by
  have hfollowed : followed request catalog policy =
      followHint catalog (catalog.select (.ofSelector request.selector) policy) (some name) := by
    rw [followed, hhint]
  rcases followHint_cases catalog (catalog.select (.ofSelector request.selector) policy) name with
    ⟨c, hc, hname, hresult⟩ | ⟨hnone, hresult⟩
  · rw [hresult] at hfollowed
    obtain ⟨hmem, husable⟩ := (IndexCatalog.mem_select_iff hs).mp (List.mem_map_of_mem hc)
    refine .inl ⟨c.definition, hmem, hname, husable, index_of_followed ?_, ?_⟩
    · rw [hfollowed]
    · rw [warning_eq, hfollowed]
  · rw [hresult] at hfollowed
    refine .inr ⟨fun d hd hname husable => ?_, by rw [warning_eq, hfollowed]⟩
    have hmem : d ∈ (catalog.select (.ofSelector request.selector) policy).map
        Candidate.definition := (IndexCatalog.mem_select_iff hs).mpr ⟨hd, husable⟩
    obtain ⟨c, hc, rfl⟩ := List.mem_map.mp hmem
    exact hnone c hc hname

/-- The warnings of a plan are about hints that are not followed. -/
theorem warning_eq_some_iff (catalog : IndexCatalog) (policy : TieBreak)
    (hhint : request.options.useIndex = some name) {w : Warning} :
    (ofRequest request catalog policy).warning = some w ↔
      (∀ d ∈ catalog.definitions, d.name = name → ¬ d.UsableFor request.selector) ∧
        .ofName catalog name = w := by
  rcases hint_cases hs catalog policy hhint with
    ⟨d, hd, hname, husable, -, hwarning⟩ | ⟨hunusable, hwarning⟩
  · rw [hwarning]
    exact iff_of_false nofun fun h => h.1 d hd hname husable
  · rw [hwarning, Option.some.injEq]
    exact (and_iff_right hunusable).symm

theorem index_eq_of_usable (hc : catalog.WellFormed) (policy : TieBreak)
    (hhint : request.options.useIndex = some name) {d : IndexDefinition}
    (hd : d ∈ catalog.definitions) (hname : d.name = name)
    (husable : d.UsableFor request.selector) :
    (ofRequest request catalog policy).index = d := by
  rcases hint_cases hs catalog policy hhint with ⟨e, he, hname', -, hindex, -⟩ | ⟨hunusable, -⟩
  · rw [hindex]
    exact List.inj_on_of_nodup_map hc.names he hd (hname'.trans hname.symm)
  · exact absurd husable (hunusable d hd hname)

/-- Where the hint is not followed another index is scanned, or the fallback in full. -/
theorem not_usable_iff (hc : catalog.WellFormed) (policy : TieBreak)
    (hhint : request.options.useIndex = some name) :
    (∀ d ∈ catalog.definitions, d.name = name → ¬ d.UsableFor request.selector) ↔
      (ofRequest request catalog policy).index.name ≠ name ∨
        (ofRequest request catalog policy).isFullScan = true := by
  rw [isFullScan_iff hs hc]
  constructor
  · intro h
    by_cases hname : (ofRequest request catalog policy).index.name = name
    · exact .inr fun d hd husable => h _ (index_mem hc) hname (index_usable hs hd husable)
    · exact .inl hname
  · rintro (hother | hnone) d hd hname husable
    · exact hother (index_eq_of_usable hs hc policy hhint hd hname husable ▸ hname)
    · exact hnone d hd husable

end

end ScanPlan

/-- A hint to an index that the selector can use is followed. A warning says which other hint was
given; it comes with a scan of another index or with a full scan, which may be one of the hinted
index. -/
theorem ScanPlan.hint_reported (changes : List IndexCatalog.Change) {raw : Value}
    {request : FindRequest} (hparse : Selector.parse raw = .ok request.selector) {name : String}
    (hhint : request.options.useIndex = some name) (policy : TieBreak) :
    let catalog := IndexCatalog.run changes
    let plan := ofRequest request catalog policy
    (plan.warning.isSome = true ↔ plan.index.name ≠ name ∨ plan.isFullScan = true) ∧
      (plan.isFullScan = true ↔
        ∀ d ∈ catalog.definitions, ¬ d.UsableFor request.selector) ∧
      (∀ d ∈ catalog.definitions, d.name = name → d.UsableFor request.selector →
        plan.index = d) ∧
      (plan.warning = some (.unknownIndex name) ↔ ∀ d ∈ catalog.definitions, d.name ≠ name) ∧
      (plan.warning = some (.unusableIndex name) ↔
        ∃ d ∈ catalog.definitions, d.name = name ∧ ¬ d.UsableFor request.selector) := by
  intro catalog plan
  have hc : catalog.WellFormed := IndexCatalog.run_wellFormed changes
  have hs := Selector.wellFormed_of_parse hereditary_true trivial hparse
  have hwarning {w : Warning} : plan.warning = some w ↔
      (∀ d ∈ catalog.definitions, d.name = name → ¬ d.UsableFor request.selector) ∧
        .ofName catalog name = w := warning_eq_some_iff hs catalog policy hhint
  refine ⟨?_, isFullScan_iff hs hc, fun d => index_eq_of_usable hs hc policy hhint, ?_, ?_⟩
  · rw [Option.isSome_iff_exists, ← not_usable_iff hs hc policy hhint]
    simp only [hwarning, exists_and_left, exists_eq', and_true]
  · rw [hwarning, Warning.ofName_eq_unknownIndex_iff, and_iff_right_iff_imp]
    exact fun hnone d hd hname => absurd hname (hnone d hd)
  · rw [hwarning, Warning.ofName_eq_unusableIndex_iff]
    constructor
    · rintro ⟨hunusable, d, hd, hname⟩
      exact ⟨d, hd, hname, hunusable d hd hname⟩
    · rintro ⟨d, hd, hname, hunusable⟩
      refine ⟨fun e he hname' => ?_, d, hd, hname⟩
      rwa [List.inj_on_of_nodup_map hc.names he hd (hname'.trans hname.symm)]

/-- The hinted index is scanned though another one covers more fields. -/
theorem ScanPlan.hint_reported_narrower :
    let v : Value := .document [("age", .document [("$gt", .int32 40)]), ("manager", .bool true)]
    let s : Selector := .combine .and [.field ⟨["age"]⟩ (.compare .gt (.int32 40)),
      .field ⟨["manager"]⟩ (.compare .eq (.bool true))]
    let age : IndexDefinition := ⟨"age", [⟨["age"]⟩]⟩
    let changes : List IndexCatalog.Change :=
      [.add ⟨"both", [⟨["manager"]⟩, ⟨["age"]⟩]⟩, .add age]
    let request : FindRequest := ⟨s, { FindOptions.default .default with useIndex := some "age" }⟩
    let plan := ofRequest request (IndexCatalog.run changes) .firstDeclared
    Selector.parse v = .ok s ∧ age ∈ (IndexCatalog.run changes).definitions ∧
      age.UsableFor s ∧ plan.index = age ∧ plan.warning.isSome = false := by
  intro v s age changes request plan
  have hparse : Selector.parse v = .ok request.selector := rfl
  have hmem : age ∈ (IndexCatalog.run changes).definitions := by decide
  have husable : age.UsableFor s :=
    ⟨⟨["age"]⟩, rfl, .gt, by decide, .int32 40, .conjunct List.mem_cons_self .whole⟩
  obtain ⟨hwarning, hfull, hscanned, -, -⟩ :=
    hint_reported changes hparse rfl .firstDeclared
  have hindex : plan.index = age := hscanned age hmem rfl husable
  refine ⟨hparse, hmem, husable, hindex, ?_⟩
  refine Bool.eq_false_iff.mpr fun hsome => ?_
  rcases hwarning.mp hsome with hother | hscan
  · exact hother (congrArg IndexDefinition.name hindex)
  · exact hfull.mp hscan age hmem husable

/-- An index is scanned for its order, and the warning says that it was not used; likewise for the
primary index, where there is nothing else to scan. -/
theorem ScanPlan.hinted_fallback_warned :
    let s : Selector := .field ⟨["name"]⟩ (.present true)
    let options : FindOptions :=
      { FindOptions.default .default with sort := some ⟨[⟨["age"]⟩], .asc⟩, useIndex := some "age" }
    let plan := ofRequest ⟨s, options⟩ (IndexCatalog.run [.add ⟨"age", [⟨["age"]⟩]⟩]) .firstDeclared
    let primary := { FindOptions.default .default with useIndex := some "_all_docs" }
    let other := ofRequest ⟨s, primary⟩ (IndexCatalog.run []) .firstDeclared
    Selector.parse (.document [("name", .document [("$exists", .bool true)])]) = .ok s ∧
      (plan.index.name = "age" ∧ plan.warning.map Warning.text =
        some "`age` was not used because it does not match the selector") ∧
      other.index.name = "_all_docs" ∧ other.warning = some (.unusableIndex "_all_docs") := by
  intro s options plan primary other
  have hnone (changes : List IndexCatalog.Change)
      (h : (IndexCatalog.run changes).candidates (.ofSelector s) = []) :
      (IndexCatalog.run changes).select (.ofSelector s) .firstDeclared = [] := by
    rw [IndexCatalog.select, h, List.mergeSort_nil]
  have hplan := hnone [.add ⟨"age", [⟨["age"]⟩]⟩] rfl
  have hother := hnone [] rfl
  refine ⟨rfl, ⟨?_, ?_⟩, ?_, ?_⟩
  · simp only [plan, ofRequest, hplan]
    rfl
  · simp only [plan, ofRequest, hplan]
    rfl
  · simp only [other, ofRequest, hother]
    rfl
  · simp only [other, ofRequest, hother]
    rfl

end DocFind
