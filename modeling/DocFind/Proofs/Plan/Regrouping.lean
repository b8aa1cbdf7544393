import DocFind.Proofs.Plan.DerivedRange

/-!
# Regrouped conjunctions

How conjunctions are nested and ordered decides which equality of a field comes first and where its
bounds stand, so two selectors with the same conjuncts can be given different ranges and residuals.
Which fields are constrained, and which of them by an equality, depends on the set of conjuncts
alone, and everything else about a plan depends on the selector through this only.
-/
namespace DocFind

namespace Constraints

variable {c c' : Constraints} {path : FieldPath}

theorem comparisons_of_conjunct {op : Comparison} {v : Value}
    (h : .field path (.compare op v) ∈ c.conjuncts) (hroot : path.isRoot = false) (hop : op ≠ .ne) :
    ∃ i, (i, op, v) ∈ c.comparisons path := by
  obtain ⟨i, hi⟩ := List.mem_iff_getElem?.mp h
  exact ⟨i, mem_comparisons.mpr ⟨hi, hroot, hop⟩⟩

theorem on?_eq_none_iff : c.on? path = none ↔ c.comparisons path = [] := by
  rw [on?]
  split <;> simp_all

/-- A field is constrained if a usable comparison of it is among the conjuncts. -/
theorem isSome_on?_iff : (c.on? path).isSome = true ↔
    ∃ op v, .field path (.compare op v) ∈ c.conjuncts ∧ path.isRoot = false ∧ op ≠ .ne := by
  rw [Option.isSome_iff_ne_none, ne_eq, on?_eq_none_iff]
  constructor
  · intro hne
    obtain ⟨⟨i, op, v⟩, hmem⟩ := List.exists_mem_of_ne_nil _ hne
    obtain ⟨hi, hroot, hop⟩ := mem_comparisons.mp hmem
    exact ⟨op, v, List.mem_of_getElem? hi, hroot, hop⟩
  · rintro ⟨op, v, hmem, hroot, hop⟩
    obtain ⟨i, hi⟩ := comparisons_of_conjunct hmem hroot hop
    exact List.ne_nil_of_mem hi

/-- Whether the range of an index fixes a field when it comes to it. -/
def fixes (c : Constraints) (path : FieldPath) : Bool :=
  (c.on? path).any fun k => k.equality.isSome

/-- A field is fixed if an equality of it is among the conjuncts. -/
theorem fixes_iff : c.fixes path = true ↔
    ∃ v, .field path (.compare .eq v) ∈ c.conjuncts ∧ path.isRoot = false := by
  rw [fixes, Option.any_eq_true]
  constructor
  · rintro ⟨k, hk, hequality⟩
    obtain ⟨⟨i, v⟩, hv⟩ := Option.isSome_iff_exists.mp hequality
    obtain ⟨hi, hroot, -⟩ := mem_comparisons.mp ((on?_eq_some hk).1.equality i v hv)
    exact ⟨v, List.mem_of_getElem? hi, hroot⟩
  · rintro ⟨v, hmem, hroot⟩
    have hsome := isSome_on?_iff.mpr ⟨.eq, v, hmem, hroot, Comparison.noConfusion⟩
    obtain ⟨k, hk⟩ := Option.isSome_iff_exists.mp hsome
    refine ⟨k, hk, ?_⟩
    by_contra hnone
    rw [Option.not_isSome_iff_eq_none] at hnone
    obtain ⟨i, hi⟩ := comparisons_of_conjunct hmem hroot Comparison.noConfusion
    have hbound := (on?_eq_some hk).1.bounds_only hnone _ hi
    cases hbound

/-- The conjuncts are the same, in whatever order and however often. -/
def SameConjuncts (c c' : Constraints) : Prop := ∀ s, s ∈ c.conjuncts ↔ s ∈ c'.conjuncts

theorem SameConjuncts.isSome_on? (h : c.SameConjuncts c') (path : FieldPath) :
    (c.on? path).isSome = (c'.on? path).isSome := by
  rw [Bool.eq_iff_iff, isSome_on?_iff, isSome_on?_iff]
  simp only [h _]

theorem SameConjuncts.fixes_eq (h : c.SameConjuncts c') : c.fixes = c'.fixes := by
  funext path
  rw [Bool.eq_iff_iff, fixes_iff, fixes_iff]
  simp only [h _]

theorem SameConjuncts.covered_eq (h : c.SameConjuncts c') (fields : List FieldPath) :
    c.covered fields = c'.covered fields := by
  simp only [covered, h.isSome_on?]

/-- The same indexes are proposed, in the same order. -/
theorem SameConjuncts.select_eq (h : c.SameConjuncts c') (catalog : IndexCatalog)
    (policy : TieBreak) : catalog.select c policy = catalog.select c' policy := by
  simp only [IndexCatalog.select, IndexCatalog.candidates, h.covered_eq]

/-- Behind a key the range fixes the leading fields with an equality. -/
theorem deriveFrom_fixed (c : Constraints) (key : IndexKey) (used : List Nat)
    (fields : List FieldPath) : (deriveFrom c key used fields).fixed =
      key.parts.length + (fields.takeWhile c.fixes).length := by
  have hstop (used : List Nat) (key : IndexKey) :
      (deriveFrom.stopAt key used).fixed = key.parts.length := by
    rw [deriveFrom.stopAt]
    split_ifs with hnil
    · simp [hnil]
    · rfl
  induction fields generalizing key used with
  | nil => simp [deriveFrom, hstop]
  | cons path rest ih =>
    rw [deriveFrom]
    cases hon : c.on? path with
    | none => simp [hstop, fixes, hon]
    | some k =>
      cases hequality : k.equality with
      | none => simp [fixes, hon, hequality]
      | some pin =>
        have hfixes : c.fixes path = true := by simp [fixes, hon, hequality]
        simp only [hequality]
        rw [ih, List.takeWhile_cons_of_pos hfixes]
        simp
        omega

theorem SameConjuncts.fixed_eq (h : c.SameConjuncts c') (fields : List FieldPath) :
    (deriveRange c fields).fixed = (deriveRange c' fields).fixed := by
  rw [deriveRange, deriveRange, deriveFrom_fixed, deriveFrom_fixed, h.fixes_eq]

end Constraints

variable {a b : Selector}

/-- Selectors with the same conjuncts hold of the same targets. -/
theorem Selector.holds_congr
    (h : (Constraints.ofSelector a).SameConjuncts (.ofSelector b)) (t : Target) :
    a.holds t = b.holds t := by
  rw [holds_eq_conjuncts, holds_eq_conjuncts, Bool.eq_iff_iff, List.all_eq_true, List.all_eq_true]
  exact ⟨fun ha s hs => ha s ((h s).mpr hs), fun hb s hs => hb s ((h s).mp hs)⟩

/-- Plans for selectors with the same conjuncts differ in the range and the residual at most. -/
theorem ScanPlan.ofRequest_regrouped
    (h : (Constraints.ofSelector a).SameConjuncts (.ofSelector b)) (options : FindOptions)
    (catalog : IndexCatalog) (policy : TieBreak) :
    ofRequest ⟨b, options⟩ catalog policy =
      { ofRequest ⟨a, options⟩ catalog policy with
        selector := b
        range := (ofRequest ⟨b, options⟩ catalog policy).range
        residual := (ofRequest ⟨b, options⟩ catalog policy).residual } := by
  simp only [ofRequest, h.select_eq, h.fixed_eq]

/-- What is read off a plan without regard to range and residual is the same for both. -/
theorem ScanPlan.regrouped_congr
    (h : (Constraints.ofSelector a).SameConjuncts (.ofSelector b)) (options : FindOptions)
    (catalog : IndexCatalog) (policy : TieBreak) {α : Type} (f : ScanPlan → α)
    (hf : ∀ plan selector range residual,
      f { plan with selector := selector, range := range, residual := residual } = f plan) :
    f (ofRequest ⟨a, options⟩ catalog policy) = f (ofRequest ⟨b, options⟩ catalog policy) := by
  rw [ofRequest_regrouped h options catalog policy]
  exact (hf _ _ _ _).symm

end DocFind
