import DocFind.Execution

/-!
# The window of a run

A run that stops at the document that fills its limit collects what skipping and taking would leave
of all that pass, and has then seen the shortest beginning in which enough of them are. Whether a
plan sorts or not, it selects a window of the documents that pass.
-/
namespace DocFind

section

variable {α : Type} {keep : α → Bool} {x : α}

theorem collect_of_neg (hx : ¬ keep x = true) (skip room : Nat) (rest : List α) :
    collect keep skip room (x :: rest) =
      ((collect keep skip room rest).1, (collect keep skip room rest).2 + 1) := by
  simp [collect, hx]

theorem collect_skip (hx : keep x = true) (skip room : Nat) (rest : List α) :
    collect keep (skip + 1) room (x :: rest) =
      ((collect keep skip room rest).1, (collect keep skip room rest).2 + 1) := by
  simp [collect, hx]

theorem collect_last (hx : keep x = true) (rest : List α) :
    collect keep 0 0 (x :: rest) = ([x], 1) := by
  simp [collect, hx]

theorem collect_next (hx : keep x = true) (room : Nat) (rest : List α) :
    collect keep 0 (room + 1) (x :: rest) =
      (x :: (collect keep 0 room rest).1, (collect keep 0 room rest).2 + 1) := by
  simp [collect, hx]

/-- Stopping early is taking from what passes. -/
theorem collect_eq (keep : α → Bool) (skip room : Nat) (xs : List α) :
    (collect keep skip room xs).1 = ((xs.filter keep).drop skip).take (room + 1) := by
  induction xs generalizing skip room with
  | nil => simp [collect]
  | cons x xs ih =>
    by_cases hx : keep x = true
    · rw [List.filter_cons_of_pos hx]
      cases skip with
      | succ skip =>
        rw [collect_skip hx]
        exact ih skip room
      | zero =>
        cases room with
        | zero =>
          rw [collect_last hx]
          rfl
        | succ room =>
          rw [collect_next hx]
          exact congrArg (x :: ·) (ih 0 room)
    · rw [List.filter_cons_of_neg hx, collect_of_neg hx]
      exact ih skip room

/-! ## How far a run looks -/

variable {xs : List α} {need n : Nat}

/-- `n` elements are the shortest beginning in which `need` elements pass, or all if fewer do. -/
structure ShortestHolding (keep : α → Bool) (need : Nat) (xs : List α) (n : Nat) : Prop where
  le : n ≤ xs.length
  enough : n < xs.length → need ≤ (xs.take n).countP keep
  shortest : ∀ m < n, (xs.take m).countP keep < need

theorem ShortestHolding.nil (keep : α → Bool) (need : Nat) : ShortestHolding keep need [] 0 where
  le := Nat.le_refl 0
  enough h := absurd h (Nat.lt_irrefl 0)
  shortest m h := absurd h (Nat.not_lt_zero m)

/-- One element that passes is enough where one is needed. -/
theorem ShortestHolding.first (hx : keep x = true) (xs : List α) :
    ShortestHolding keep 1 (x :: xs) 1 where
  le := by simp
  enough _ := by simp [hx]
  shortest m h := by
    obtain rfl : m = 0 := by omega
    simp

theorem ShortestHolding.cons_of_pos (hx : keep x = true) (h : ShortestHolding keep need xs n) :
    ShortestHolding keep (need + 1) (x :: xs) (n + 1) where
  le := Nat.succ_le_succ h.le
  enough hn := by
    rw [List.take_succ_cons, List.countP_cons_of_pos hx]
    exact Nat.succ_le_succ (h.enough (Nat.lt_of_succ_lt_succ hn))
  shortest m hm := by
    cases m with
    | zero => simp
    | succ m =>
      rw [List.take_succ_cons, List.countP_cons_of_pos hx]
      exact Nat.succ_lt_succ (h.shortest m (Nat.lt_of_succ_lt_succ hm))

theorem ShortestHolding.cons_of_neg (hx : ¬ keep x = true) (hneed : 0 < need)
    (h : ShortestHolding keep need xs n) : ShortestHolding keep need (x :: xs) (n + 1) where
  le := Nat.succ_le_succ h.le
  enough hn := by
    rw [List.take_succ_cons, List.countP_cons_of_neg hx]
    exact h.enough (Nat.lt_of_succ_lt_succ hn)
  shortest m hm := by
    cases m with
    | zero => simpa using hneed
    | succ m =>
      rw [List.take_succ_cons, List.countP_cons_of_neg hx]
      exact h.shortest m (Nat.lt_of_succ_lt_succ hm)

/-- No two beginnings are the shortest. -/
theorem ShortestHolding.unique {m : Nat} (hm : ShortestHolding keep need xs m)
    (hn : ShortestHolding keep need xs n) : m = n := by
  have hle {m n : Nat} (hm : ShortestHolding keep need xs m)
      (hn : ShortestHolding keep need xs n) : n ≤ m := by
    refine Nat.le_of_not_lt fun hlt => ?_
    have henough := hm.enough (Nat.lt_of_lt_of_le hlt hn.le)
    have hshort := hn.shortest m hlt
    omega
  exact Nat.le_antisymm (hle hn hm) (hle hm hn)

/-- A run that stops early has seen just enough. -/
theorem collect_seen (keep : α → Bool) (skip room : Nat) (xs : List α) :
    ShortestHolding keep (skip + (room + 1)) xs (collect keep skip room xs).2 := by
  induction xs generalizing skip room with
  | nil => exact .nil keep _
  | cons x xs ih =>
    by_cases hx : keep x = true
    · cases skip with
      | succ skip =>
        have hneed : skip + 1 + (room + 1) = skip + (room + 1) + 1 := by omega
        rw [collect_skip hx, hneed]
        exact (ih skip room).cons_of_pos hx
      | zero =>
        cases room with
        | zero =>
          rw [collect_last hx]
          exact .first hx xs
        | succ room =>
          rw [collect_next hx]
          exact (ih 0 room).cons_of_pos hx
    · rw [collect_of_neg hx]
      exact (ih skip room).cons_of_neg hx (by omega)

end

namespace ScanPlan

/-- The documents that pass the residual, in the order that the plan wants. -/
def passing (plan : ScanPlan) (scanned : List Document) : List Document :=
  let kept := scanned.filter plan.keeps
  if plan.sortInMemory then plan.sorted kept else kept

theorem passing_of_scan {plan : ScanPlan} (h : plan.sortInMemory = false)
    (scanned : List Document) : plan.passing scanned = scanned.filter plan.keeps := by
  simp [passing, h]

theorem passing_of_sort {plan : ScanPlan} {sort : SortOrder} (h : plan.sortInMemory = true)
    (hsort : plan.sort = some sort) (scanned : List Document) :
    plan.passing scanned = sort.sortBy Document.body (scanned.filter plan.keeps) := by
  simp [passing, sorted, h, hsort]

/-- Whether the residual of a plan, where there is one, accepts the body of a document. -/
def Admits (plan : ScanPlan) (d : Document) : Prop :=
  ∀ s ∈ plan.residual, s.accepts d.body = true

instance (plan : ScanPlan) : DecidablePred plan.Admits := fun d =>
  inferInstanceAs (Decidable (∀ s ∈ plan.residual, s.accepts d.body = true))

/-- A run keeps what its plan admits. -/
theorem keeps_eq (plan : ScanPlan) : plan.keeps = fun d => decide (plan.Admits d) := by
  funext d
  rw [Bool.eq_iff_iff, decide_eq_true_eq, keeps, Option.all_eq_true]
  rfl

/-- How many documents of a scan a plan examines. -/
def Examines (plan : ScanPlan) (scanned : List Document) (examined : Nat) : Prop :=
  if plan.limit = 0 then examined = 0
  else if plan.sortInMemory then examined = scanned.length
  else ShortestHolding (fun d => plan.Admits d) (plan.skip + plan.limit) scanned examined

/-- A plan selects a window of what passes. -/
theorem select_eq (plan : ScanPlan) {source : DocumentSource} {scanned : List Document}
    (h : source.scan plan.index plan.range plan.direction = .ok scanned) :
    ∃ examined, plan.Examines scanned examined ∧ plan.select source =
      .ok (((plan.passing scanned).drop plan.skip).take plan.limit, examined) := by
  rw [select, passing]
  cases hlimit : plan.limit with
  | zero => exact ⟨0, by simp [Examines, hlimit], by rw [List.take_zero]⟩
  | succ room =>
    by_cases hsort : plan.sortInMemory = true
    · refine ⟨scanned.length, by simp [Examines, hlimit, hsort], ?_⟩
      simp only [h, hsort, bind, Except.bind, if_true]
    · have hseen := collect_seen plan.keeps plan.skip room scanned
      rw [Bool.not_eq_true] at hsort
      refine ⟨_, by simpa [Examines, hlimit, hsort, ← keeps_eq] using hseen, ?_⟩
      simp only [h, hsort, bind, Except.bind, Bool.false_eq_true, if_false]
      rw [← collect_eq]

end ScanPlan

end DocFind
