import DocFind.Proofs.Index.KeyOrder
import DocFind.SortOrder
import Mathlib.Tactic.SplitIfs

/-!
# Laws of sort orders

Comparing bodies at a list of fields is comparing the keys that they have under those fields. So a
sort order is total and transitive, sorting by it keeps the order of what ties, and fields in which
bodies agree may be left out.
-/
namespace DocFind

theorem cmpMissingFirst_eq (x y : Option Value) :
    cmpMissingFirst x y = (KeyPart.ofOption x).cmp (KeyPart.ofOption y) := by
  cases x <;> cases y <;> rfl

namespace SortOrder

theorem cmpFields_eq (fields : List FieldPath) (a b : Body) :
    cmpFields a b fields = (IndexKey.ofBody fields a).cmp (.ofBody fields b) := by
  induction fields with
  | nil => rfl
  | cons path rest ih =>
    rw [cmpFields, ih, cmpMissingFirst_eq]
    exact (List.compareLex_cons_cons ..).symm

theorem cmpFields_append (front rest : List FieldPath) (a b : Body) :
    cmpFields a b (front ++ rest) = (cmpFields a b front).then (cmpFields a b rest) := by
  induction front with
  | nil => rfl
  | cons path front ih => rw [List.cons_append, cmpFields, cmpFields, ih, Ordering.then_assoc]

theorem cmpFields_swap (fields : List FieldPath) (a b : Body) :
    cmpFields a b fields = (cmpFields b a fields).swap := by
  simp only [cmpFields_eq]
  exact Std.OrientedCmp.eq_swap

theorem cmpFields_trans {fields : List FieldPath} {a b c : Body}
    (hab : (cmpFields a b fields).isLE = true) (hbc : (cmpFields b c fields).isLE = true) :
    (cmpFields a c fields).isLE = true := by
  simp only [cmpFields_eq] at *
  exact Std.TransCmp.isLE_trans hab hbc

/-- Fields in which two bodies agree do not matter. -/
theorem cmpFields_filter {agreed : List FieldPath} {a b : Body}
    (h : cmpFields a b agreed = .eq) (fields : List FieldPath) :
    cmpFields a b (fields.filter fun path => path ∉ agreed) = cmpFields a b fields := by
  have hfield : ∀ path ∈ agreed,
      cmpMissingFirst (Body.resolve? a path) (Body.resolve? b path) = .eq := by
    induction agreed with
    | nil => simp
    | cons first agreed ih =>
      rw [cmpFields, Ordering.then_eq_eq] at h
      exact List.forall_mem_cons.mpr ⟨h.1, ih h.2⟩
  induction fields with
  | nil => rfl
  | cons path rest ih =>
    by_cases hpath : path ∈ agreed
    · rw [List.filter_cons_of_neg (by simpa using hpath), ih, cmpFields, hfield path hpath,
        Ordering.eq_then]
    · rw [List.filter_cons_of_pos (by simpa using hpath), cmpFields, cmpFields, ih]

theorem cmp_swap (sort : SortOrder) (a b : Body) : sort.cmp a b = (sort.cmp b a).swap := by
  rw [cmp, cmp, cmpFields_swap sort.fields a b]
  cases sort.direction <;> rfl

theorem cmp_trans (sort : SortOrder) {a b c : Body} (hab : (sort.cmp a b).isLE = true)
    (hbc : (sort.cmp b c).isLE = true) : (sort.cmp a c).isLE = true := by
  obtain ⟨fields, direction⟩ := sort
  cases direction with
  | asc => exact cmpFields_trans hab hbc
  | desc =>
    simp only [cmp, Direction.orient, ← cmpFields_swap] at *
    exact cmpFields_trans hbc hab

theorem cmp_total (sort : SortOrder) (a b : Body) :
    ((sort.cmp a b).isLE || (sort.cmp b a).isLE) = true := by
  rw [sort.cmp_swap a b]
  cases sort.cmp b a <;> rfl

end SortOrder

/-! ## Sorting -/

section Stability

variable {α : Type} {le : α → α → Bool}

/-- Elements that all tie stand after sorting as they stood before. -/
theorem filter_mergeSort (htrans : ∀ a b c, le a b = true → le b c = true → le a c = true)
    (htotal : ∀ a b, (le a b || le b a) = true) {p : α → Bool}
    (htie : ∀ a b, p a = true → p b = true → le a b = true) (xs : List α) :
    (xs.mergeSort le).filter p = xs.filter p := by
  have hsorted : (xs.filter p).Pairwise fun a b => le a b = true := by
    refine List.pairwise_of_forall_mem_list fun a ha b hb => ?_
    exact htie a b (List.mem_filter.mp ha).2 (List.mem_filter.mp hb).2
  have hsub := (List.sublist_mergeSort htrans htotal hsorted List.filter_sublist).filter p
  rw [List.filter_filter] at hsub
  simp only [Bool.and_self] at hsub
  exact (hsub.eq_of_length ((List.mergeSort_perm xs le).filter p).length_eq.symm).symm

/-- Sorting keeps a relation between elements that tie. -/
theorem pairwise_ties_mergeSort (htrans : ∀ a b c, le a b = true → le b c = true → le a c = true)
    (htotal : ∀ a b, (le a b || le b a) = true) {R : α → α → Prop} {xs : List α}
    (h : xs.Pairwise R) :
    (xs.mergeSort le).Pairwise fun a b => le a b = true → le b a = true → R a b := by
  rw [List.pairwise_iff_forall_sublist]
  intro a b hab hle hge
  -- What ties with `a` is left in its order, and `b` is among it.
  let tied : α → Bool := fun x => le a x && le x a
  have htie : ∀ x y, tied x = true → tied y = true → le x y = true := by
    intro x y hx hy
    simp only [tied, Bool.and_eq_true] at hx hy
    exact htrans x a y hx.2 hy.1
  have hself : le a a = true := by simpa using htotal a a
  have hpair := hab.filter tied
  rw [filter_mergeSort htrans htotal htie, List.filter_cons_of_pos (by simp [tied, hself]),
    List.filter_cons_of_pos (by simp [tied, hle, hge]), List.filter_nil] at hpair
  exact List.pairwise_iff_forall_sublist.mp h (hpair.trans List.filter_sublist)

end Stability

namespace SortOrder

variable {α : Type} (sort : SortOrder) (body : α → Body) (xs : List α)

theorem sortBy_perm : (sort.sortBy body xs).Perm xs := List.mergeSort_perm _ _

theorem sortBy_sorted :
    (sort.sortBy body xs).Pairwise fun a b => (sort.cmp (body a) (body b)).isLE = true :=
  List.pairwise_mergeSort (fun a b c => sort.cmp_trans (a := body a) (b := body b) (c := body c))
    (fun a b => sort.cmp_total (body a) (body b)) xs

/-- Elements that tie keep the order in which they come. -/
theorem sortBy_stable {R : α → α → Prop} (h : xs.Pairwise R) :
    (sort.sortBy body xs).Pairwise fun a b => sort.cmp (body a) (body b) = .eq → R a b := by
  have hties := pairwise_ties_mergeSort
    (fun a b c => sort.cmp_trans (a := body a) (b := body b) (c := body c))
    (fun a b => sort.cmp_total (body a) (body b)) h
  refine hties.imp fun {a b} hab heq => hab ?_ ?_
  · simp [heq]
  · rw [sort.cmp_swap, heq]
    rfl

end SortOrder

end DocFind
