import Mathlib.Logic.Basic

/-!
# Laws of comparison functions

The laws of a total preorder, stated of a function that answers below, equal or above. They follow
from orientation and transitivity. Comparison by rank, with a comparison of its own inside each
rank, keeps them, and so does comparison of lists element by element.
-/
namespace DocFind

/-- The laws of a total preorder. Elements that compare equal are alike in every comparison. -/
structure OrderLaws {α : Type} (cmp : α → α → Ordering) : Prop where
  refl : ∀ a, cmp a a = .eq
  reverse : ∀ a b, cmp b a = (cmp a b).swap
  trans : ∀ a b c, cmp a b ≠ .gt → cmp b c ≠ .gt → cmp a c ≠ .gt
  equivalence : Equivalence fun a b => cmp a b = .eq
  congr : ∀ a a' b b', cmp a a' = .eq → cmp b b' = .eq → cmp a b = cmp a' b'

variable {α : Type} {cmp : α → α → Ordering}

theorem OrderLaws.of_transCmp [Std.TransCmp cmp] : OrderLaws cmp where
  refl _ := Std.ReflCmp.compare_self
  reverse _ _ := Std.OrientedCmp.eq_swap
  trans a b c hab hbc := by
    simp only [Ordering.ne_gt_iff_isLE] at *
    exact Std.TransCmp.isLE_trans hab hbc
  equivalence :=
    ⟨fun _ => Std.ReflCmp.compare_self, Std.OrientedCmp.eq_symm, Std.TransCmp.eq_trans⟩
  congr a a' b b' ha hb := by
    rw [Std.TransCmp.congr_left ha, Std.TransCmp.congr_right hb]

/-- Ranks first, and inside one rank a comparison that is oriented and transitive there. -/
theorem transCmp_of_rank (rank : α → Nat)
    (hrank : ∀ a b, rank a ≠ rank b → cmp a b = compare (rank a) (rank b))
    (hswap : ∀ a b, rank a = rank b → cmp a b = (cmp b a).swap)
    (htrans : ∀ a b c, rank a = rank b → rank b = rank c →
      (cmp a b).isLE → (cmp b c).isLE → (cmp a c).isLE) : Std.TransCmp cmp where
  eq_swap {a b} := by
    by_cases h : rank a = rank b
    · exact hswap a b h
    · rw [hrank a b h, hrank b a (Ne.symm h), Nat.compare_swap]
  isLE_trans {a b c} hab hbc := by
    have hle {x y} (h : (cmp x y).isLE) : rank x ≤ rank y := by
      by_cases he : rank x = rank y
      · exact Nat.le_of_eq he
      · rw [hrank x y he] at h
        exact Nat.isLE_compare.mp h
    have h₁ := hle hab
    have h₂ := hle hbc
    by_cases hac : rank a = rank c
    · exact htrans a b c (by omega) (by omega) hab hbc
    · rw [hrank a c hac]
      exact Nat.isLE_compare.mpr (by omega)

/-- Behind beginnings of one length the rests decide, where the beginnings do not. -/
theorem compareLex_append (cmp : α → α → Ordering) {xs ys : List α} (h : xs.length = ys.length)
    (r s : List α) :
    (xs ++ r).compareLex cmp (ys ++ s) = (xs.compareLex cmp ys).then (r.compareLex cmp s) := by
  induction xs generalizing ys with
  | nil =>
    cases ys with
    | nil => rfl
    | cons y ys => simp at h
  | cons x xs ih =>
    cases ys with
    | nil => simp at h
    | cons y ys =>
      simp only [List.cons_append, List.compareLex_cons_cons, Ordering.then_assoc]
      rw [ih (by simpa using h)]

end DocFind
