import DocFind.Proofs.Value.TotalOrder
import DocFind.Selector.Constraints
import DocFind.Selector.Matching
import Mathlib.Logic.Basic

/-!
# What a constraint sums up

The constraint on a field is drawn from the comparisons that the conjuncts make of it. Its bounds
admit a value just if every comparison that sets a bound does, whatever the order and the number of
them, and its equality is one of the comparisons.
-/
namespace DocFind

/-! ## Bounds -/

/-- Whether a comparison bounds a value from one side. -/
def Comparison.isBound : Comparison → Bool
  | eq | ne => false
  | gt | gte | lt | lte => true

namespace Bound

/-- Below a bound in an order is above it in the opposite one. -/
theorem admitsBelow_eq_admitsAbove {α : Type} (cmp : α → α → Ordering) (x : α) (bound : Bound α) :
    bound.admitsBelow cmp x = bound.admitsAbove (fun a b => cmp b a) x := by
  cases bound <;> rfl

end Bound

namespace FieldConstraint

/-- Of two bounds the one that admits less is what both admit. -/
theorem ite_admits {cmp : Value → Value → Ordering} {P : Prop} [Decidable P]
    {current new : Bound Value} {x : Value}
    (hnew : P → new.admitsAbove cmp x = true → current.admitsAbove cmp x = true)
    (hcurrent : ¬ P → current.admitsAbove cmp x = true → new.admitsAbove cmp x = true) :
    (if P then new else current).admitsAbove cmp x = true ↔
      current.admitsAbove cmp x = true ∧ new.admitsAbove cmp x = true := by
  split_ifs with hp
  · exact ⟨fun h => ⟨hnew hp h, h⟩, And.right⟩
  · exact ⟨fun h => ⟨h, hcurrent hp h⟩, And.left⟩

/-- The tighter of two bounds admits what both admit. `cmp` is the order of values or its
opposite. -/
theorem tighter_admits {cmp : Value → Value → Ordering} [Std.TransCmp cmp] {wins : Ordering}
    (hwins : ∀ a b, b.cmp a = wins ↔ cmp b a = .gt) (heq : ∀ a b, b.cmp a = .eq ↔ cmp b a = .eq)
    (current new : Bound Value) (x : Value) :
    (tighter wins current new).admitsAbove cmp x = true ↔
      current.admitsAbove cmp x = true ∧ new.admitsAbove cmp x = true := by
  have hlow {a b : Value} (h : ¬ b.cmp a = wins) : (cmp b a).isLE = true := by
    rw [hwins] at h
    exact Ordering.isLE_iff_ne_gt.mpr h
  have hup {a b : Value} (h : b.cmp a = wins ∨ b.cmp a = .eq) : (cmp a b).isLE = true := by
    rw [hwins, heq] at h
    rw [← Std.OrientedCmp.isGE_iff_isLE]
    rcases h with h | h <;> simp [h]
  have hlt {a b : Value} (h : ¬ (b.cmp a = wins ∨ b.cmp a = .eq)) : cmp b a = .lt := by
    rw [hwins, heq] at h
    cases hc : cmp b a <;> simp_all
  cases current with
  | unbounded => simp [tighter, Bound.admitsAbove]
  | included a =>
    cases new with
    | unbounded => simp [tighter, Bound.admitsAbove]
    | included b =>
      exact ite_admits
        (fun h hb => Std.TransCmp.isLE_trans (hup (.inl h)) hb)
        (fun h ha => Std.TransCmp.isLE_trans (hlow h) ha)
    | excluded b =>
      refine ite_admits (fun h hb => ?_) fun h ha => ?_
      · have hbx : cmp b x = .lt := beq_iff_eq.mp hb
        exact Std.TransCmp.isLE_trans (hup h) (by simp [hbx])
      · exact beq_iff_eq.mpr (Std.TransCmp.lt_of_lt_of_isLE (hlt h) ha)
  | excluded a =>
    cases new with
    | unbounded => simp [tighter, Bound.admitsAbove]
    | included b =>
      refine ite_admits (fun h hb => ?_) fun h ha => ?_
      · have hab : cmp a b = .lt := Std.OrientedCmp.lt_of_gt ((hwins a b).mp h)
        exact beq_iff_eq.mpr (Std.TransCmp.lt_of_lt_of_isLE hab hb)
      · have hax : cmp a x = .lt := beq_iff_eq.mp ha
        exact Std.TransCmp.isLE_trans (hlow h) (by simp [hax])
    | excluded b =>
      refine ite_admits (fun h hb => ?_) fun h ha => ?_
      · exact beq_iff_eq.mpr (Std.TransCmp.lt_of_isLE_of_lt (hup h) (beq_iff_eq.mp hb))
      · exact beq_iff_eq.mpr (Std.TransCmp.lt_trans (hlt h) (beq_iff_eq.mp ha))

theorem tighter_lower (current new : Bound Value) (x : Value) :
    (tighter .gt current new).admitsAbove Value.cmp x = true ↔
      current.admitsAbove Value.cmp x = true ∧ new.admitsAbove Value.cmp x = true :=
  tighter_admits (fun _ _ => Iff.rfl) (fun _ _ => Iff.rfl) current new x

theorem tighter_upper (current new : Bound Value) (x : Value) :
    (tighter .lt current new).admitsBelow Value.cmp x = true ↔
      current.admitsBelow Value.cmp x = true ∧ new.admitsBelow Value.cmp x = true := by
  simp only [Bound.admitsBelow_eq_admitsAbove]
  refine tighter_admits (fun a b => ?_) (fun a b => ?_) current new x
  · exact Std.OrientedCmp.gt_iff_lt.symm
  · exact Std.OrientedCmp.eq_comm

/-- Whether a value lies between the bounds. -/
def Admits (k : FieldConstraint) (x : Value) : Prop :=
  k.lower.admitsAbove Value.cmp x = true ∧ k.upper.admitsBelow Value.cmp x = true

/-- What a constraint is of comparisons taken in one after the other, inequalities left out. -/
structure SumsUp (k : FieldConstraint) (found : List (Nat × Comparison × Value)) : Prop where
  equality : ∀ i v, k.equality = some (i, v) → (i, .eq, v) ∈ found
  bounds_only : k.equality = Option.none → ∀ f ∈ found, f.2.1.isBound = true
  positions : ∀ i, i ∈ k.boundPositions ↔ ∃ f ∈ found, f.1 = i ∧ f.2.1.isBound = true
  admits : ∀ x, k.Admits x ↔
    ∀ f ∈ found, f.2.1.isBound = true → f.2.1.admits (x.cmp f.2.2) = true

theorem none_sumsUp : none.SumsUp [] where
  equality _ _ h := by cases h
  bounds_only _ _ h := by cases h
  positions i := by simp [none]
  admits x := by simp [none, Admits, Bound.admitsAbove, Bound.admitsBelow]

theorem gt_admits (v x : Value) :
    (Bound.excluded v).admitsAbove Value.cmp x = Comparison.gt.admits (x.cmp v) := by
  have hswap : v.cmp x = (x.cmp v).swap := Std.OrientedCmp.eq_swap
  simp only [Bound.admitsAbove, Comparison.admits, hswap]
  cases x.cmp v <;> rfl

theorem gte_admits (v x : Value) :
    (Bound.included v).admitsAbove Value.cmp x = Comparison.gte.admits (x.cmp v) := by
  have hswap : v.cmp x = (x.cmp v).swap := Std.OrientedCmp.eq_swap
  simp only [Bound.admitsAbove, Comparison.admits, hswap]
  cases x.cmp v <;> rfl

theorem lte_admits (v x : Value) :
    (Bound.included v).admitsBelow Value.cmp x = Comparison.lte.admits (x.cmp v) := by
  simp only [Bound.admitsBelow, Comparison.admits]
  cases x.cmp v <;> rfl

/-- A bound narrows what is admitted by itself, and nothing else changes. -/
theorem add_of_isBound (k : FieldConstraint) (i : Nat) {op : Comparison} (v : Value)
    (hop : op.isBound = true) :
    (k.add i op v).equality = k.equality ∧
      (k.add i op v).boundPositions = k.boundPositions ++ [i] ∧
      ∀ x, (k.add i op v).Admits x ↔ k.Admits x ∧ op.admits (x.cmp v) = true := by
  cases op with
  | eq => cases hop
  | ne => cases hop
  | gt =>
    refine ⟨rfl, rfl, fun x => ?_⟩
    have hlower := tighter_lower k.lower (.excluded v) x
    rw [gt_admits] at hlower
    exact (and_congr_left' hlower).trans and_right_comm
  | gte =>
    refine ⟨rfl, rfl, fun x => ?_⟩
    have hlower := tighter_lower k.lower (.included v) x
    rw [gte_admits] at hlower
    exact (and_congr_left' hlower).trans and_right_comm
  | lt =>
    refine ⟨rfl, rfl, fun x => ?_⟩
    exact (and_congr_right' (tighter_upper k.upper (.excluded v) x)).trans and_assoc.symm
  | lte =>
    refine ⟨rfl, rfl, fun x => ?_⟩
    have hupper := tighter_upper k.upper (.included v) x
    rw [lte_admits] at hupper
    exact (and_congr_right' hupper).trans and_assoc.symm

theorem add_eq (k : FieldConstraint) (i : Nat) (v : Value) :
    k.add i .eq v =
      if k.equality.isSome then k else { k with equality := some (i, v) } := rfl

section

variable {k : FieldConstraint} {found : List (Nat × Comparison × Value)}

theorem SumsUp.add_bound (h : k.SumsUp found) (i : Nat) {op : Comparison} (v : Value)
    (hop : op.isBound = true) : (k.add i op v).SumsUp (found ++ [(i, op, v)]) := by
  obtain ⟨hequality, hpositions, hadmits⟩ := add_of_isBound k i v hop
  refine ⟨?_, ?_, ?_, ?_⟩
  · intro j w hj
    rw [hequality] at hj
    exact List.mem_append_left _ (h.equality j w hj)
  · intro hnone f hf
    rw [hequality] at hnone
    rcases List.mem_append.mp hf with hf | hf
    · exact h.bounds_only hnone f hf
    · obtain rfl := List.mem_singleton.mp hf
      exact hop
  · intro j
    rw [hpositions, List.mem_append, h.positions, List.mem_singleton]
    simp only [List.mem_append, List.mem_singleton, or_and_right, exists_or, exists_eq_left, hop,
      and_true, eq_comm]
  · intro x
    rw [hadmits, h.admits]
    simp only [List.mem_append, List.mem_singleton, or_imp, forall_and, forall_eq, hop,
      forall_const]

/-- Behind the first equality the others change nothing. -/
theorem SumsUp.add_equality (h : k.SumsUp found) (i : Nat) (v : Value) :
    (k.add i .eq v).SumsUp (found ++ [(i, .eq, v)]) := by
  have hop : Comparison.eq.isBound = false := rfl
  have hsame : (k.add i .eq v).boundPositions = k.boundPositions ∧
      ∀ x, (k.add i .eq v).Admits x ↔ k.Admits x := by
    rw [add_eq]
    split_ifs
    · exact ⟨rfl, fun _ => Iff.rfl⟩
    · exact ⟨rfl, fun _ => Iff.rfl⟩
  refine ⟨?_, ?_, ?_, ?_⟩
  · intro j w hj
    rw [add_eq] at hj
    split_ifs at hj
    · exact List.mem_append_left _ (h.equality j w hj)
    · obtain ⟨rfl, rfl⟩ := Prod.mk.inj (Option.some.inj hj)
      exact List.mem_append_right _ (List.mem_singleton_self _)
  · intro hnone
    rw [add_eq] at hnone
    split_ifs at hnone with hsome
    simp [hnone] at hsome
  · intro j
    rw [hsame.1, h.positions]
    simp only [List.mem_append, List.mem_singleton, or_and_right, exists_or, exists_eq_left, hop,
      Bool.false_eq_true, and_false, or_false]
  · intro x
    rw [hsame.2, h.admits]
    simp only [List.mem_append, List.mem_singleton, or_imp, forall_and, forall_eq, hop,
      Bool.false_eq_true, false_imp_iff, and_true]

theorem SumsUp.add (h : k.SumsUp found) (i : Nat) {op : Comparison} (v : Value) (hop : op ≠ .ne) :
    (k.add i op v).SumsUp (found ++ [(i, op, v)]) := by
  cases op with
  | eq => exact h.add_equality i v
  | ne => exact absurd rfl hop
  | gt | gte | lt | lte => exact h.add_bound i v rfl

end

theorem SumsUp.foldl {k : FieldConstraint} {done found : List (Nat × Comparison × Value)}
    (h : k.SumsUp done) (hfound : ∀ f ∈ found, f.2.1 ≠ .ne) :
    (found.foldl (fun k (i, op, v) => k.add i op v) k).SumsUp (done ++ found) := by
  induction found generalizing k done with
  | nil => rwa [List.append_nil]
  | cons f found ih =>
    have hstep := h.add f.1 f.2.2 (hfound f List.mem_cons_self)
    have hrest := ih hstep fun g hg => hfound g (List.mem_cons_of_mem _ hg)
    rwa [List.append_assoc, List.singleton_append] at hrest

end FieldConstraint

namespace Constraints

variable {c : Constraints} {path : FieldPath}

theorem usable?_eq_some {s : Selector} {op : Comparison} {v : Value} :
    usable? path s = some (op, v) ↔
      s = .field path (.compare op v) ∧ path.isRoot = false ∧ op ≠ .ne := by
  constructor
  · intro h
    unfold usable? at h
    split at h
    · split_ifs at h with hcond
      obtain ⟨rfl, rfl⟩ := Prod.mk.inj (Option.some.inj h)
      obtain ⟨rfl, hroot, hop⟩ := hcond
      exact ⟨rfl, hroot, hop⟩
    · cases h
  · rintro ⟨rfl, hroot, hop⟩
    exact if_pos ⟨rfl, hroot, hop⟩

theorem mem_comparisons {i : Nat} {op : Comparison} {v : Value} :
    (i, op, v) ∈ c.comparisons path ↔
      c.conjuncts[i]? = some (.field path (.compare op v)) ∧ path.isRoot = false ∧ op ≠ .ne := by
  simp only [comparisons, List.mem_filterMap, Prod.exists, List.mem_zipIdx_iff_getElem?,
    Option.map_eq_some_iff, usable?_eq_some, Prod.mk.injEq]
  constructor
  · rintro ⟨s, j, hs, o, w, ⟨rfl, hroot, hop⟩, rfl, rfl, rfl⟩
    exact ⟨hs, hroot, hop⟩
  · rintro ⟨hs, hroot, hop⟩
    exact ⟨_, i, hs, op, v, ⟨rfl, hroot, hop⟩, rfl, rfl, rfl⟩

/-- The constraint on a field sums up its comparisons, of which there are some. -/
theorem on?_eq_some {k : FieldConstraint} (h : c.on? path = some k) :
    k.SumsUp (c.comparisons path) ∧ c.comparisons path ≠ [] := by
  rw [on?] at h
  split at h
  · cases h
  · rename_i hne
    obtain rfl := Option.some.inj h
    refine ⟨?_, hne⟩
    refine FieldConstraint.none_sumsUp.foldl fun f hf => ?_
    obtain ⟨i, op, v⟩ := f
    exact (mem_comparisons.mp hf).2.2

/-- What a usable conjunct asks of the field at its path. -/
theorem accepts_compare {op : Comparison} (hop : op ≠ .ne) (v : Value) (body : Body) :
    (Selector.field path (.compare op v)).accepts body =
      (Body.resolve? body path).any fun x => op.admits (x.cmp v) := by
  cases op <;> first | rfl | exact absurd rfl hop

end Constraints

end DocFind
