import DocFind.Proofs.Number.ExactValue
import DocFind.Proofs.OrderLaws
import DocFind.Value.Order

/-!
# The order of values is a total order

A value is spelled out as a list of marks: what it is opened by, then its items or entries, each
behind a mark of its own, and a stop below all of them. Comparing values part by part is comparing
their spellings lexicographically, so the laws of the order are those of the order of marks.
-/
namespace DocFind

instance : Std.TransCmp Scalar.cmp := by
  refine transCmp_of_rank Scalar.rank ?_ ?_ ?_
  · intro a b h
    cases a <;> cases b <;> first | rfl | exact absurd rfl h
  · intro a b h
    cases a <;> cases b <;> cases h
    · rfl
    · exact @Std.OrientedCmp.eq_swap Bool compare _ _ _
    · exact @Std.OrientedCmp.eq_swap Number Number.cmp _ _ _
    · exact @Std.OrientedCmp.eq_swap String compare _ _ _
  · intro a b c hab hbc h₁ h₂
    cases a <;> cases b <;> cases hab <;> cases c <;> cases hbc
    · rfl
    · exact @Std.TransCmp.isLE_trans Bool compare _ _ _ _ h₁ h₂
    · exact @Std.TransCmp.isLE_trans Number Number.cmp _ _ _ _ h₁ h₂
    · exact @Std.TransCmp.isLE_trans String compare _ _ _ _ h₁ h₂

/-- A mark in the spelling of a value. -/
inductive Mark where
  | stop
  | item
  | key (k : String)
  | opening (rank : Nat) (content : Scalar)

namespace Mark

def rank : Mark → Nat
  | stop => 0
  | item => 1
  | key _ => 2
  | opening _ _ => 3

def cmp : Mark → Mark → Ordering
  | key k, key l => compare k l
  | opening m a, opening n b => (compare m n).then (a.cmp b)
  | s, t => compare s.rank t.rank

/-- Openings are compared like pairs. -/
def cmpOpenings : Nat × Scalar → Nat × Scalar → Ordering :=
  compareLex (compareOn Prod.fst) fun p q => p.2.cmp q.2

instance : Std.TransCmp fun p q : Nat × Scalar => p.2.cmp q.2 where
  eq_swap := Std.OrientedCmp.eq_swap
  isLE_trans := Std.TransCmp.isLE_trans

instance : Std.TransCmp cmpOpenings := inferInstanceAs (Std.TransCmp (compareLex _ _))

instance : Std.TransCmp cmp := by
  refine transCmp_of_rank rank ?_ ?_ ?_
  · intro s t h
    cases s <;> cases t <;> first | rfl | exact absurd rfl h
  · intro s t h
    cases s <;> cases t <;> cases h
    · rfl
    · rfl
    · exact @Std.OrientedCmp.eq_swap String compare _ _ _
    · exact @Std.OrientedCmp.eq_swap _ cmpOpenings _ (_, _) (_, _)
  · intro s t u hst htu h₁ h₂
    cases s <;> cases t <;> cases hst <;> cases u <;> cases htu
    · rfl
    · rfl
    · exact @Std.TransCmp.isLE_trans String compare _ _ _ _ h₁ h₂
    · exact @Std.TransCmp.isLE_trans _ cmpOpenings _ (_, _) (_, _) (_, _) h₁ h₂

end Mark

namespace Value

mutual

/-- The spelling of a value. -/
def spell : Value → List Mark
  | array items => .opening 4 .unit :: spellItems items
  | document entries => .opening 5 .unit :: spellEntries entries
  | v => [.opening v.typeName.rank v.scalar]

def spellItems : List Value → List Mark
  | [] => [.stop]
  | v :: rest => .item :: (v.spell ++ spellItems rest)

def spellEntries : List (String × Value) → List Mark
  | [] => [.stop]
  | (k, v) :: rest => .key k :: (v.spell ++ spellEntries rest)

end

/-- Whether a value has no parts. -/
def isLeaf (v : Value) : Bool := v.typeName.rank ≠ 4 && v.typeName.rank ≠ 5

theorem spell_eq_cons (v : Value) :
    ∃ parts, v.spell = .opening v.typeName.rank v.scalar :: parts := by
  cases v <;> exact ⟨_, rfl⟩

theorem cmpParts_of_rank_ne {a b : Value} (h : a.typeName.rank ≠ b.typeName.rank) :
    a.cmpParts b = compare a.typeName.rank b.typeName.rank := by
  cases a <;> cases b <;> first | rfl | exact absurd rfl h

theorem cmpParts_then_of_rank_ne {a b : Value} (r s : List Mark)
    (h : a.typeName.rank ≠ b.typeName.rank) :
    (a.cmpParts b).then (r.compareLex Mark.cmp s) =
      (a.spell ++ r).compareLex Mark.cmp (b.spell ++ s) := by
  obtain ⟨xs, ha⟩ := a.spell_eq_cons
  obtain ⟨ys, hb⟩ := b.spell_eq_cons
  have hne : compare a.typeName.rank b.typeName.rank ≠ .eq := by rwa [ne_eq, Nat.compare_eq_eq]
  rw [cmpParts_of_rank_ne h, ha, hb, List.cons_append, List.cons_append, List.compareLex_cons_cons,
    Mark.cmp]
  cases hc : compare a.typeName.rank b.typeName.rank with
  | eq => exact absurd hc hne
  | lt => rfl
  | gt => rfl

theorem cmpParts_of_isLeaf {a : Value} (b : Value) (ha : a.isLeaf) :
    a.cmpParts b = (compare a.typeName.rank b.typeName.rank).then (a.scalar.cmp b.scalar) := by
  cases a <;> first | (cases b <;> rfl) | cases ha

theorem isLeaf_of_rank_eq {a b : Value} (ha : a.isLeaf) (h : a.typeName.rank = b.typeName.rank) :
    b.isLeaf := by
  rwa [isLeaf, ← h]

theorem spell_of_isLeaf {v : Value} (hv : v.isLeaf) :
    v.spell = [.opening v.typeName.rank v.scalar] := by
  cases v <;> first | rfl | cases hv

theorem cmpParts_then_of_isLeaf {a : Value} (b : Value) (r s : List Mark) (ha : a.isLeaf) :
    (a.cmpParts b).then (r.compareLex Mark.cmp s) =
      (a.spell ++ r).compareLex Mark.cmp (b.spell ++ s) := by
  by_cases h : a.typeName.rank = b.typeName.rank
  · rw [cmpParts_of_isLeaf b ha, spell_of_isLeaf ha, spell_of_isLeaf (isLeaf_of_rank_eq ha h),
      List.singleton_append, List.singleton_append, List.compareLex_cons_cons, Mark.cmp]
  · exact cmpParts_then_of_rank_ne r s h

mutual

/-- Comparing part by part is comparing spellings, whatever follows them. -/
theorem cmpParts_then (a b : Value) (r s : List Mark) :
    (a.cmpParts b).then (r.compareLex Mark.cmp s) =
      (a.spell ++ r).compareLex Mark.cmp (b.spell ++ s) := by
  match a with
  | array xs =>
    cases b
    case array ys => exact cmpItems_then xs ys r s
    all_goals exact cmpParts_then_of_rank_ne r s (by simp [typeName, TypeName.rank])
  | document xs =>
    cases b
    case document ys => exact cmpEntries_then xs ys r s
    all_goals exact cmpParts_then_of_rank_ne r s (by simp [typeName, TypeName.rank])
  | null | bool _ | int32 _ | int64 _ | double _ | decimal _ | string _ | foreign _ =>
    exact cmpParts_then_of_isLeaf b r s rfl
termination_by structural a

theorem cmpItems_then (xs ys : List Value) (r s : List Mark) :
    (cmpItems xs ys).then (r.compareLex Mark.cmp s) =
      (spellItems xs ++ r).compareLex Mark.cmp (spellItems ys ++ s) := by
  match xs, ys with
  | [], [] => rfl
  | [], _ :: _ => rfl
  | _ :: _, [] => rfl
  | x :: xs, y :: ys =>
    have hx := cmpParts_then x y (spellItems xs ++ r) (spellItems ys ++ s)
    have hxs := cmpItems_then xs ys r s
    simp only [cmpItems, spellItems, List.cons_append, List.append_assoc, List.compareLex_cons_cons,
      Ordering.then_assoc, hxs, hx]
    rfl
termination_by structural xs

theorem cmpEntries_then (xs ys : List (String × Value)) (r s : List Mark) :
    (cmpEntries xs ys).then (r.compareLex Mark.cmp s) =
      (spellEntries xs ++ r).compareLex Mark.cmp (spellEntries ys ++ s) := by
  match xs, ys with
  | [], [] => rfl
  | [], _ :: _ => rfl
  | _ :: _, [] => rfl
  | (k, x) :: xs, (l, y) :: ys =>
    have hx := cmpParts_then x y (spellEntries xs ++ r) (spellEntries ys ++ s)
    have hxs := cmpEntries_then xs ys r s
    simp only [cmpEntries, spellEntries, List.cons_append, List.append_assoc,
      List.compareLex_cons_cons, Ordering.then_assoc, hxs, hx]
    rfl
termination_by structural xs

end

theorem cmpParts_eq_compareLex (a b : Value) :
    a.cmpParts b = a.spell.compareLex Mark.cmp b.spell := by
  have h := cmpParts_then a b [] []
  simpa only [List.append_nil, List.compareLex_nil_nil, Ordering.then_eq] using h

instance : Std.TransCmp cmp where
  eq_swap {a b} := by
    simp only [cmp, cmpParts_eq_compareLex]
    exact Std.OrientedCmp.eq_swap
  isLE_trans {a b c} hab hbc := by
    simp only [cmp, cmpParts_eq_compareLex] at *
    exact Std.TransCmp.isLE_trans hab hbc

end Value

end DocFind
