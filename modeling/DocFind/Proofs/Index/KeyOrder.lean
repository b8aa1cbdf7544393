import DocFind.Index.Key
import DocFind.Proofs.Value.TotalOrder

/-!
# The order of index keys and entries

Parts are ordered by rank and, where both are values, by value. Keys are lists of parts and entries
are pairs, so the laws of the order of values carry over to both, and equality of parts, keys and
entries is exactly what the order does not tell apart.
-/
namespace DocFind

namespace KeyPart

instance : Std.TransCmp cmp := by
  refine transCmp_of_rank rank ?_ ?_ ?_
  · intro a b h
    cases a <;> cases b <;> first | rfl | exact absurd rfl h
  · intro a b h
    cases a <;> cases b <;> cases h
    · rfl
    · exact @Std.OrientedCmp.eq_swap Value Value.cmp _ _ _
    · rfl
  · intro a b c hab hbc h₁ h₂
    cases a <;> cases b <;> cases hab <;> cases c <;> cases hbc
    · rfl
    · exact @Std.TransCmp.isLE_trans Value Value.cmp _ _ _ _ h₁ h₂
    · rfl

instance : Std.LawfulBEqCmp cmp where
  compare_eq_iff_beq := beq_iff_eq.symm

@[simp] theorem missing_cmp_missing : missing.cmp missing = .eq := rfl

@[simp] theorem missing_cmp_value (w : Value) : missing.cmp (value w) = .lt := rfl

@[simp] theorem value_cmp_missing (v : Value) : (value v).cmp missing = .gt := rfl

@[simp] theorem value_cmp_value (v w : Value) : (value v).cmp (value w) = v.cmp w := rfl

@[simp] theorem cmp_greatest_self : greatest.cmp greatest = .eq := rfl

/-- The part for what a field holds is never the end mark of ranges. -/
theorem ofOption_cmp_greatest (o : Option Value) : (ofOption o).cmp greatest = .lt := by
  cases o <;> rfl

end KeyPart

namespace IndexKey

instance : Std.TransCmp cmp where
  eq_swap {a b} := @Std.OrientedCmp.eq_swap _ (List.compareLex KeyPart.cmp) _ a.parts b.parts
  isLE_trans {a b c} :=
    @Std.TransCmp.isLE_trans _ (List.compareLex KeyPart.cmp) _ a.parts b.parts c.parts

instance : Std.LawfulBEqCmp cmp where
  compare_eq_iff_beq {a b} :=
    @Std.LawfulBEqCmp.compare_eq_iff_beq _ _ (List.compareLex KeyPart.cmp) _ a.parts b.parts

/-- A proper beginning of a key comes before it. -/
theorem cmp_append_cons (key : IndexKey) (part : KeyPart) (rest : List KeyPart) :
    key.cmp ⟨key.parts ++ part :: rest⟩ = .lt := by
  have h := compareLex_append KeyPart.cmp (rfl : key.parts.length = _) [] (part :: rest)
  have hself : key.parts.compareLex KeyPart.cmp key.parts = .eq := Std.ReflCmp.compare_self
  rw [List.append_nil, hself] at h
  exact h

end IndexKey

namespace IndexEntry

instance : Std.TransCmp cmp := by
  have h : cmp = compareLex (fun a b => a.key.cmp b.key) (compareOn id) := rfl
  have hkey : Std.TransCmp fun a b : IndexEntry => a.key.cmp b.key :=
    { eq_swap := Std.OrientedCmp.eq_swap
      isLE_trans := Std.TransCmp.isLE_trans }
  rw [h]
  infer_instance

instance : Std.LawfulBEqCmp cmp where
  compare_eq_iff_beq {a b} := by
    have hkey : a.key.cmp b.key = .eq ↔ a.key == b.key := Std.LawfulBEqCmp.compare_eq_iff_beq
    have hid : compare a.id b.id = .eq ↔ a.id == b.id := Std.LawfulBEqCmp.compare_eq_iff_beq
    rw [cmp, Ordering.then_eq_eq, hkey, hid, ← Bool.and_eq_true]
    rfl

end IndexEntry

/-- Values, parts of keys, keys and entries are totally preordered, a proper beginning of a key
comes first, and each notion of equality is what its order does not tell apart. -/
theorem values_and_keys_totally_preordered :
    OrderLaws Value.cmp ∧ OrderLaws KeyPart.cmp ∧ OrderLaws IndexKey.cmp ∧
      OrderLaws IndexEntry.cmp ∧
      (Equivalence fun a b : Value => a.same b = true) ∧
      (∀ a b : Value, a.same b = true ↔ a.cmp b = .eq) ∧
      (∀ a b : KeyPart, (a == b) = true ↔ a.cmp b = .eq) ∧
      (∀ a b : IndexKey, (a == b) = true ↔ a.cmp b = .eq) ∧
      (∀ a b : IndexEntry, (a == b) = true ↔ a.cmp b = .eq) ∧
      ∀ (key : IndexKey) (part : KeyPart) (rest : List KeyPart),
        key.cmp ⟨key.parts ++ part :: rest⟩ = .lt := by
  have hsame (a b : Value) : a.same b = true ↔ a.cmp b = .eq := beq_iff_eq
  refine ⟨.of_transCmp, .of_transCmp, .of_transCmp, .of_transCmp, ?_, hsame, ?_, ?_, ?_,
    IndexKey.cmp_append_cons⟩
  · simpa only [hsame] using (OrderLaws.of_transCmp : OrderLaws Value.cmp).equivalence
  · exact fun a b => Std.LawfulBEqCmp.compare_eq_iff_beq.symm
  · exact fun a b => Std.LawfulBEqCmp.compare_eq_iff_beq.symm
  · exact fun a b => Std.LawfulBEqCmp.compare_eq_iff_beq.symm

end DocFind
