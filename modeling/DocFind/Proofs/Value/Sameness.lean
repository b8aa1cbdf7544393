import DocFind.Proofs.Entries.Ascending
import DocFind.Proofs.Index.KeyOrder
import Mathlib.Data.List.Forall2

/-!
# Parts of values that are the same

Values that the order does not tell apart are of one type, and a path that leads somewhere in one
of them leads to the same value in the other. So documents that are the same have the same keys in
every index.
-/
namespace DocFind

/-- What two look-ups found is missing from both or the same. -/
abbrev SameFound : Option Value → Option Value → Prop := Option.Rel fun x y => x.cmp y = .eq

theorem rel_cases {α : Type} {R : α → α → Prop} {x y : Option α} (h : Option.Rel R x y) :
    (x = none ∧ y = none) ∨ ∃ a b, x = some a ∧ y = some b ∧ R a b := by
  cases h with
  | none => exact .inl ⟨rfl, rfl⟩
  | some hab => exact .inr ⟨_, _, rfl, rfl, hab⟩

namespace Value

variable {a b : Value}

theorem same_iff : a.same b = true ↔ a.cmp b = .eq := beq_iff_eq

/-! ## Types -/

@[simp] theorem typeName_sortKeys (v : Value) : v.sortKeys.typeName = v.typeName := by
  cases v <;> rfl

theorem typeName_eq_of_cmp_eq (h : a.cmp b = .eq) : a.typeName = b.typeName := by
  by_contra hne
  have hrank : a.sortKeys.typeName.rank ≠ b.sortKeys.typeName.rank := by
    rw [typeName_sortKeys, typeName_sortKeys]
    cases ha : a.typeName <;> cases hb : b.typeName <;> simp_all [TypeName.rank]
  rw [cmp, cmpParts_of_rank_ne hrank, Nat.compare_eq_eq] at h
  exact hrank h

/-! ## Items -/

theorem cmpItems_eq_eq {xs ys : List Value} :
    cmpItems xs ys = .eq ↔ List.Forall₂ (fun x y => x.cmpParts y = .eq) xs ys := by
  induction xs generalizing ys with
  | nil =>
    cases ys with
    | nil => exact iff_of_true rfl .nil
    | cons y ys => exact iff_of_false nofun nofun
  | cons x xs ih =>
    cases ys with
    | nil => exact iff_of_false nofun nofun
    | cons y ys => rw [cmpItems, Ordering.then_eq_eq, ih, List.forall₂_cons]

theorem sortKeysItems_eq_map (xs : List Value) : sortKeysItems xs = xs.map sortKeys := by
  induction xs with
  | nil => rfl
  | cons x xs ih => rw [sortKeysItems, ih, List.map_cons]

theorem array_cmp_array {xs ys : List Value} :
    (array xs).cmp (array ys) = .eq ↔ List.Forall₂ (fun x y => x.cmp y = .eq) xs ys := by
  change cmpItems (sortKeysItems xs) (sortKeysItems ys) = .eq ↔ _
  rw [cmpItems_eq_eq, sortKeysItems_eq_map, sortKeysItems_eq_map, List.forall₂_map_left_iff,
    List.forall₂_map_right_iff]
  rfl

/-- Of two values that are the same both are arrays, of the same items, or neither is one. -/
theorem array_cases (h : a.cmp b = .eq) :
    (∃ xs ys, a = array xs ∧ b = array ys ∧ List.Forall₂ (fun x y => x.cmp y = .eq) xs ys) ∨
      (∀ xs, a ≠ array xs) ∧ ∀ ys, b ≠ array ys := by
  have htype := typeName_eq_of_cmp_eq h
  by_cases ha : ∃ xs, a = array xs
  · obtain ⟨xs, rfl⟩ := ha
    cases b with
    | array ys => exact .inl ⟨xs, ys, rfl, rfl, array_cmp_array.mp h⟩
    | _ => simp [typeName] at htype
  · refine .inr ⟨fun xs hxs => ha ⟨xs, hxs⟩, fun ys hys => ha ?_⟩
    subst hys
    cases a with
    | array xs => exact ⟨xs, rfl⟩
    | _ => simp [typeName] at htype

/-! ## Entries -/

theorem get?_sortKeysEntries (k : String) (es : List (String × Value)) :
    Entries.get? k (sortKeysEntries es) = (Entries.get? k es).map sortKeys := by
  induction es with
  | nil => rfl
  | cons e es ih =>
    rw [sortKeysEntries, Entries.get?_insertByKey, ih, Entries.get?_cons]
    split_ifs <;> rfl

/-- Sorted keys ascend if none comes twice. -/
theorem ascending_sortKeysEntries {es : Body} (h : (Entries.keys es).Nodup) :
    Entries.Ascending (sortKeysEntries es) := by
  induction es with
  | nil => exact Entries.ascending_nil
  | cons e es ih =>
    obtain ⟨hnot, hes⟩ := List.nodup_cons.mp h
    refine (ih hes).insertByKey ?_ e.2.sortKeys
    rwa [← Entries.get?_eq_none_iff, get?_sortKeysEntries, Option.map_eq_none_iff,
      Entries.get?_eq_none_iff]

theorem cmpEntries_eq_eq {xs ys : List (String × Value)} (h : cmpEntries xs ys = .eq) (k : String) :
    Option.Rel (fun x y => x.cmpParts y = .eq) (Entries.get? k xs) (Entries.get? k ys) := by
  induction xs generalizing ys with
  | nil =>
    cases ys with
    | nil => exact .none
    | cons y ys => cases h
  | cons x xs ih =>
    cases ys with
    | nil => cases h
    | cons y ys =>
      rw [cmpEntries, Ordering.then_eq_eq, Ordering.then_eq_eq] at h
      obtain ⟨hkey, hvalue, hrest⟩ := h
      have hkeys : x.1 = y.1 := Std.LawfulEqCmp.eq_of_compare hkey
      rw [Entries.get?_cons, Entries.get?_cons, hkeys]
      split_ifs
      · exact .some hvalue
      · exact ih hrest

/-- Documents that are the same hold the same under every key. -/
theorem get?_of_document_cmp {xs ys : Body} (h : (document xs).cmp (document ys) = .eq)
    (k : String) : SameFound (Entries.get? k xs) (Entries.get? k ys) := by
  have hentries : cmpEntries (sortKeysEntries xs) (sortKeysEntries ys) = .eq := h
  have hfound := cmpEntries_eq_eq hentries k
  rw [get?_sortKeysEntries, get?_sortKeysEntries] at hfound
  rcases rel_cases hfound with ⟨hx, hy⟩ | ⟨v, w, hx, hy, hvalue⟩
  · rw [Option.map_eq_none_iff.mp hx, Option.map_eq_none_iff.mp hy]
    exact .none
  · obtain ⟨x, hfoundx, rfl⟩ := Option.map_eq_some_iff.mp hx
    obtain ⟨y, hfoundy, rfl⟩ := Option.map_eq_some_iff.mp hy
    rw [hfoundx, hfoundy]
    exact .some hvalue

theorem mem_keys_iff_of_rel {R : Value → Value → Prop} {xs ys : Body}
    (h : ∀ k, Option.Rel R (Entries.get? k xs) (Entries.get? k ys)) (k : String) :
    k ∈ Entries.keys xs ↔ k ∈ Entries.keys ys := by
  rw [← not_iff_not, ← Entries.get?_eq_none_iff, ← Entries.get?_eq_none_iff]
  rcases rel_cases (h k) with ⟨hx, hy⟩ | ⟨x, y, hx, hy, -⟩ <;> simp [hx, hy]

/-- Mappings with ascending keys are the same if they hold the same under every key: they have the
same least key, and hold the same in the rest. -/
theorem cmpEntries_of_get? {xs ys : Body} (hxs : Entries.Ascending xs) (hys : Entries.Ascending ys)
    (h : ∀ k, Option.Rel (fun x y => x.cmpParts y = .eq) (Entries.get? k xs) (Entries.get? k ys)) :
    cmpEntries xs ys = .eq := by
  have hmem := mem_keys_iff_of_rel h
  induction xs generalizing ys with
  | nil =>
    cases ys with
    | nil => rfl
    | cons y ys => exact absurd ((hmem y.1).mpr List.mem_cons_self) List.not_mem_nil
  | cons x xs ih =>
    cases ys with
    | nil => exact absurd ((hmem x.1).mp List.mem_cons_self) List.not_mem_nil
    | cons y ys =>
      obtain ⟨hx, hxs⟩ := Entries.ascending_cons.mp hxs
      obtain ⟨hy, hys⟩ := Entries.ascending_cons.mp hys
      have hkey : x.1 = y.1 := by
        rcases List.mem_cons.mp ((hmem x.1).mp List.mem_cons_self) with heq | hinys
        · exact heq
        rcases List.mem_cons.mp ((hmem y.1).mpr List.mem_cons_self) with heq | hinxs
        · exact heq.symm
        · exact absurd (hy x.1 hinys) (lt_asymm (hx y.1 hinxs))
      have hvalue : x.2.cmpParts y.2 = .eq := by
        have hfirst := h x.1
        rw [Entries.get?_cons, Entries.get?_cons, if_pos rfl, if_pos hkey.symm] at hfirst
        cases hfirst
        assumption
      have hrest (k : String) : Option.Rel (fun x y => x.cmpParts y = .eq)
          (Entries.get? k xs) (Entries.get? k ys) := by
        by_cases hk : x.1 = k
        · subst hk
          have hnotx : x.1 ∉ Entries.keys xs := fun hin => lt_irrefl _ (hx _ hin)
          have hnoty : x.1 ∉ Entries.keys ys := fun hin => lt_irrefl _ (hkey ▸ hy _ hin)
          rw [Entries.get?_eq_none_iff.mpr hnotx, Entries.get?_eq_none_iff.mpr hnoty]
          exact .none
        · have hother := h k
          rwa [Entries.get?_cons, Entries.get?_cons, if_neg hk, if_neg (hkey ▸ hk)] at hother
      rw [cmpEntries, Ordering.then_eq_eq, Ordering.then_eq_eq]
      exact ⟨Std.LawfulEqCmp.compare_eq_iff_eq.mpr hkey, hvalue,
        ih hxs hys hrest (mem_keys_iff_of_rel hrest)⟩

/-- Documents without repeated keys that hold the same under every key are the same. -/
theorem document_cmp_of_get? {xs ys : Body} (hxs : (Entries.keys xs).Nodup)
    (hys : (Entries.keys ys).Nodup) (h : ∀ k, SameFound (Entries.get? k xs) (Entries.get? k ys)) :
    (document xs).cmp (document ys) = .eq := by
  refine cmpEntries_of_get? (ascending_sortKeysEntries hxs) (ascending_sortKeysEntries hys) ?_
  intro k
  rw [get?_sortKeysEntries, get?_sortKeysEntries]
  rcases rel_cases (h k) with ⟨hx, hy⟩ | ⟨x, y, hx, hy, hvalue⟩
  · rw [hx, hy]
    exact .none
  · rw [hx, hy]
    exact .some hvalue

/-! ## Paths -/

theorem getElem?_of_forall₂ {xs ys : List Value}
    (h : List.Forall₂ (fun x y => x.cmp y = .eq) xs ys) (i : Nat) : SameFound xs[i]? ys[i]? := by
  induction h generalizing i with
  | nil => exact .none
  | cons hxy _ ih =>
    cases i with
    | zero => exact .some hxy
    | succ i => exact ih i

theorem step?_of_cmp_eq (h : a.cmp b = .eq) (segment : String) :
    SameFound (a.step? segment) (b.step? segment) := by
  rcases array_cases h with ⟨xs, ys, rfl, rfl, hitems⟩ | ⟨ha, hb⟩
  · rw [step?, step?]
    cases arrayIndex? segment with
    | none => exact .none
    | some i => exact getElem?_of_forall₂ hitems i
  · have htype := typeName_eq_of_cmp_eq h
    cases a <;> cases b <;> first
      | exact absurd rfl (ha _)
      | exact absurd rfl (hb _)
      | exact get?_of_document_cmp h segment
      | exact .none
      | simp [typeName] at htype

theorem follow?_of_cmp_eq (h : a.cmp b = .eq) (segments : List String) :
    SameFound (a.follow? segments) (b.follow? segments) := by
  induction segments generalizing a b with
  | nil => exact .some h
  | cons segment rest ih =>
    rw [follow?, follow?]
    rcases rel_cases (step?_of_cmp_eq h segment) with ⟨ha, hb⟩ | ⟨x, y, ha, hb, hpart⟩
    · rw [ha, hb]
      exact .none
    · rw [ha, hb]
      exact ih hpart

end Value

/-- A path leads to the same in documents that are the same. -/
theorem Body.resolve?_of_cmp_eq {a b : Body} (h : (Value.document a).cmp (.document b) = .eq)
    (path : FieldPath) : SameFound (resolve? a path) (resolve? b path) := by
  rw [resolve?, resolve?]
  split_ifs
  · exact .none
  · exact Value.follow?_of_cmp_eq h path.segments

/-- Documents that are the same have equal keys. -/
theorem IndexKey.ofBody_beq {a b : Body} (h : (Value.document a).cmp (.document b) = .eq)
    (fields : List FieldPath) : (ofBody fields a == ofBody fields b) = true := by
  suffices hkeys : (ofBody fields a).cmp (ofBody fields b) = .eq from
    Std.LawfulBEqCmp.compare_eq_iff_beq.mp hkeys
  induction fields with
  | nil => rfl
  | cons path rest ih =>
    have hpart : (KeyPart.ofOption (Body.resolve? a path)).cmp
        (KeyPart.ofOption (Body.resolve? b path)) = .eq := by
      rcases rel_cases (Body.resolve?_of_cmp_eq h path) with ⟨ha, hb⟩ | ⟨x, y, ha, hb, hvalue⟩
      · rw [ha, hb]
        rfl
      · rw [ha, hb]
        exact hvalue
    have hrest : (ofBody rest a).cmp (ofBody rest b) = .eq := ih
    rw [cmp] at hrest ⊢
    rw [ofBody, ofBody, List.map_cons, List.map_cons, List.compareLex_cons_cons, hpart]
    exact hrest

end DocFind
