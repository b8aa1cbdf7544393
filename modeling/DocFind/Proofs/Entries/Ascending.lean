import DocFind.Proofs.Entries.Lookup
import Mathlib.Data.List.Nodup
import Mathlib.Data.String.Basic
import Mathlib.Tactic.SplitIfs

/-!
# Mappings with ascending keys

Writing by key keeps the keys ascending, so the sorted mapping of any entries has ascending keys,
none of them twice, and holds entries that were written only. A mapping that has ascending keys
already is its own sorted mapping.
-/
namespace DocFind.Entries

variable {α β : Type} {e : String × α} {es : Entries α} {key : String}

/-- The keys ascend, and none comes twice. -/
def Ascending (es : Entries α) : Prop := (keys es).Pairwise (· < ·)

instance (es : Entries α) : Decidable (Ascending es) :=
  inferInstanceAs (Decidable ((keys es).Pairwise (· < ·)))

theorem ascending_nil : Ascending ([] : Entries α) := .nil

theorem ascending_cons : Ascending (e :: es) ↔ (∀ k ∈ keys es, e.1 < k) ∧ Ascending es :=
  List.pairwise_cons

theorem Ascending.nodup (h : Ascending es) : (keys es).Nodup := h.imp ne_of_lt

theorem ascending_singleton (key : String) (a : α) : Ascending [(key, a)] :=
  List.pairwise_singleton _ _

/-! ## Writing by key -/

theorem mem_putByKey {a : α} (h : e ∈ putByKey key a es) : e = (key, a) ∨ e ∈ es := by
  induction es with
  | nil => exact .inl (List.mem_singleton.mp h)
  | cons f es ih =>
    rw [putByKey] at h
    split_ifs at h
    · rcases List.mem_cons.mp h with rfl | h
      · exact .inr List.mem_cons_self
      · exact (ih h).imp_right (List.mem_cons_of_mem f)
    · exact (List.mem_cons.mp h).imp_right (List.mem_cons_of_mem f)
    · exact List.mem_cons.mp h

theorem mem_keys_putByKey {a : α} {k : String} (h : k ∈ keys (putByKey key a es)) :
    k = key ∨ k ∈ keys es := by
  obtain ⟨e, he, rfl⟩ := List.mem_map.mp h
  exact (mem_putByKey he).imp (congrArg Prod.fst) fun he => List.mem_map_of_mem he

theorem Ascending.putByKey (h : Ascending es) (key : String) (a : α) :
    Ascending (putByKey key a es) := by
  induction es with
  | nil => exact ascending_singleton key a
  | cons f es ih =>
    obtain ⟨hfirst, hrest⟩ := ascending_cons.mp h
    rw [Entries.putByKey]
    split_ifs with hlt heq
    · refine ascending_cons.mpr ⟨fun k hk => ?_, ih hrest⟩
      rcases mem_keys_putByKey hk with rfl | hk
      · exact hlt
      · exact hfirst k hk
    · exact ascending_cons.mpr ⟨heq ▸ hfirst, hrest⟩
    · have hbelow : key < f.1 := lt_of_le_of_ne (not_lt.mp hlt) (Ne.symm heq)
      refine ascending_cons.mpr ⟨fun k hk => ?_, h⟩
      rcases List.mem_cons.mp hk with rfl | hk
      · exact hbelow
      · exact hbelow.trans (hfirst k hk)

theorem get?_putByKey (k l : String) (a : α) (es : Entries α) :
    get? l (putByKey k a es) = if k = l then some a else get? l es := by
  induction es with
  | nil => rfl
  | cons e es ih =>
    by_cases hlt : e.1 < k
    · rw [Entries.putByKey, if_pos hlt, get?_cons, get?_cons, ih]
      by_cases hl : e.1 = l
      · have hkl : k ≠ l := fun he => ne_of_lt hlt (hl.trans he.symm)
        simp [hl, hkl]
      · simp [hl]
    · by_cases heq : e.1 = k
      · rw [Entries.putByKey, if_neg hlt, if_pos heq, get?_cons, get?_cons, heq]
        split_ifs <;> rfl
      · rw [Entries.putByKey, if_neg hlt, if_neg heq]
        rfl

/-- A key above all others is appended. -/
theorem putByKey_of_forall_lt {a : α} (h : ∀ k ∈ keys es, k < key) :
    putByKey key a es = es ++ [(key, a)] := by
  induction es with
  | nil => rfl
  | cons f es ih =>
    rw [keys_cons, List.forall_mem_cons] at h
    rw [putByKey, if_pos h.1, ih h.2]
    rfl

/-! ## Sorted mappings -/

theorem ascending_foldl {sorted : Entries α} (h : Ascending sorted) (es : Entries α) :
    Ascending (es.foldl (fun sorted e => putByKey e.1 e.2 sorted) sorted) := by
  induction es generalizing sorted with
  | nil => exact h
  | cons e es ih => exact ih (h.putByKey e.1 e.2)

theorem ascending_toSorted (es : Entries α) : Ascending (toSorted es) :=
  ascending_foldl ascending_nil es

theorem mem_foldl {sorted : Entries α}
    (h : e ∈ es.foldl (fun sorted e => putByKey e.1 e.2 sorted) sorted) :
    e ∈ sorted ∨ e ∈ es := by
  induction es generalizing sorted with
  | nil => exact .inl h
  | cons f es ih =>
    rcases ih h with h | h
    · rcases mem_putByKey h with rfl | h
      · exact .inr List.mem_cons_self
      · exact .inl h
    · exact .inr (List.mem_cons_of_mem f h)

theorem mem_toSorted (h : e ∈ toSorted es) : e ∈ es :=
  (mem_foldl h).resolve_left List.not_mem_nil

theorem get?_foldl (hes : (keys es).Nodup) (sorted : Entries α) (k : String) :
    get? k (es.foldl (fun sorted e => putByKey e.1 e.2 sorted) sorted) =
      (get? k es).or (get? k sorted) := by
  induction es generalizing sorted with
  | nil => rfl
  | cons e es ih =>
    obtain ⟨hnot, hes⟩ := List.nodup_cons.mp hes
    rw [List.foldl_cons, ih hes, get?_putByKey, get?_cons]
    by_cases hk : e.1 = k
    · rw [if_pos hk, if_pos hk, get?_eq_none_iff.mpr (hk ▸ hnot)]
      rfl
    · rw [if_neg hk, if_neg hk]

/-- Sorting changes no look-up if no key is written twice. -/
theorem get?_toSorted (hes : (keys es).Nodup) (k : String) :
    get? k (toSorted es) = get? k es := by
  rw [toSorted, get?_foldl hes, get?_nil, Option.or_none]

theorem foldl_eq_append {sorted : Entries α} (h : Ascending (sorted ++ es)) :
    es.foldl (fun sorted e => putByKey e.1 e.2 sorted) sorted = sorted ++ es := by
  induction es generalizing sorted with
  | nil => exact (List.append_nil sorted).symm
  | cons e es ih =>
    have habove : ∀ k ∈ keys sorted, k < e.1 := by
      rw [Ascending, keys, List.map_append, List.pairwise_append] at h
      exact fun k hk => h.2.2 k hk e.1 List.mem_cons_self
    rw [List.append_cons] at h ⊢
    rw [List.foldl_cons, putByKey_of_forall_lt habove, ih h]

theorem Ascending.toSorted_eq (h : Ascending es) : toSorted es = es :=
  foldl_eq_append (show Ascending ([] ++ es) from h)

/-! ## Placing by key -/

theorem mem_keys_insertByKey {a : α} {k : String} :
    k ∈ keys (insertByKey key a es) ↔ k = key ∨ k ∈ keys es := by
  rw [← not_iff_not, not_or, ← get?_eq_none_iff, get?_insertByKey, ← get?_eq_none_iff]
  by_cases hk : key = k
  · simp [hk]
  · simp [hk, Ne.symm hk]

theorem Ascending.insertByKey (h : Ascending es) (hkey : key ∉ keys es) (a : α) :
    Ascending (insertByKey key a es) := by
  induction es with
  | nil => exact ascending_singleton key a
  | cons f es ih =>
    obtain ⟨hfirst, hrest⟩ := ascending_cons.mp h
    rw [keys_cons, List.mem_cons, not_or] at hkey
    rw [Entries.insertByKey]
    split_ifs with hlt
    · refine ascending_cons.mpr ⟨fun k hk => ?_, ih hrest hkey.2⟩
      rcases mem_keys_insertByKey.mp hk with rfl | hk
      · exact hlt
      · exact hfirst k hk
    · have hbelow : key < f.1 := lt_of_le_of_ne (not_lt.mp hlt) hkey.1
      refine ascending_cons.mpr ⟨fun k hk => ?_, h⟩
      rcases List.mem_cons.mp hk with rfl | hk
      · exact hbelow
      · exact hbelow.trans (hfirst k hk)

/-- Mappings with ascending keys in which look-ups find the same are equal. -/
theorem Ascending.ext {xs ys : Entries α} (hxs : Ascending xs) (hys : Ascending ys)
    (h : ∀ k, get? k xs = get? k ys) : xs = ys := by
  have hmem : ∀ e, e ∈ xs ↔ e ∈ ys := fun e => by
    rw [← get?_eq_some_iff hxs.nodup, ← get?_eq_some_iff hys.nodup, h e.1]
  have hperm : xs.Perm ys :=
    (List.perm_ext_iff_of_nodup (hxs.nodup.of_map Prod.fst) (hys.nodup.of_map Prod.fst)).mpr hmem
  refine hperm.eq_of_pairwise (fun a b _ _ hab hba => ?_) (List.pairwise_map.mp hxs)
    (List.pairwise_map.mp hys)
  exact absurd hba (lt_asymm hab)

/-! ## Changing every value -/

@[simp] theorem keys_mapValues (f : α → β) (es : Entries α) :
    keys (mapValues f es) = keys es := by
  simp [keys, mapValues]

theorem Ascending.mapValues (h : Ascending es) (f : α → β) : Ascending (mapValues f es) := by
  rw [Ascending, keys_mapValues]
  exact h

end DocFind.Entries
