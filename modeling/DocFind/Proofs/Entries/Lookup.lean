import DocFind.Entries
import Mathlib.Data.List.Perm.Basic

/-!
# Reading what was written into a mapping

Every write is pinned by what a later look-up finds. In a mapping without repeated keys the entries
are exactly what look-ups find, and a write is, up to order, the new entry on top of the others.
-/
namespace DocFind.Entries

variable {α β : Type}

@[simp] theorem keys_nil : keys ([] : Entries α) = [] := rfl

@[simp] theorem keys_cons (e : String × α) (es : Entries α) : keys (e :: es) = e.1 :: keys es := rfl

@[simp] theorem length_values (es : Entries α) : (values es).length = es.length :=
  List.length_map _

@[simp] theorem get?_nil (k : String) : get? k ([] : Entries α) = none := rfl

theorem get?_cons (k : String) (e : String × α) (es : Entries α) :
    get? k (e :: es) = if e.1 = k then some e.2 else get? k es := rfl

/-! ## Look-ups and members -/

theorem mem_of_get? {k : String} {a : α} {es : Entries α} (h : get? k es = some a) :
    (k, a) ∈ es := by
  induction es with
  | nil => simp at h
  | cons e es ih =>
    rw [get?_cons] at h
    split_ifs at h with hk
    · obtain rfl : e.2 = a := by simpa using h
      simp [← hk]
    · exact List.mem_cons_of_mem _ (ih h)

theorem get?_eq_none_iff {k : String} {es : Entries α} : get? k es = none ↔ k ∉ keys es := by
  induction es with
  | nil => simp
  | cons e es ih =>
    rw [get?_cons, keys_cons, List.mem_cons]
    by_cases hk : e.1 = k
    · simp [hk]
    · simp [hk, ih, Ne.symm hk]

theorem get?_eq_some_iff {k : String} {a : α} {es : Entries α} (hes : (keys es).Nodup) :
    get? k es = some a ↔ (k, a) ∈ es := by
  refine ⟨mem_of_get?, fun h => ?_⟩
  induction es with
  | nil => simp at h
  | cons e es ih =>
    obtain ⟨hnot, hes⟩ := List.nodup_cons.mp hes
    rw [get?_cons]
    rcases List.mem_cons.mp h with rfl | h
    · simp
    · have hmem : k ∈ keys es := List.mem_map.mpr ⟨(k, a), h, rfl⟩
      have hk : e.1 ≠ k := fun he => hnot (he ▸ hmem)
      rw [if_neg hk, ih hes h]

/-! ## Writing -/

theorem get?_put (k l : String) (a : α) (es : Entries α) :
    get? l (put k a es) = if k = l then some a else get? l es := by
  induction es with
  | nil => rfl
  | cons e es ih =>
    rw [put]
    by_cases hk : e.1 = k
    · rw [if_pos hk, get?_cons, get?_cons, hk]
      split_ifs <;> rfl
    · rw [if_neg hk, get?_cons, get?_cons, ih]
      by_cases hl : e.1 = l
      · have hkl : k ≠ l := fun he => hk (hl.trans he.symm)
        simp [hl, hkl]
      · simp [hl]

theorem put_of_not_mem {k : String} (a : α) {es : Entries α} (h : k ∉ keys es) :
    put k a es = es ++ [(k, a)] := by
  induction es with
  | nil => rfl
  | cons e es ih =>
    rw [keys_cons, List.mem_cons, not_or] at h
    rw [put, if_neg (Ne.symm h.1), ih h.2]
    rfl

/-- To write what is there already changes nothing. -/
theorem put_of_get? {k : String} {a : α} {es : Entries α} (h : get? k es = some a) :
    put k a es = es := by
  induction es with
  | nil => cases h
  | cons e es ih =>
    rw [get?_cons] at h
    split_ifs at h with hk
    · obtain rfl : e.2 = a := Option.some.inj h
      rw [put, if_pos hk, ← hk]
    · rw [put, if_neg hk, ih h]

theorem remove_of_not_mem {k : String} {es : Entries α} (h : k ∉ keys es) : remove k es = es := by
  refine List.filter_eq_self.mpr fun e he => ?_
  have hne : e.1 ≠ k := fun hk => h (hk ▸ List.mem_map.mpr ⟨e, he, rfl⟩)
  simpa using hne

/-- A write puts the new entry among the entries of the other keys. -/
theorem put_perm (k : String) (a : α) {es : Entries α} (hes : (keys es).Nodup) :
    (put k a es).Perm ((k, a) :: remove k es) := by
  induction es with
  | nil => exact .refl _
  | cons e es ih =>
    obtain ⟨hnot, hes⟩ := List.nodup_cons.mp hes
    rw [put]
    by_cases hk : e.1 = k
    · have hkeep : remove k (e :: es) = es := by
        rw [remove, List.filter_cons_of_neg (by simp [hk])]
        exact remove_of_not_mem (hk ▸ hnot)
      rw [if_pos hk, hkeep]
    · have hkeep : remove k (e :: es) = e :: remove k es := List.filter_cons_of_pos (by simp [hk])
      rw [if_neg hk, hkeep]
      exact ((ih hes).cons e).trans (.swap _ _ _)

theorem perm_cons_remove {k : String} {a : α} {es : Entries α} (hes : (keys es).Nodup)
    (h : get? k es = some a) : es.Perm ((k, a) :: remove k es) := by
  induction es with
  | nil => simp at h
  | cons e es ih =>
    obtain ⟨hnot, hes⟩ := List.nodup_cons.mp hes
    rw [get?_cons] at h
    by_cases hk : e.1 = k
    · have hkeep : remove k (e :: es) = es := by
        rw [remove, List.filter_cons_of_neg (by simp [hk])]
        exact remove_of_not_mem (hk ▸ hnot)
      obtain rfl : e.2 = a := by simpa [hk] using h
      rw [hkeep, ← hk]
    · have hkeep : remove k (e :: es) = e :: remove k es := List.filter_cons_of_pos (by simp [hk])
      rw [if_neg hk] at h
      rw [hkeep]
      exact ((ih hes h).cons e).trans (.swap _ _ _)

theorem get?_insertByKey (k l : String) (a : α) (es : Entries α) :
    get? l (insertByKey k a es) = if k = l then some a else get? l es := by
  induction es with
  | nil => rfl
  | cons e es ih =>
    rw [insertByKey]
    by_cases hlt : e.1 < k
    · rw [if_pos hlt, get?_cons, get?_cons, ih]
      by_cases hl : e.1 = l
      · have hkl : k ≠ l := fun he => String.ne_of_lt hlt (hl.trans he.symm)
        simp [hl, hkl]
      · simp [hl]
    · rw [if_neg hlt]
      rfl

/-! ## Removing -/

theorem mem_keys_remove {k l : String} {es : Entries α} :
    l ∈ keys (remove k es) ↔ l ∈ keys es ∧ l ≠ k := by
  simp only [keys, remove, List.mem_map, List.mem_filter, decide_eq_true_eq]
  constructor
  · rintro ⟨e, ⟨he, hk⟩, rfl⟩
    exact ⟨⟨e, he, rfl⟩, hk⟩
  · rintro ⟨⟨e, he, rfl⟩, hk⟩
    exact ⟨e, ⟨he, hk⟩, rfl⟩

theorem get?_remove (k l : String) (es : Entries α) :
    get? l (remove k es) = if k = l then none else get? l es := by
  by_cases h : k = l
  · rw [if_pos h, get?_eq_none_iff, mem_keys_remove]
    exact fun hl => hl.2 h.symm
  rw [if_neg h]
  induction es with
  | nil => rfl
  | cons e es ih =>
    by_cases hk : e.1 = k
    · rw [remove, List.filter_cons_of_neg (by simp [hk]), get?_cons, hk, if_neg h]
      exact ih
    · rw [remove, List.filter_cons_of_pos (by simp [hk]), get?_cons, get?_cons]
      split_ifs
      · rfl
      · exact ih

theorem nodup_keys_remove (k : String) {es : Entries α} (hes : (keys es).Nodup) :
    (keys (remove k es)).Nodup :=
  (List.filter_sublist.map Prod.fst).nodup hes

theorem nodup_keys_put (k : String) (a : α) {es : Entries α} (hes : (keys es).Nodup) :
    (keys (put k a es)).Nodup := by
  rw [keys, ((put_perm k a hes).map Prod.fst).nodup_iff, List.map_cons, List.nodup_cons]
  exact ⟨fun h => (mem_keys_remove.mp h).2 rfl, nodup_keys_remove k hes⟩

/-! ## Changing every value -/

theorem get?_mapValues (f : α → β) (k : String) (es : Entries α) :
    get? k (mapValues f es) = (get? k es).map f := by
  induction es with
  | nil => rfl
  | cons e es ih =>
    rw [mapValues, List.map_cons, get?_cons, get?_cons, ← mapValues, ih]
    split_ifs <;> rfl

theorem mapValues_mapValues_eq {f : α → β} {g : β → α} {es : Entries α}
    (h : ∀ e ∈ es, g (f e.2) = e.2) : mapValues g (mapValues f es) = es := by
  rw [mapValues, mapValues, List.map_map]
  refine (List.map_congr_left fun e he => ?_).trans (List.map_id es)
  exact Prod.ext rfl (h e he)

theorem mem_mapValues {f : α → β} {e : String × β} {es : Entries α} (h : e ∈ mapValues f es) :
    ∃ a, (e.1, a) ∈ es ∧ e.2 = f a := by
  obtain ⟨⟨k, a⟩, ha, rfl⟩ := List.mem_map.mp h
  exact ⟨a, ha, rfl⟩

end DocFind.Entries
