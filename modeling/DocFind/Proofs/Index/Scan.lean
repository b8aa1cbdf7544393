import DocFind.Proofs.Index.Changes
import DocFind.Proofs.Index.Range

/-!
# Scans of an index

In ascending entries the ones between two bounds are the ones that both bounds admit, so a scan
yields the entries in its range, in ascending order or in the reverse of it. For the ranges that are
derived from a prefix and bounds on the next part this is said of the parts of the keys themselves,
for keys and prefixes of every length.
-/
namespace DocFind

section Prefix

variable {α : Type} {p : α → Bool} {xs : List α}

theorem filter_eq_nil_of_head {x : α} (h : (x :: xs).Pairwise fun a b => p b = true → p a = true)
    (hx : ¬ p x = true) : (x :: xs).filter p = [] := by
  rw [List.filter_eq_nil_iff]
  intro a ha
  rcases List.mem_cons.mp ha with rfl | ha
  · exact hx
  · exact fun hp => hx ((List.pairwise_cons.mp h).1 a ha hp)

/-- Where `p` passes to what stands before, the elements with `p` come first. -/
theorem takeWhile_eq_filter (h : xs.Pairwise fun a b => p b = true → p a = true) :
    xs.takeWhile p = xs.filter p := by
  induction xs with
  | nil => rfl
  | cons x xs ih =>
    by_cases hx : p x = true
    · rw [List.takeWhile_cons_of_pos hx, List.filter_cons_of_pos hx,
        ih (List.pairwise_cons.mp h).2]
    · rw [List.takeWhile_cons_of_neg hx, filter_eq_nil_of_head h hx]

theorem dropWhile_not_eq_filter (h : xs.Pairwise fun a b => p a = true → p b = true) :
    (xs.dropWhile fun x => !p x) = xs.filter p := by
  induction xs with
  | nil => rfl
  | cons x xs ih =>
    obtain ⟨hhead, hrest⟩ := List.pairwise_cons.mp h
    by_cases hx : p x = true
    · have hall : (x :: xs).filter p = x :: xs := by
        refine List.filter_eq_self.mpr fun a ha => ?_
        rcases List.mem_cons.mp ha with rfl | ha
        · exact hx
        · exact hhead a ha hx
      rw [List.dropWhile_cons_of_neg (by simpa using hx), hall]
    · rw [List.dropWhile_cons_of_pos (by simpa using hx), List.filter_cons_of_neg hx, ih hrest]

end Prefix

namespace Bound

variable {α : Type} {cmp : α → α → Ordering} {x y : α}

theorem admitsAbove_of_lt [Std.TransCmp cmp] (bound : Bound α) (h : cmp x y = .lt)
    (hx : bound.admitsAbove cmp x = true) : bound.admitsAbove cmp y = true := by
  cases bound with
  | unbounded => rfl
  | included a => exact Std.TransCmp.isLE_trans hx (by simp [h])
  | excluded a => exact beq_iff_eq.mpr (Std.TransCmp.lt_trans (beq_iff_eq.mp hx) h)

theorem admitsBelow_of_lt [Std.TransCmp cmp] (bound : Bound α) (h : cmp x y = .lt)
    (hy : bound.admitsBelow cmp y = true) : bound.admitsBelow cmp x = true := by
  cases bound with
  | unbounded => rfl
  | included a => exact Std.TransCmp.isLE_trans (by simp [h]) hy
  | excluded a => exact beq_iff_eq.mpr (Std.TransCmp.lt_trans h (beq_iff_eq.mp hy))

end Bound

theorem IndexEntry.between_eq_filter {es : List IndexEntry} (hes : Ascending es)
    (bounds : Bound IndexEntry × Bound IndexEntry) :
    between bounds es =
      es.filter fun e => bounds.1.admitsAbove cmp e && bounds.2.admitsBelow cmp e := by
  have habove := hes.imp fun h => bounds.1.admitsAbove_of_lt h
  have hbelow := hes.imp fun h => bounds.2.admitsBelow_of_lt h
  rw [between, dropWhile_not_eq_filter habove,
    takeWhile_eq_filter (hbelow.sublist List.filter_sublist), List.filter_filter]
  simp only [Bool.and_comm]

namespace FieldIndex

variable {index : FieldIndex} {range : ScanRange} {f : IndexKey → Bool}

/-- If the bounds on entries and the guard both say `f` of the keys, a scan filters by `f`. -/
theorem scan_eq_filter (hes : IndexEntry.Ascending index.entries)
    (hempty : range.isEmpty = true → ∀ key, f key = false)
    (hadmits : ∀ e ∈ index.entries, (range.entryBounds.1.admitsAbove IndexEntry.cmp e &&
      range.entryBounds.2.admitsBelow IndexEntry.cmp e) = f e.key) (direction : Direction) :
    index.scan range direction =
      direction.arrange ((index.entries.filter fun e => f e.key).map IndexEntry.id) := by
  rw [scan]
  split_ifs with h
  · have hnone : (index.entries.filter fun e => f e.key) = [] := by simp [hempty h]
    rw [hnone]
    cases direction <;> rfl
  · rw [IndexEntry.between_eq_filter hes]
    congr 2
    exact List.filter_congr hadmits

/-- The entries in a range that no stored key is on the edge of. -/
theorem scan_eq (hes : IndexEntry.Ascending index.entries) (range : ScanRange)
    (hclear : ∀ e ∈ index.entries, range.ClearOf e.key) (direction : Direction) :
    index.scan range direction =
      direction.arrange ((index.entries.filter fun e => range.holds e.key).map IndexEntry.id) := by
  refine scan_eq_filter hes ScanRange.holds_of_isEmpty (fun e he => ?_) direction
  rw [ScanRange.lower_entry_admits (hclear e he), ScanRange.upper_entry_admits (hclear e he)]
  rfl

end FieldIndex

/-! ## Stored keys in derived ranges -/

open KeyPart (greatest missing value)

theorem IndexKey.beq_iff {a b : IndexKey} : (a == b) = true ↔ b.cmp a = .eq :=
  Std.LawfulBEqCmp.compare_eq_iff_beq.symm.trans Std.OrientedCmp.eq_comm

namespace ScanRange

variable {key stored : IndexKey}

/-- No key lies among those that begin with a longer one, and none equals it. -/
theorem startingWith_of_length_lt (h : stored.parts.length < key.parts.length) :
    (startingWith key).holds stored = false ∧ key.cmp stored ≠ .eq := by
  obtain ⟨front, part, rest, hkey, hlen⟩ : ∃ front part rest,
      key.parts = front ++ part :: rest ∧ front.length = stored.parts.length := by
    obtain ⟨part, rest, hdrop⟩ := List.exists_cons_of_length_pos
      (show 0 < (key.parts.drop stored.parts.length).length by rw [List.length_drop]; omega)
    refine ⟨key.parts.take stored.parts.length, part, rest, ?_, ?_⟩
    · rw [← hdrop, List.take_append_drop]
    · rw [List.length_take]
      omega
  -- The longer key is above the shorter one unless it was already below it.
  have hlower : key.cmp stored = ((⟨front⟩ : IndexKey).cmp stored).then .gt := by
    have h := IndexKey.append_cmp hlen.symm (part :: rest) []
    rwa [List.append_nil, ← hkey] at h
  have hupper : stored.cmp (key.snoc greatest) = (stored.cmp ⟨front⟩).then .lt := by
    have h := IndexKey.cmp_append hlen.symm [] (part :: rest ++ [greatest])
    rwa [List.append_nil, ← List.append_assoc, ← hkey] at h
  have hswap : stored.cmp ⟨front⟩ = ((⟨front⟩ : IndexKey).cmp stored).swap :=
    Std.OrientedCmp.eq_swap
  rw [← Bool.not_eq_true, holds_iff]
  simp only [startingWith, Bound.admitsAbove, Bound.admitsBelow, hlower, hupper, hswap]
  cases (⟨front⟩ : IndexKey).cmp stored <;> simp

/-- The stored keys that begin with a key, be they longer than it or not. -/
theorem startingWith_holds_iff (hstored : stored.Stored) : (startingWith key).holds stored = true ↔
    (⟨stored.parts.take key.parts.length⟩ : IndexKey) == key := by
  rw [IndexKey.beq_iff]
  by_cases hlen : key.parts.length ≤ stored.parts.length
  · have hfront : key.parts.length = (stored.parts.take key.parts.length).length := by
      rw [List.length_take]
      omega
    have hrest : ∀ part ∈ stored.parts.drop key.parts.length, part.cmp greatest = .lt :=
      fun part hpart => hstored part (List.mem_of_mem_drop hpart)
    have hholds := startingWith_holds hfront hrest
    rwa [List.take_append_drop] at hholds
  · obtain ⟨hholds, hne⟩ := startingWith_of_length_lt (Nat.lt_of_not_le hlen)
    rw [List.take_of_length_le (Nat.le_of_not_le hlen), hholds]
    exact iff_of_false Bool.false_ne_true hne

/-- The stored keys that begin with a key and go on with a value between two bounds. -/
theorem bounded_holds_iff (hstored : stored.Stored) (hlen : key.parts.length < stored.parts.length)
    (lower upper : Bound Value) : (bounded key lower upper).holds stored = true ↔
      (⟨stored.parts.take key.parts.length⟩ : IndexKey) == key ∧
        ∃ v, stored.parts[key.parts.length]? = some (value v) ∧
          lower.admitsAbove Value.cmp v = true ∧ upper.admitsBelow Value.cmp v = true := by
  have hfront : key.parts.length = (stored.parts.take key.parts.length).length := by
    rw [List.length_take]
    omega
  have hrest : ∀ part ∈ stored.parts.drop (key.parts.length + 1), part.cmp greatest = .lt :=
    fun part hpart => hstored part (List.mem_of_mem_drop hpart)
  have hholds := bounded_holds hfront (hstored _ (List.getElem_mem hlen)) hrest lower upper
  rw [← List.drop_eq_getElem_cons hlen, List.take_append_drop] at hholds
  rw [hholds, IndexKey.beq_iff, List.getElem?_eq_getElem hlen]
  simp only [Option.some.injEq]

end ScanRange

/-! ## Scans in derived ranges -/

namespace FieldIndex

/-- A scan of the range yields the identifiers of the entries with a property, one for each of them
in ascending order, and in the reverse of it when it descends. -/
def ScansExactly (index : FieldIndex) (range : ScanRange) (P : IndexEntry → Prop) : Prop :=
  ∃ found, IndexEntry.Ascending found ∧ (∀ e, e ∈ found ↔ e ∈ index.entries ∧ P e) ∧
    index.scan range .asc = found.map IndexEntry.id ∧
    index.scan range .desc = (index.scan range .asc).reverse

variable {index : FieldIndex}

theorem scansExactly_of_scan_eq {range : ScanRange} {f : IndexKey → Bool}
    {P : IndexEntry → Prop} (hes : IndexEntry.Ascending index.entries)
    (hscan : ∀ direction, index.scan range direction =
      direction.arrange ((index.entries.filter fun e => f e.key).map IndexEntry.id))
    (hP : ∀ e ∈ index.entries, f e.key = true ↔ P e) : index.ScansExactly range P := by
  refine ⟨index.entries.filter fun e => f e.key, hes.sublist List.filter_sublist, ?_,
    hscan .asc, ?_⟩
  · intro e
    rw [List.mem_filter]
    exact and_congr_right fun he => hP e he
  · rw [hscan, hscan]
    rfl

theorem scansExactly {range : ScanRange} {P : IndexEntry → Prop}
    (hes : IndexEntry.Ascending index.entries) (hclear : ∀ e ∈ index.entries, range.ClearOf e.key)
    (hP : ∀ e ∈ index.entries, range.holds e.key = true ↔ P e) : index.ScansExactly range P :=
  scansExactly_of_scan_eq hes (scan_eq hes range hclear) hP

theorem Proper.stored (h : index.Proper) {e : IndexEntry} (he : e ∈ index.entries) :
    e.key.Stored ∧ e.key.parts.length = index.definition.fields.length := by
  obtain ⟨d, rfl⟩ := h.keyed e he
  exact ⟨IndexKey.ofBody_stored _ d.body, IndexKey.length_ofBody _ d.body⟩

theorem Proper.scan_full (h : index.Proper) : index.ScansExactly .full fun _ => True :=
  scansExactly h.ascending (fun e _ => ScanRange.full_clearOf e.key) fun _ _ => ⟨fun _ => trivial,
    fun _ => rfl⟩

theorem Proper.scan_startingWith (h : index.Proper) (key : IndexKey) :
    index.ScansExactly (.startingWith key) fun e =>
      (⟨e.key.parts.take key.parts.length⟩ : IndexKey) == key :=
  scansExactly h.ascending (fun e _ => ScanRange.startingWith_clearOf key e.key) fun _ he =>
    ScanRange.startingWith_holds_iff (h.stored he).1

theorem Proper.scan_bounded (h : index.Proper) {key : IndexKey}
    (hlen : key.parts.length < index.definition.fields.length) (lower upper : Bound Value) :
    index.ScansExactly (.bounded key lower upper) fun e =>
      (⟨e.key.parts.take key.parts.length⟩ : IndexKey) == key ∧
        ∃ v, e.key.parts[key.parts.length]? = some (value v) ∧
          lower.admitsAbove Value.cmp v = true ∧ upper.admitsBelow Value.cmp v = true := by
  refine scansExactly h.ascending (fun e he => ?_) fun e he => ?_
  · exact ScanRange.bounded_clearOf key lower upper (h.stored he).1
  · obtain ⟨hstored, hlength⟩ := h.stored he
    exact ScanRange.bounded_holds_iff hstored (hlength ▸ hlen) lower upper

/-- However an index was built and changed, what its entries are is decided by the latest changes,
and its scans are exact: the full one yields all of them, the one from a prefix those that begin
with it, and the bounded one those that go on with a value between the bounds. -/
theorem scan_exact (definition : IndexDefinition) (docs : List Document)
    (changes : List IndexChange) :
    let index := (build definition docs).run changes
    (∀ e : IndexEntry, e.isIn index.entries =
      definition.lists (docs.map IndexChange.insert ++ changes) e) ∧
    index.ScansExactly .full (fun _ => True) ∧
    (∀ key : IndexKey, index.ScansExactly (.startingWith key) fun e =>
      (⟨e.key.parts.take key.parts.length⟩ : IndexKey) == key) ∧
    ∀ (key : IndexKey) (lower upper : Bound Value), key.parts.length < definition.fields.length →
      index.ScansExactly (.bounded key lower upper) fun e =>
        (⟨e.key.parts.take key.parts.length⟩ : IndexKey) == key ∧
          ∃ v, e.key.parts[key.parts.length]? = some (value v) ∧
            lower.admitsAbove Value.cmp v = true ∧ upper.admitsBelow Value.cmp v = true := by
  intro index
  have hindex : index = (empty definition).run (docs.map IndexChange.insert ++ changes) := by
    rw [run_append, ← build_eq_run]
  have hproper : index.Proper := hindex ▸ (empty_proper definition).run _
  have hdefinition : index.definition = definition := hindex ▸ run_definition _ _
  refine ⟨fun e => ?_, hproper.scan_full, hproper.scan_startingWith,
    fun key lower upper hlen => hproper.scan_bounded (hdefinition ▸ hlen) lower upper⟩
  rw [hindex]
  exact (empty_proper definition).isIn_run _ e

/-- An index over two fields from which a document was dropped, scanned for those whose first field
is 1 and whose second field has a value above null and up to 2. -/
theorem scan_exact_bounded :
    let definition : IndexDefinition := ⟨"x", [⟨["m"]⟩, ⟨["n"]⟩]⟩
    let a : Document := ⟨"a", [("m", .int32 1), ("n", .int32 2)], []⟩
    let b : Document := ⟨"b", [("m", .int32 1)], []⟩
    let c : Document := ⟨"c", [("m", .int32 1), ("n", .int32 0)], []⟩
    let index := (build definition [a, b]).run [.insert c, .remove a]
    let key : IndexKey := ⟨[.value (.int64 1)]⟩
    let range : ScanRange := .bounded key (.excluded .null) (.included (.int32 2))
    key.parts.length < definition.fields.length ∧ index.scan range .asc = ["c"] ∧
      index.ScansExactly range fun e => (⟨e.key.parts.take 1⟩ : IndexKey) == key ∧
        ∃ v, e.key.parts[1]? = some (value v) ∧
          (Value.null.cmp v == .lt) = true ∧ (v.cmp (.int32 2)).isLE = true := by
  intro definition a b c index key range
  have hlen : key.parts.length < definition.fields.length := by decide
  obtain ⟨-, -, -, hbounded⟩ := scan_exact definition [a, b] [.insert c, .remove a]
  exact ⟨hlen, by decide, hbounded key (.excluded .null) (.included (.int32 2)) hlen⟩

end FieldIndex

end DocFind
