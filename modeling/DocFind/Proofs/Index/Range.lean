import DocFind.Index.Range
import DocFind.Proofs.Index.KeyOrder

/-!
# The keys in a range

The key of a document has no part above every value. Among such keys a range that starts with a
key holds those whose first parts equal it, and a bounded range those whose next part is also a
value between the bounds. No such key meets the excluded end of a range, which is why bounds on
keys may stand for bounds on entries.
-/
namespace DocFind

namespace IndexKey

/-- Keys of documents: the end mark of ranges does not appear. -/
def Stored (key : IndexKey) : Prop := ∀ part ∈ key.parts, part.cmp .greatest = .lt

theorem ofBody_stored (fields : List FieldPath) (body : Body) : (ofBody fields body).Stored := by
  intro part hpart
  obtain ⟨path, -, rfl⟩ := List.mem_map.mp hpart
  exact KeyPart.ofOption_cmp_greatest _

@[simp] theorem length_ofBody (fields : List FieldPath) (body : Body) :
    (ofBody fields body).parts.length = fields.length := by
  simp [ofBody]

@[simp] theorem snoc_parts (key : IndexKey) (part : KeyPart) :
    (key.snoc part).parts = key.parts ++ [part] := rfl

theorem cmp_append {key : IndexKey} {front : List KeyPart}
    (hlen : key.parts.length = front.length) (tail rest : List KeyPart) :
    (⟨key.parts ++ tail⟩ : IndexKey).cmp ⟨front ++ rest⟩ =
      (key.cmp ⟨front⟩).then (tail.compareLex KeyPart.cmp rest) :=
  compareLex_append KeyPart.cmp hlen tail rest

theorem append_cmp {key : IndexKey} {front : List KeyPart}
    (hlen : key.parts.length = front.length) (rest tail : List KeyPart) :
    (⟨front ++ rest⟩ : IndexKey).cmp ⟨key.parts ++ tail⟩ =
      ((⟨front⟩ : IndexKey).cmp key).then (rest.compareLex KeyPart.cmp tail) :=
  compareLex_append KeyPart.cmp hlen.symm rest tail

end IndexKey

open KeyPart (greatest missing value)

theorem nil_compareLex_ne_gt (rest : List KeyPart) : [].compareLex KeyPart.cmp rest ≠ .gt := by
  cases rest <;> exact Ordering.noConfusion

theorem compareLex_nil_ne_lt (rest : List KeyPart) : rest.compareLex KeyPart.cmp [] ≠ .lt := by
  cases rest <;> exact Ordering.noConfusion

/-- Behind a common beginning every stored rest comes before the end mark. -/
theorem compareLex_greatest {rest : List KeyPart}
    (h : ∀ part ∈ rest, part.cmp greatest = .lt) :
    rest.compareLex KeyPart.cmp [greatest] = .lt := by
  cases rest with
  | nil => rfl
  | cons part rest => rw [List.compareLex_cons_cons, h part List.mem_cons_self, Ordering.lt_then]

theorem greatest_compareLex {rest : List KeyPart}
    (h : ∀ part ∈ rest, part.cmp greatest = .lt) :
    [greatest].compareLex KeyPart.cmp rest = .gt := by
  have hswap : [greatest].compareLex KeyPart.cmp rest =
      (rest.compareLex KeyPart.cmp [greatest]).swap := Std.OrientedCmp.eq_swap
  rw [hswap, compareLex_greatest h, Ordering.swap_lt]

theorem then_isLE_iff_of_ne_gt {o p : Ordering} (hp : p ≠ .gt) :
    (o.then p).isLE = true ↔ o.isLE = true := by
  cases o <;> cases p <;> first | rfl | simp at hp ⊢

theorem then_eq_lt_iff_of_ne_lt {o p : Ordering} (hp : p ≠ .lt) : o.then p = .lt ↔ o = .lt := by
  cases o <;> cases p <;> first | rfl | simp at hp ⊢

theorem then_lt_eq_lt_iff {o : Ordering} : o.then .lt = .lt ↔ o.isLE = true := by
  cases o <;> simp

namespace Bound

variable {α : Type} {cmp : α → α → Ordering} {lower upper : Bound α}

/-- Whether a start and an end leave no room: the start comes after the end, or both are at one
place and not both belong to what lies between them. -/
def vacant (cmp : α → α → Ordering) : Bound α → Bound α → Bool
  | included a, included b => cmp a b == .gt
  | included a, excluded b | excluded a, included b | excluded a, excluded b => (cmp a b).isGE
  | _, _ => false

/-- Nothing lies between bounds that leave no room. -/
theorem not_admits_of_vacant [Std.TransCmp cmp] (h : vacant cmp lower upper = true) {x : α}
    (hlower : lower.admitsAbove cmp x = true) : ¬ upper.admitsBelow cmp x = true := by
  intro hupper
  cases lower with
  | unbounded => cases h
  | included a =>
    have ha : (cmp a x).isLE = true := hlower
    cases upper with
    | unbounded => cases h
    | included b =>
      have hab := Std.TransCmp.isLE_trans ha hupper
      simp only [vacant, beq_iff_eq] at h
      simp [h] at hab
    | excluded b =>
      have hab := Std.TransCmp.lt_of_isLE_of_lt ha (beq_iff_eq.mp hupper)
      simp [vacant, hab] at h
  | excluded a =>
    have ha : cmp a x = .lt := beq_iff_eq.mp hlower
    cases upper with
    | unbounded => cases h
    | included b =>
      have hab := Std.TransCmp.lt_of_lt_of_isLE ha hupper
      simp [vacant, hab] at h
    | excluded b =>
      have hab := Std.TransCmp.lt_trans ha (beq_iff_eq.mp hupper)
      simp [vacant, hab] at h

end Bound

namespace ScanRange

variable {key : IndexKey} {front rest : List KeyPart} {part : KeyPart}

theorem holds_iff {range : ScanRange} : range.holds key = true ↔
    range.lower.admitsAbove IndexKey.cmp key = true ∧
      range.upper.admitsBelow IndexKey.cmp key = true := by
  rw [holds, Bool.and_eq_true]

/-- The keys whose first parts equal a key. -/
theorem startingWith_holds (hlen : key.parts.length = front.length)
    (hrest : ∀ part ∈ rest, part.cmp greatest = .lt) :
    (startingWith key).holds ⟨front ++ rest⟩ = true ↔ key.cmp ⟨front⟩ = .eq := by
  have hlower := IndexKey.cmp_append hlen [] rest
  have hupper := IndexKey.append_cmp hlen rest [greatest]
  rw [List.append_nil] at hlower
  rw [compareLex_greatest hrest] at hupper
  have hswap : (⟨front⟩ : IndexKey).cmp key = (key.cmp ⟨front⟩).swap := Std.OrientedCmp.eq_swap
  have habove : (startingWith key).lower.admitsAbove IndexKey.cmp ⟨front ++ rest⟩ = true ↔
      (key.cmp ⟨front⟩).isLE = true := by
    -- The start has no further parts, so it decides alone.
    simp only [startingWith, Bound.admitsAbove]
    exact hlower ▸ then_isLE_iff_of_ne_gt (nil_compareLex_ne_gt rest)
  have hbelow : (startingWith key).upper.admitsBelow IndexKey.cmp ⟨front ++ rest⟩ = true ↔
      (key.cmp ⟨front⟩).swap.isLE = true := by
    simp only [startingWith, Bound.admitsBelow, beq_iff_eq]
    exact hswap ▸ hupper ▸ then_lt_eq_lt_iff
  rw [holds_iff, habove, hbelow]
  cases key.cmp ⟨front⟩ <;> simp

/-- What a lower bound says: the beginning is above the key, or equal and followed by a value that
the bound admits. -/
theorem bounded_lower (hlen : key.parts.length = front.length) (hpart : part.cmp greatest = .lt)
    (hrest : ∀ part ∈ rest, part.cmp greatest = .lt) (lower upper : Bound Value) :
    (bounded key lower upper).lower.admitsAbove IndexKey.cmp ⟨front ++ part :: rest⟩ = true ↔
      key.cmp ⟨front⟩ = .lt ∨ key.cmp ⟨front⟩ = .eq ∧
        ∃ v, part = value v ∧ lower.admitsAbove Value.cmp v = true := by
  have hcmp (mark : KeyPart) (tail : List KeyPart) :
      (⟨key.parts ++ mark :: tail⟩ : IndexKey).cmp ⟨front ++ part :: rest⟩ =
        (key.cmp ⟨front⟩).then ((mark.cmp part).then (tail.compareLex KeyPart.cmp rest)) := by
    rw [IndexKey.cmp_append hlen, List.compareLex_cons_cons]
  -- The end mark behind a part keeps out all the keys that begin with that part.
  have hpast (mark : KeyPart) :
      (⟨key.parts ++ [mark, greatest]⟩ : IndexKey).cmp ⟨front ++ part :: rest⟩ = .lt ↔
        key.cmp ⟨front⟩ = .lt ∨ key.cmp ⟨front⟩ = .eq ∧ mark.cmp part = .lt := by
    have hne : [greatest].compareLex KeyPart.cmp rest ≠ .lt := by
      rw [greatest_compareLex hrest]
      exact Ordering.noConfusion
    rw [hcmp, Ordering.then_eq_lt, then_eq_lt_iff_of_ne_lt hne]
  cases lower with
  | included v =>
    have hle : (key.snoc (value v)).cmp ⟨front ++ part :: rest⟩ =
        (key.cmp ⟨front⟩).then (((value v).cmp part).then ([].compareLex KeyPart.cmp rest)) :=
      hcmp (value v) []
    simp only [bounded, Bound.admitsAbove, hle]
    rw [Ordering.isLE_then_iff_or, then_isLE_iff_of_ne_gt (nil_compareLex_ne_gt rest)]
    cases part <;> simp_all
  | excluded v =>
    have hlt := hpast (value v)
    simp only [bounded, Bound.admitsAbove, IndexKey.snoc, List.append_assoc, List.cons_append,
      List.nil_append, beq_iff_eq, hlt]
    cases part <;> simp_all
  | unbounded =>
    have hlt := hpast missing
    simp only [bounded, Bound.admitsAbove, IndexKey.snoc, List.append_assoc, List.cons_append,
      List.nil_append, beq_iff_eq, hlt]
    cases part <;> simp_all

/-- What an upper bound says: the beginning is below the key, or equal and not followed by a value
that the bound refuses. -/
theorem bounded_upper (hlen : key.parts.length = front.length) (hpart : part.cmp greatest = .lt)
    (hrest : ∀ part ∈ rest, part.cmp greatest = .lt) (lower upper : Bound Value) :
    (bounded key lower upper).upper.admitsBelow IndexKey.cmp ⟨front ++ part :: rest⟩ = true ↔
      key.cmp ⟨front⟩ = .gt ∨ key.cmp ⟨front⟩ = .eq ∧
        ∀ v, part = value v → upper.admitsBelow Value.cmp v = true := by
  have hswap : (⟨front⟩ : IndexKey).cmp key = (key.cmp ⟨front⟩).swap := Std.OrientedCmp.eq_swap
  have hcmp (mark : KeyPart) (tail : List KeyPart) :
      (⟨front ++ part :: rest⟩ : IndexKey).cmp ⟨key.parts ++ mark :: tail⟩ =
        (key.cmp ⟨front⟩).swap.then ((part.cmp mark).then (rest.compareLex KeyPart.cmp tail)) := by
    rw [IndexKey.append_cmp hlen, List.compareLex_cons_cons, hswap]
  cases upper with
  | included v =>
    have hlt : (⟨front ++ part :: rest⟩ : IndexKey).cmp ((key.snoc (value v)).snoc greatest) =
        (key.cmp ⟨front⟩).swap.then ((part.cmp (value v)).then .lt) := by
      rw [← compareLex_greatest hrest, ← hcmp, IndexKey.snoc, IndexKey.snoc_parts,
        List.append_assoc, List.singleton_append]
    simp only [bounded, Bound.admitsBelow, hlt, beq_iff_eq]
    rw [Ordering.then_eq_lt, then_lt_eq_lt_iff, Ordering.swap_eq_lt, Ordering.swap_eq_eq]
    cases part <;> simp_all
  | excluded v =>
    have hlt : (⟨front ++ part :: rest⟩ : IndexKey).cmp (key.snoc (value v)) =
        (key.cmp ⟨front⟩).swap.then ((part.cmp (value v)).then (rest.compareLex KeyPart.cmp [])) :=
      hcmp (value v) []
    simp only [bounded, Bound.admitsBelow, hlt, beq_iff_eq]
    rw [Ordering.then_eq_lt, then_eq_lt_iff_of_ne_lt (compareLex_nil_ne_lt rest),
      Ordering.swap_eq_lt, Ordering.swap_eq_eq]
    cases part <;> simp_all
  | unbounded =>
    have hlt : (⟨front ++ part :: rest⟩ : IndexKey).cmp (key.snoc greatest) =
        (key.cmp ⟨front⟩).swap.then .lt := by
      have hall : ∀ q ∈ part :: rest, q.cmp greatest = .lt :=
        List.forall_mem_cons.mpr ⟨hpart, hrest⟩
      rw [← compareLex_greatest hall, ← hswap]
      exact IndexKey.append_cmp hlen (part :: rest) [greatest]
    simp only [bounded, Bound.admitsBelow, hlt, beq_iff_eq]
    rw [Ordering.then_eq_lt, Ordering.swap_eq_lt, Ordering.swap_eq_eq]
    simp

/-- The keys whose first parts equal a key and whose next part is a value between the bounds. -/
theorem bounded_holds (hlen : key.parts.length = front.length) (hpart : part.cmp greatest = .lt)
    (hrest : ∀ part ∈ rest, part.cmp greatest = .lt) (lower upper : Bound Value) :
    (bounded key lower upper).holds ⟨front ++ part :: rest⟩ = true ↔
      key.cmp ⟨front⟩ = .eq ∧ ∃ v, part = value v ∧
        lower.admitsAbove Value.cmp v = true ∧ upper.admitsBelow Value.cmp v = true := by
  rw [holds_iff, bounded_lower hlen hpart hrest, bounded_upper hlen hpart hrest]
  constructor
  · rintro ⟨hlt | ⟨heq, v, rfl, hlower⟩, hgt | ⟨heq', hupper⟩⟩
    · exact absurd (hlt.symm.trans hgt) Ordering.noConfusion
    · exact absurd (hlt.symm.trans heq') Ordering.noConfusion
    · exact absurd (heq.symm.trans hgt) Ordering.noConfusion
    · exact ⟨heq, v, rfl, hlower, hupper v rfl⟩
  · rintro ⟨heq, v, rfl, hlower, hupper⟩
    refine ⟨.inr ⟨heq, v, rfl, hlower⟩, .inr ⟨heq, fun w hw => ?_⟩⟩
    cases hw
    exact hupper

/-- The guard of scans asks whether the bounds on keys leave room. -/
theorem isEmpty_eq_vacant (range : ScanRange) :
    range.isEmpty = Bound.vacant IndexKey.cmp range.lower range.upper := by
  obtain ⟨lower, upper⟩ := range
  cases lower <;> cases upper <;> rfl

/-- A range whose bounds leave no room holds no key. -/
theorem holds_of_isEmpty {range : ScanRange} (h : range.isEmpty = true) (key : IndexKey) :
    range.holds key = false := by
  rw [← Bool.not_eq_true, holds_iff]
  rintro ⟨hlower, hupper⟩
  exact Bound.not_admits_of_vacant (range.isEmpty_eq_vacant ▸ h) hlower hupper

/-! ## Bounds on entries -/

/-- The key is not where the range ends without belonging to it, and the range has no last key. -/
structure ClearOf (range : ScanRange) (key : IndexKey) : Prop where
  lower : ∀ bound, range.lower = .excluded bound → bound.cmp key ≠ .eq
  upper : ∀ bound, range.upper ≠ .included bound

theorem full_clearOf (key : IndexKey) : full.ClearOf key where
  lower _ h := by cases h
  upper _ h := by cases h

theorem startingWith_clearOf (start key : IndexKey) : (startingWith start).ClearOf key where
  lower _ h := by cases h
  upper _ h := by cases h

theorem snoc_greatest_cmp_ne_eq (start : IndexKey) {key : IndexKey} (hkey : key.Stored) :
    (start.snoc greatest).cmp key ≠ .eq := by
  obtain ⟨parts⟩ := key
  obtain ⟨marks⟩ := start
  change (marks ++ [greatest]).compareLex KeyPart.cmp parts ≠ .eq
  induction marks generalizing parts with
  | nil =>
    rw [List.nil_append, greatest_compareLex hkey]
    exact Ordering.noConfusion
  | cons mark marks ih =>
    cases parts with
    | nil => exact Ordering.noConfusion
    | cons part parts =>
      rw [List.cons_append, List.compareLex_cons_cons, Ne, Ordering.then_eq_eq]
      exact fun h => ih parts (fun q hq => hkey q (List.mem_cons_of_mem _ hq)) h.2

theorem bounded_clearOf (start : IndexKey) (lower upper : Bound Value) {key : IndexKey}
    (hkey : key.Stored) : (bounded start lower upper).ClearOf key where
  lower bound h := by
    cases lower <;> cases h <;> exact snoc_greatest_cmp_ne_eq _ hkey
  upper bound h := by
    cases upper <;> cases h

/-- No identifier comes before the empty one. -/
theorem compare_empty_ne_lt (id : String) : compare id "" ≠ .lt := by
  intro h
  have hlt : id < "" := compareOfLessAndEq_eq_lt.mp h
  exact List.not_lt_nil _ (String.lt_iff.mp hlt)

theorem empty_compare_ne_gt (id : String) : compare "" id ≠ .gt := by
  have hswap : compare "" id = (compare id "").swap := Std.OrientedCmp.eq_swap
  rw [hswap, Ne, Ordering.swap_eq_gt]
  exact compare_empty_ne_lt id

theorem lower_entry_admits {range : ScanRange} {e : IndexEntry} (h : range.ClearOf e.key) :
    range.entryBounds.1.admitsAbove IndexEntry.cmp e =
      range.lower.admitsAbove IndexKey.cmp e.key := by
  rw [entryBounds, Bool.eq_iff_iff]
  cases hl : range.lower with
  | unbounded => rfl
  | included bound => exact then_isLE_iff_of_ne_gt (empty_compare_ne_gt e.id)
  | excluded bound =>
    have hne := h.lower bound hl
    simp only [Bound.map, Bound.admitsAbove, IndexEntry.cmp, beq_iff_eq]
    rw [Ordering.then_eq_lt]
    simp [hne]

theorem upper_entry_admits {range : ScanRange} {e : IndexEntry} (h : range.ClearOf e.key) :
    range.entryBounds.2.admitsBelow IndexEntry.cmp e =
      range.upper.admitsBelow IndexKey.cmp e.key := by
  rw [entryBounds, Bool.eq_iff_iff]
  cases hu : range.upper with
  | unbounded => rfl
  | included bound => exact absurd hu (h.upper bound)
  | excluded bound =>
    simp only [Bound.map, Bound.admitsBelow, IndexEntry.cmp, beq_iff_eq]
    exact then_eq_lt_iff_of_ne_lt (compare_empty_ne_lt e.id)

end ScanRange

end DocFind
