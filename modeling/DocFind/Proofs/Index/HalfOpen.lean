import DocFind.Proofs.Index.Scan

/-!
# Ranges between arbitrary bounds

A bound on keys stands for a bound on entries that comes before every stored entry of its key. So a
start takes in the entries of its key and an end leaves them out, whether the bounds belong to the
range or not: a scan is exact for the half-open form of its range. That is the range itself unless a
stored key equals a start that does not belong to it or an end that does.
-/
namespace DocFind

namespace Bound

variable {α : Type}

/-- The bound with its place. -/
def including : Bound α → Bound α
  | unbounded => unbounded
  | included a | excluded a => included a

/-- The bound without its place. -/
def excluding : Bound α → Bound α
  | unbounded => unbounded
  | included a | excluded a => excluded a

end Bound

namespace ScanRange

variable {range : ScanRange} {key : IndexKey}

/-- The range with its start and without its end. -/
def halfOpen (range : ScanRange) : ScanRange := ⟨range.lower.including, range.upper.excluding⟩

/-- Whether a key is a start that does not belong to the range, or an end that does. -/
def meetsEdge (range : ScanRange) (key : IndexKey) : Bool :=
  (match range.lower with
    | .excluded start => start.cmp key == .eq
    | _ => false) ||
  (match range.upper with
    | .included stop => key.cmp stop == .eq
    | _ => false)

/-- Off its edges a range holds the keys of its half-open form. -/
theorem halfOpen_holds (h : range.meetsEdge key = false) :
    range.halfOpen.holds key = range.holds key := by
  obtain ⟨lower, upper⟩ := range
  obtain ⟨hstart, hstop⟩ := Bool.or_eq_false_iff.mp h
  have hlower : lower.including.admitsAbove IndexKey.cmp key =
      lower.admitsAbove IndexKey.cmp key := by
    cases lower with
    | unbounded | included start => rfl
    | excluded start =>
      simp only [Bound.including, Bound.admitsAbove] at hstart ⊢
      cases hc : start.cmp key <;> simp_all
  have hupper : upper.excluding.admitsBelow IndexKey.cmp key =
      upper.admitsBelow IndexKey.cmp key := by
    cases upper with
    | unbounded | excluded stop => rfl
    | included stop =>
      simp only [Bound.excluding, Bound.admitsBelow] at hstop ⊢
      cases hc : key.cmp stop <;> simp_all
  rw [halfOpen, holds, holds, hlower, hupper]

/-- The guard of scans answers for the half-open form as well. -/
theorem isEmpty_halfOpen (h : range.isEmpty = true) : range.halfOpen.isEmpty = true := by
  obtain ⟨lower, upper⟩ := range
  cases lower with
  | unbounded => cases h
  | included start | excluded start =>
    cases upper with
    | unbounded => cases h
    | included stop | excluded stop =>
      simp only [isEmpty, beq_iff_eq] at h
      simp [halfOpen, Bound.including, Bound.excluding, isEmpty, h]

/-! ## Bounds on entries -/

theorem empty_compare {id : String} (h : id ≠ "") : compare "" id = .lt := by
  cases hc : compare "" id with
  | lt => rfl
  | eq => exact absurd (Std.LawfulEqCmp.eq_of_compare hc).symm h
  | gt => exact absurd hc (empty_compare_ne_gt id)

theorem compare_empty {id : String} (h : id ≠ "") : compare id "" = .gt :=
  Std.OrientedCmp.gt_of_lt (empty_compare h)

/-- A start comes before the entries of its key. -/
theorem lower_entry_admits_halfOpen (range : ScanRange) {e : IndexEntry} (hid : e.id ≠ "") :
    range.entryBounds.1.admitsAbove IndexEntry.cmp e =
      range.halfOpen.lower.admitsAbove IndexKey.cmp e.key := by
  have hcmp (start : IndexKey) :
      (⟨start, ""⟩ : IndexEntry).cmp e = (start.cmp e.key).then .lt := by
    rw [IndexEntry.cmp, empty_compare hid]
  rw [entryBounds, halfOpen]
  cases range.lower with
  | unbounded => rfl
  | included start | excluded start =>
    simp only [Bound.map, Bound.including, Bound.admitsAbove, hcmp]
    cases start.cmp e.key <;> rfl

/-- An end comes before the entries of its key, too. -/
theorem upper_entry_admits_halfOpen (range : ScanRange) {e : IndexEntry} (hid : e.id ≠ "") :
    range.entryBounds.2.admitsBelow IndexEntry.cmp e =
      range.halfOpen.upper.admitsBelow IndexKey.cmp e.key := by
  have hcmp (stop : IndexKey) :
      e.cmp (⟨stop, ""⟩ : IndexEntry) = (e.key.cmp stop).then .gt := by
    rw [IndexEntry.cmp, compare_empty hid]
  rw [entryBounds, halfOpen]
  cases range.upper with
  | unbounded => rfl
  | included stop | excluded stop =>
    simp only [Bound.map, Bound.excluding, Bound.admitsBelow, hcmp]
    cases e.key.cmp stop <;> rfl

end ScanRange

namespace FieldIndex

/-! ## Scans -/

variable {index : FieldIndex}

theorem scan_eq_halfOpen (hes : IndexEntry.Ascending index.entries)
    (hids : ∀ e ∈ index.entries, e.id ≠ "") (range : ScanRange) (direction : Direction) :
    index.scan range direction = direction.arrange
      ((index.entries.filter fun e => range.halfOpen.holds e.key).map IndexEntry.id) := by
  refine scan_eq_filter hes (fun h key => ?_) (fun e he => ?_) direction
  · exact ScanRange.holds_of_isEmpty (ScanRange.isEmpty_halfOpen h) key
  · rw [range.lower_entry_admits_halfOpen (hids e he),
      range.upper_entry_admits_halfOpen (hids e he)]
    rfl

/-- Entries were there before a change or are those of the document that it adds. -/
theorem mem_apply {change : IndexChange} {e : IndexEntry}
    (he : e ∈ (index.apply change).entries) :
    e ∈ index.entries ∨ ∃ d, change = .insert d ∧ e = index.definition.entryOf d := by
  cases change with
  | insert d =>
    rw [FieldIndex.apply, FieldIndex.insert] at he
    split at he
    · exact .inl he
    · rename_i hnew
      rcases List.mem_cons.mp ((IndexEntry.insert_perm hnew).mem_iff.mp he) with rfl | he
      · exact .inr ⟨d, rfl, rfl⟩
      · exact .inl he
  | remove d =>
    rw [FieldIndex.apply, FieldIndex.remove] at he
    split at he
    · exact .inl ((IndexEntry.remove_sublist _ _).subset he)
    · exact .inl he

theorem mem_run {changes : List IndexChange} {e : IndexEntry}
    (he : e ∈ (index.run changes).entries) :
    e ∈ index.entries ∨ ∃ d, .insert d ∈ changes ∧ e = index.definition.entryOf d := by
  induction changes generalizing index with
  | nil => exact .inl he
  | cons change changes ih =>
    rcases @ih (index.apply change) he with he | ⟨d, hd, rfl⟩
    · rcases mem_apply he with he | ⟨d, rfl, rfl⟩
      · exact .inl he
      · exact .inr ⟨d, List.mem_cons_self, rfl⟩
    · exact .inr ⟨d, List.mem_cons_of_mem _ hd, by rw [apply_definition]⟩

/-- However documents with identifiers were added to an index and dropped from it, a scan yields the
entries in the half-open form of its range, and those in the range itself if no stored key is a
start that does not belong to it or an end that does. -/
theorem scan_halfOpen_exact (definition : IndexDefinition) (changes : List IndexChange)
    (hids : ∀ d, .insert d ∈ changes → d.id ≠ "") (range : ScanRange) :
    let index := (empty definition).run changes
    index.ScansExactly range (fun e => range.halfOpen.holds e.key = true) ∧
    ((∀ e ∈ index.entries, range.meetsEdge e.key = false) →
      index.ScansExactly range fun e => range.holds e.key = true) := by
  intro index
  have hes : IndexEntry.Ascending index.entries :=
    ((empty_proper definition).run changes).ascending
  have hstored : ∀ e ∈ index.entries, e.id ≠ "" := by
    intro e he
    rcases mem_run he with he | ⟨d, hd, rfl⟩
    · exact absurd he List.not_mem_nil
    · exact hids d hd
  have hscan := scan_eq_halfOpen hes hstored range
  refine ⟨scansExactly_of_scan_eq hes hscan fun _ _ => Iff.rfl, fun hedge => ?_⟩
  exact scansExactly_of_scan_eq hes hscan fun e he => by rw [ScanRange.halfOpen_holds (hedge e he)]

/-- A range whose end is stored, and one whose start was dropped. -/
theorem scan_halfOpen_exact_dropped_start :
    let definition : IndexDefinition := ⟨"x", [⟨["n"]⟩]⟩
    let a : Document := ⟨"a", [("n", .int32 1)], []⟩
    let b : Document := ⟨"b", [("n", .int32 2)], []⟩
    let c : Document := ⟨"c", [("n", .int32 3)], []⟩
    let changes : List IndexChange := [.insert a, .insert b, .insert c, .remove a]
    let index := (empty definition).run changes
    let start : Bound IndexKey := .excluded ⟨[.value (.int64 1)]⟩
    let closed : ScanRange := ⟨start, .included ⟨[.value (.int32 3)]⟩⟩
    let opened : ScanRange := ⟨start, .excluded ⟨[.value (.int32 3)]⟩⟩
    (∀ d, .insert d ∈ changes → d.id ≠ "") ∧
      index.scan closed .asc = ["b"] ∧
      index.ScansExactly closed (fun e => closed.halfOpen.holds e.key = true) ∧
      (∀ e ∈ index.entries, opened.meetsEdge e.key = false) ∧
      index.scan opened .asc = ["b"] ∧
      index.ScansExactly opened fun e => opened.holds e.key = true := by
  intro definition a b c changes index start closed opened
  have hids : ∀ d, .insert d ∈ changes → d.id ≠ "" := by
    intro d hd
    simp only [changes, List.mem_cons, IndexChange.insert.injEq, reduceCtorEq, List.not_mem_nil,
      or_false] at hd
    rcases hd with rfl | rfl | rfl <;> decide
  have hedge : ∀ e ∈ index.entries, opened.meetsEdge e.key = false := by decide
  exact ⟨hids, by decide, (scan_halfOpen_exact definition changes hids closed).1, hedge, by decide,
    (scan_halfOpen_exact definition changes hids opened).2 hedge⟩

/-- A start that does not belong to the range is yielded and an end that does is not. -/
theorem scan_of_stored_edges :
    let definition : IndexDefinition := ⟨"x", [⟨["n"]⟩]⟩
    let a : Document := ⟨"a", [("n", .int32 1)], []⟩
    let b : Document := ⟨"b", [("n", .int32 2)], []⟩
    let index := (empty definition).run [.insert a, .insert b]
    let range : ScanRange := ⟨.excluded ⟨[.value (.int32 1)]⟩, .included ⟨[.value (.int32 2)]⟩⟩
    index.scan range .asc = ["a"] ∧
      (index.entries.filter fun e => range.holds e.key).map IndexEntry.id = ["b"] ∧
      ¬ index.ScansExactly range fun e => range.holds e.key = true := by
  intro definition a b index range
  have hscan : index.scan range .asc = ["a"] := by decide
  have hin : definition.entryOf b ∈ index.entries ∧ range.holds (definition.entryOf b).key = true :=
    ⟨List.mem_cons_of_mem _ List.mem_cons_self, by decide⟩
  refine ⟨hscan, by decide, ?_⟩
  rintro ⟨found, -, hfound, hyield, -⟩
  have hmem : "b" ∈ found.map IndexEntry.id := List.mem_map.mpr ⟨_, (hfound _).mpr hin, rfl⟩
  rw [← hyield, hscan] at hmem
  exact absurd hmem (by decide)

end FieldIndex

end DocFind
