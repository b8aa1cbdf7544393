import DocFind.Proofs.Index.Scan
import DocFind.Proofs.Plan.Scan

/-!
# The guard of scans

An ordered set has no range between bounds that are crossed: asked for one, it fails. Scans are
guarded by a test on keys, while the bounds that are handed to the set are on entries. The entries
without documents that stand for keys are ordered as the keys are, so whatever passes the guard is
not crossed, and what does not pass it holds no key and no entry.
-/
namespace DocFind

namespace Bound

variable {α β : Type} {cmp : α → α → Ordering} {cmp' : β → β → Ordering} {lower upper : Bound α}

/-- Whether a start comes after an end, or both are at one place that neither takes in. -/
def crossed (cmp : α → α → Ordering) : Bound α → Bound α → Bool
  | excluded a, excluded b => (cmp a b).isGE
  | included a, included b | included a, excluded b | excluded a, included b => cmp a b == .gt
  | _, _ => false

/-- Crossed bounds leave no room. -/
theorem vacant_of_crossed (h : crossed cmp lower upper = true) : vacant cmp lower upper = true := by
  cases lower with
  | unbounded => cases h
  | included a | excluded a =>
    cases upper with
    | unbounded => cases h
    | included b | excluded b => simp_all [crossed, vacant]

theorem vacant_map {f : α → β} (hf : ∀ a b, cmp' (f a) (f b) = cmp a b) (lower upper : Bound α) :
    vacant cmp' (lower.map f) (upper.map f) = vacant cmp lower upper := by
  cases lower <;> cases upper <;> simp [map, vacant, hf]

end Bound

/-! ## Bounds on entries -/

namespace IndexEntry

/-- Entries without documents are ordered as their keys are. -/
theorem cmp_without_documents (a b : IndexKey) :
    (⟨a, ""⟩ : IndexEntry).cmp ⟨b, ""⟩ = a.cmp b := by
  have hself : compare "" "" = .eq := Std.ReflCmp.compare_self
  rw [cmp, hself, Ordering.then_eq]

/-- The entries between two bounds, as an ordered set yields them: it fails if they are crossed. -/
def range? (bounds : Bound IndexEntry × Bound IndexEntry) (entries : List IndexEntry) :
    Option (List IndexEntry) :=
  if Bound.crossed cmp bounds.1 bounds.2 then none else some (between bounds entries)

end IndexEntry

namespace ScanRange

/-- The guard says the same of the bounds on entries as of those on keys. -/
theorem vacant_entryBounds (range : ScanRange) :
    Bound.vacant IndexEntry.cmp range.entryBounds.1 range.entryBounds.2 = range.isEmpty := by
  rw [isEmpty_eq_vacant]
  exact Bound.vacant_map IndexEntry.cmp_without_documents range.lower range.upper

/-- What passes the guard is not crossed. -/
theorem crossed_entryBounds {range : ScanRange} (h : range.isEmpty = false) :
    Bound.crossed IndexEntry.cmp range.entryBounds.1 range.entryBounds.2 = false := by
  rw [← range.vacant_entryBounds] at h
  exact Bool.eq_false_iff.mpr fun hcrossed => Bool.eq_false_iff.mp h
    (Bound.vacant_of_crossed hcrossed)

end ScanRange

namespace FieldIndex

/-- A scan on an ordered set of entries, which may fail. -/
def scan? (index : FieldIndex) (range : ScanRange) (direction : Direction) :
    Option (List String) :=
  if range.isEmpty then some []
  else (IndexEntry.range? range.entryBounds index.entries).map fun found =>
    direction.arrange (found.map IndexEntry.id)

/-- The guard keeps every scan from failing. -/
theorem scan?_eq (index : FieldIndex) (range : ScanRange) (direction : Direction) :
    index.scan? range direction = some (index.scan range direction) := by
  rw [scan?, scan]
  split_ifs with h
  · rfl
  · rw [IndexEntry.range?, ScanRange.crossed_entryBounds (Bool.eq_false_iff.mpr h)]
    rfl

/-- Without the guard a scan would yield the same. -/
theorem scan_eq_unguarded {index : FieldIndex} (hes : IndexEntry.Ascending index.entries)
    (range : ScanRange) (direction : Direction) : index.scan range direction =
      direction.arrange
        ((IndexEntry.between range.entryBounds index.entries).map IndexEntry.id) := by
  rw [scan]
  split_ifs with h
  · have hnone : IndexEntry.between range.entryBounds index.entries = [] := by
      rw [IndexEntry.between_eq_filter hes, List.filter_eq_nil_iff]
      intro e _ hbetween
      obtain ⟨hlower, hupper⟩ := Bool.and_eq_true_iff.mp hbetween
      exact Bound.not_admits_of_vacant (range.vacant_entryBounds ▸ h) hlower hupper
    rw [hnone]
    cases direction <;> rfl
  · rfl

end FieldIndex

/-! ## Derived ranges -/

open KeyPart (greatest missing value)

namespace ScanRange

theorem isEmpty_full : full.isEmpty = false := rfl

theorem isEmpty_startingWith (key : IndexKey) : (startingWith key).isEmpty = false := by
  have hlt : key.cmp (key.snoc greatest) = .lt := key.cmp_append_cons greatest []
  simp [startingWith, isEmpty, hlt]

/-- A range between bounds on the next part is empty just if the bounds leave no room. -/
theorem isEmpty_bounded (key : IndexKey) (lower upper : Bound Value) :
    (bounded key lower upper).isEmpty = Bound.vacant Value.cmp lower upper := by
  have hcmp (r s : List KeyPart) : (⟨key.parts ++ r⟩ : IndexKey).cmp ⟨key.parts ++ s⟩ =
      r.compareLex KeyPart.cmp s := by
    have hself : key.cmp key = .eq := Std.ReflCmp.compare_self
    rw [IndexKey.cmp_append rfl, hself, Ordering.eq_then]
  have hends (start stop : IndexKey) :
      isEmpty ⟨.included start, .excluded stop⟩ = (start.cmp stop).isGE ∧
        isEmpty ⟨.excluded start, .excluded stop⟩ = (start.cmp stop).isGE := ⟨rfl, rfl⟩
  -- Both ends begin with the key, so the parts behind it decide.
  cases lower <;> cases upper <;>
    simp only [bounded, hends, IndexKey.snoc, List.append_assoc, List.singleton_append, hcmp,
      Bound.vacant, List.compareLex_cons_cons, KeyPart.value_cmp_value]
  case unbounded.unbounded | unbounded.included | unbounded.excluded => rfl
  case included.unbounded | excluded.unbounded => rfl
  case included.included v w | included.excluded v w | excluded.included v w |
      excluded.excluded v w => cases v.cmp w <;> rfl

end ScanRange

/-- A range that is derived is full, starts with what equalities fix, or ends in the bounds on one
field without an equality. -/
theorem deriveFrom_range_cases {c : Constraints} {key : IndexKey} {used : List Nat}
    (fields : List FieldPath) :
    (deriveFrom c key used fields).range = .full ∨
      (∃ front, (deriveFrom c key used fields).range = .startingWith front) ∨
      ∃ front path k, path ∈ fields ∧ c.on? path = some k ∧ k.equality = none ∧
        (deriveFrom c key used fields).range = .bounded front k.lower k.upper := by
  have hstop (key : IndexKey) (used : List Nat) : (deriveFrom.stopAt key used).range = .full ∨
      (deriveFrom.stopAt key used).range = .startingWith key := by
    rw [deriveFrom.stopAt]
    split_ifs
    · exact .inl rfl
    · exact .inr rfl
  induction fields generalizing key used with
  | nil => exact (hstop key used).imp_right fun h => .inl ⟨key, h⟩
  | cons path rest ih =>
    rw [deriveFrom]
    cases hon : c.on? path with
    | none => exact (hstop key used).imp_right fun h => .inl ⟨key, h⟩
    | some k =>
      cases heq : k.equality with
      | none =>
        simp only [heq]
        exact .inr (.inr ⟨key, path, k, List.mem_cons_self, hon, heq, rfl⟩)
      | some pin =>
        simp only [heq]
        obtain h | h | ⟨front, path', k', hpath, h⟩ :=
          @ih (key.snoc (.value pin.2)) (used ++ [pin.1])
        · exact .inl h
        · exact .inr (.inl h)
        · exact .inr (.inr ⟨front, path', k', List.mem_cons_of_mem _ hpath, h⟩)

/-- The ranges of plans that the guard stops end in bounds that contradict each other. -/
theorem ScanPlan.isEmpty_range_iff {request : FindRequest} {catalog : IndexCatalog}
    {policy : TieBreak} : (ofRequest request catalog policy).range.isEmpty = true ↔
      ∃ front path k, path ∈ (ofRequest request catalog policy).index.fields ∧
        (Constraints.ofSelector request.selector).on? path = some k ∧ k.equality = none ∧
        (ofRequest request catalog policy).range = .bounded front k.lower k.upper ∧
        Bound.vacant Value.cmp k.lower k.upper = true := by
  rw [range_eq, derived, deriveRange]
  constructor
  · intro hempty
    obtain h | ⟨front, h⟩ | ⟨front, path, k, hpath, hon, heq, h⟩ :=
      deriveFrom_range_cases (ofRequest request catalog policy).index.fields
    · rw [h, ScanRange.isEmpty_full] at hempty
      cases hempty
    · rw [h, ScanRange.isEmpty_startingWith] at hempty
      cases hempty
    · rw [h, ScanRange.isEmpty_bounded] at hempty
      exact ⟨front, path, k, hpath, hon, heq, h, hempty⟩
  · rintro ⟨front, path, k, -, -, -, h, hvacant⟩
    rw [h, ScanRange.isEmpty_bounded]
    exact hvacant

/-- The guard makes every scan safe and loses nothing. What it stops holds no key, and what passes
it is not crossed on entries, so no scan fails, the empty answer is the one that the entries between
the bounds would give, and the plans that are stopped are those whose bounds on the first field
without an equality contradict each other. -/
theorem ScanRange.guard_safe_and_lossless :
    (∀ range : ScanRange, range.isEmpty = true → ∀ key, range.holds key = false) ∧
      (∀ range : ScanRange, range.isEmpty = false →
        Bound.crossed IndexEntry.cmp range.entryBounds.1 range.entryBounds.2 = false) ∧
      (∀ (index : FieldIndex) (range : ScanRange) (direction : Direction),
        index.scan? range direction = some (index.scan range direction) ∧
          (IndexEntry.Ascending index.entries → index.scan range direction =
            direction.arrange
              ((IndexEntry.between range.entryBounds index.entries).map IndexEntry.id))) ∧
      ∀ (request : FindRequest) (catalog : IndexCatalog) (policy : TieBreak),
        let plan := ScanPlan.ofRequest request catalog policy
        plan.range.isEmpty = true ↔ ∃ front path k, path ∈ plan.index.fields ∧
          (Constraints.ofSelector request.selector).on? path = some k ∧ k.equality = none ∧
          plan.range = .bounded front k.lower k.upper ∧
          Bound.vacant Value.cmp k.lower k.upper = true := by
  refine ⟨fun range => range.holds_of_isEmpty, fun range => range.crossed_entryBounds, ?_,
    fun request catalog policy => ScanPlan.isEmpty_range_iff⟩
  intro index range direction
  exact ⟨index.scan?_eq range direction, fun hes => index.scan_eq_unguarded hes range direction⟩

/-- A selector that asks for more than five and less than three is planned as a range whose bounds
on entries are crossed: its scan fails but for the guard. -/
theorem ScanRange.guard_safe_and_lossless_contradiction :
    let conflict := Selector.combine .and [.field ⟨["a"]⟩ (.compare .gt (.int32 5)),
      .field ⟨["a"]⟩ (.compare .lt (.int32 3))]
    let definition : IndexDefinition := ⟨"a", [⟨["a"]⟩]⟩
    let plan := ScanPlan.ofRequest ⟨conflict, .default .default⟩ ⟨[.primary, definition]⟩
      .firstDeclared
    let index := (FieldIndex.empty definition).run [.insert ⟨"x", [("a", .int32 4)], []⟩]
    let four : ScanRange := .startingWith ⟨[.value (.int32 4)]⟩
    plan.range.isEmpty = true ∧
      IndexEntry.range? plan.range.entryBounds index.entries = none ∧
      (∀ key, plan.range.holds key = false) ∧
      index.scan? plan.range .asc = some (index.scan plan.range .asc) ∧
      index.scan plan.range .asc =
        (IndexEntry.between plan.range.entryBounds index.entries).map IndexEntry.id ∧
      four.isEmpty = false ∧ index.scan? four .asc = some ["x"] ∧
      Bound.crossed IndexEntry.cmp four.entryBounds.1 four.entryBounds.2 = false := by
  intro conflict definition plan index four
  obtain ⟨hsafe, hpasses, hscan, -⟩ := guard_safe_and_lossless
  have hempty : plan.range.isEmpty = true := by decide +kernel
  have hfour : four.isEmpty = false := by decide
  have hes : IndexEntry.Ascending index.entries :=
    ((FieldIndex.empty_proper definition).run _).ascending
  exact ⟨hempty, by decide +kernel, hsafe _ hempty, (hscan index plan.range .asc).1,
    (hscan index plan.range .asc).2 hes, hfour, by decide, hpasses four hfour⟩

end DocFind
