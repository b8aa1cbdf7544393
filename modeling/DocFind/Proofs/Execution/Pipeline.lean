import DocFind.Proofs.Execution.Window
import DocFind.Proofs.Refusal
import DocFind.Proofs.SortOrder.Laws
import Mathlib.Data.List.Basic

/-!
# A run is the plain pipeline

Whatever a source yields, a run filters it, sorts it if the plan sorts, skips, takes and shapes. A
run that does not sort stops early without changing the answer: it has then seen the shortest
beginning of the scan in which enough documents pass. So the answer under any skip and limit is that
window of the whole answer, and consecutive pages put together are the whole answer.
-/
namespace DocFind

/-- Consecutive windows of one size make up a beginning. -/
theorem flatten_windows {α : Type} (xs : List α) (size count : Nat) :
    ((List.range count).map fun k => (xs.drop (k * size)).take size).flatten =
      xs.take (count * size) := by
  induction count with
  | zero => simp
  | succ count ih =>
    rw [List.range_succ, List.map_append, List.flatten_append, ih, Nat.succ_mul, List.take_add]
    simp

/-! ## Stable sorting -/

/-- The elements sorted, with those that tie in the order in which they were given. -/
structure SortOrder.StablySorts {α : Type} (sort : SortOrder) (body : α → Body)
    (given sorted : List α) : Prop where
  perm : sorted.Perm given
  ascending : sorted.Pairwise fun a b => (sort.cmp (body a) (body b)).isLE = true
  stable : ∀ a, (sorted.filter fun b => sort.cmp (body a) (body b) == .eq) =
    given.filter fun b => sort.cmp (body a) (body b) == .eq

theorem SortOrder.sortBy_stablySorts {α : Type} (sort : SortOrder) (body : α → Body)
    (xs : List α) : sort.StablySorts body xs (sort.sortBy body xs) where
  perm := sort.sortBy_perm body xs
  ascending := sort.sortBy_sorted body xs
  stable a := by
    refine filter_mergeSort
      (fun a b c => sort.cmp_trans (a := body a) (b := body b) (c := body c))
      (fun a b => sort.cmp_total (body a) (body b)) (fun b c hb hc => ?_) xs
    -- What ties with `a` ties with each other.
    rw [beq_iff_eq] at hb hc
    refine sort.cmp_trans (b := body a) ?_ ?_
    · rw [sort.cmp_swap, hb]
      rfl
    · rw [hc]
      rfl

namespace ScanPlan

variable {plan : ScanPlan} {source : DocumentSource} {scanned : List Document}

/-- What is left of a scan behind the residual, in the order that the plan makes of it. -/
def Orders (plan : ScanPlan) (scanned passing : List Document) : Prop :=
  let kept := scanned.filter fun d => plan.Admits d
  match plan.sortInMemory, plan.sort with
  | true, some sort => sort.StablySorts Document.body kept passing
  | _, _ => passing = kept

/-- The body of a document, with the revisions that it lost if the plan asks for them and there are
any. -/
structure Reveals (plan : ScanPlan) (d : Document) (body : Body) : Prop where
  plain : plan.conflicts = false ∨ d.conflicts = [] → body = d.body
  revisions : plan.conflicts = true → d.conflicts ≠ [] →
    body = Entries.put conflictsField (.array (d.conflicts.map .string)) d.body

/-- What a plan shows of a document: the revealed body, or its projection to the listed fields. -/
def Shows (plan : ScanPlan) (d : Document) (shown : Body) : Prop :=
  ∃ body, plan.Reveals d body ∧ (plan.fields = none → shown = body) ∧
    ∀ fields ∈ plan.fields, shown = Body.project fields body

/-- The plan with another skip and limit. -/
def withWindow (plan : ScanPlan) (skip limit : Nat) : ScanPlan := { plan with skip, limit }

/-- The documents that a run returns. -/
def answer (plan : ScanPlan) (source : DocumentSource) : Except Failure (List Body) :=
  (plan.execute source).map Execution.docs

theorem passing_orders (plan : ScanPlan) (scanned : List Document) :
    plan.Orders scanned (plan.passing scanned) := by
  rw [Orders, passing, sorted, keeps_eq]
  cases plan.sortInMemory with
  | false => rfl
  | true =>
    cases plan.sort with
    | none => rfl
    | some sort => exact sort.sortBy_stablySorts Document.body _

theorem shape_shows (plan : ScanPlan) (d : Document) : plan.Shows d (plan.shape d) := by
  have hreveals : plan.Reveals d (if plan.conflicts && !d.conflicts.isEmpty then
      Entries.put conflictsField (.array (d.conflicts.map .string)) d.body else d.body) := by
    refine ⟨fun h => if_neg ?_, fun hwanted hlost => if_pos ?_⟩
    · rcases h with h | h <;> simp [h]
    · simp [hwanted, hlost]
  refine ⟨_, hreveals, fun hwhole => ?_, fun fields hfields => ?_⟩
  · rw [shape, hwhole]
  · rw [shape, Option.mem_def.mp hfields]

theorem execute_of_limit_zero (hlimit : plan.limit = 0) (source : DocumentSource) :
    plan.execute source = .ok ⟨[], ⟨0, 0, 0⟩⟩ := by
  rw [execute, select, hlimit]
  rfl

/-- A run on a scan returns the window of what passes. -/
theorem execute_of_scan (plan : ScanPlan)
    (hscan : source.scan plan.index plan.range plan.direction = .ok scanned) :
    ∃ examined, plan.Examines scanned examined ∧
      let docs := (((plan.passing scanned).drop plan.skip).take plan.limit).map plan.shape
      plan.execute source = .ok ⟨docs, ⟨examined, examined, docs.length⟩⟩ := by
  obtain ⟨examined, hexamined, hselect⟩ := plan.select_eq hscan
  refine ⟨examined, hexamined, ?_⟩
  simp only [execute, hselect, ok_bind, List.length_map]

/-- With a limit to fill, a run is refused just if its scan is. -/
theorem execute_eq_error (hlimit : 0 < plan.limit) (failure : Failure) :
    plan.execute source = .error failure ↔
      source.scan plan.index plan.range plan.direction = .error failure := by
  cases hscan : source.scan plan.index plan.range plan.direction with
  | error refusal =>
    obtain ⟨room, hroom⟩ := Nat.exists_eq_add_one.mpr hlimit
    rw [execute, select, hroom]
    simp only [hscan, error_bind]
    rw [Except.error.injEq, Except.error.injEq]
  | ok scanned =>
    obtain ⟨examined, -, hexecute⟩ := plan.execute_of_scan hscan
    rw [hexecute]
    simp

/-- The answer under any skip and limit is a window of what passes. -/
theorem answer_withWindow (hscan : source.scan plan.index plan.range plan.direction = .ok scanned)
    (skip limit : Nat) : (plan.withWindow skip limit).answer source =
      .ok ((((plan.passing scanned).map plan.shape).drop skip).take limit) := by
  obtain ⟨examined, -, hexecute⟩ := (plan.withWindow skip limit).execute_of_scan hscan
  rw [answer, hexecute, ← List.map_drop, ← List.map_take]
  rfl

/-- The pages of one size, one after the other. -/
theorem answer_pages (hscan : source.scan plan.index plan.range plan.direction = .ok scanned)
    (size count : Nat) :
    ∃ pages, ((List.range count).mapM fun k => (plan.withWindow (k * size) size).answer source) =
        .ok pages ∧
      pages.flatten = ((plan.passing scanned).map plan.shape).take (count * size) := by
  refine ⟨_, ?_, flatten_windows _ size count⟩
  simp only [answer_withWindow hscan]
  exact List.mapM_pure

/-- A run is the plain pipeline. Without a limit to fill it returns nothing and looks at nothing;
otherwise it is refused just if its scan is. On a scan it shows the window of what passes the
residual, so that the answer under any skip and limit is a window of the answer with room for
everything, and pages of one size make up that answer. -/
theorem execute_pipeline (plan : ScanPlan) (source : DocumentSource) :
    (plan.limit = 0 → plan.execute source = .ok ⟨[], ⟨0, 0, 0⟩⟩) ∧
    (0 < plan.limit → ∀ failure, plan.execute source = .error failure ↔
      source.scan plan.index plan.range plan.direction = .error failure) ∧
    ∀ scanned, source.scan plan.index plan.range plan.direction = .ok scanned →
      ∃ passing examined, ∃ shown : Document → Body,
        plan.Orders scanned passing ∧ plan.Examines scanned examined ∧
        (∀ d, plan.Shows d (shown d)) ∧
        (let docs := ((passing.drop plan.skip).take plan.limit).map shown
        plan.execute source = .ok ⟨docs, ⟨examined, examined, docs.length⟩⟩) ∧
        (∀ limit, passing.length ≤ limit →
          (plan.withWindow 0 limit).answer source = .ok (passing.map shown)) ∧
        (∀ skip limit, (plan.withWindow skip limit).answer source =
          .ok (((passing.map shown).drop skip).take limit)) ∧
        ∀ size count, ∃ pages,
          ((List.range count).mapM fun k => (plan.withWindow (k * size) size).answer source) =
            .ok pages ∧
          pages.flatten = (passing.map shown).take (count * size) := by
  refine ⟨fun hlimit => execute_of_limit_zero hlimit source, execute_eq_error,
    fun scanned hscan => ?_⟩
  obtain ⟨examined, hexamined, hexecute⟩ := plan.execute_of_scan hscan
  refine ⟨plan.passing scanned, examined, plan.shape, plan.passing_orders scanned, hexamined,
    plan.shape_shows, hexecute, fun limit hroom => ?_, answer_withWindow hscan,
    answer_pages hscan⟩
  rw [answer_withWindow hscan, List.drop_zero, List.take_of_length_le (by simpa using hroom)]

/-- Both runs drop the documents without the field. One sorts the others and returns the second of
them with the revision that it lost; the other one skips the first in the order of the scan, and has
not seen the last document when it stops. -/
theorem execute_pipeline_sorted :
    let a : Document := ⟨"a", [("_id", .string "a"), ("n", .int32 2)], ["1-x"]⟩
    let b : Document := ⟨"b", [("_id", .string "b")], []⟩
    let c : Document := ⟨"c", [("_id", .string "c"), ("n", .int32 1)], []⟩
    let d : Document := ⟨"d", [("_id", .string "d")], []⟩
    let source : DocumentSource := ⟨fun _ _ _ => .ok [a, b, c, d]⟩
    let selector : Selector := .field ⟨["n"]⟩ (.present true)
    let sorting : ScanPlan :=
      { selector, index := .primary, covered := 0, range := .full, direction := .asc,
        residual := some selector, sort := some ⟨[⟨["n"]⟩], .asc⟩, sortInMemory := true,
        limit := 1, skip := 1, fields := none, r := 1, conflicts := true,
        executionStats := false, warning := none }
    let stopping : ScanPlan := { sorting with sortInMemory := false, fields := some [⟨["n"]⟩] }
    let revealed : Body :=
      [("_id", .string "a"), ("n", .int32 2), ("_conflicts", .array [.string "1-x"])]
    sorting.execute source = .ok ⟨[revealed], ⟨4, 4, 1⟩⟩ ∧
      stopping.execute source = .ok ⟨[[("n", .int32 1)]], ⟨3, 3, 1⟩⟩ ∧
      (stopping.withWindow 0 2).answer source = .ok [[("n", .int32 2)], [("n", .int32 1)]] ∧
      (stopping.withWindow 1 0).execute source = .ok ⟨[], ⟨0, 0, 0⟩⟩ ∧
      stopping.execute ⟨fun _ _ _ => .error (.noSuchIndex "n")⟩ = .error (.noSuchIndex "n") := by
  intro a b c d source selector sorting stopping revealed
  have hsorting : sorting.execute source = .ok ⟨[revealed], ⟨4, 4, 1⟩⟩ := by
    obtain ⟨passing, examined, shown, horders, hexamined, hshows, hexecute, -⟩ :=
      (execute_pipeline sorting source).2.2 _ rfl
    have hsorts : SortOrder.StablySorts ⟨[⟨["n"]⟩], .asc⟩ Document.body [a, c] passing := horders
    obtain rfl : passing = [c, a] := by
      refine List.Perm.eq_of_pairwise (fun x y hx hy hxy hyx => ?_) hsorts.ascending (by decide)
        (hsorts.perm.trans (List.Perm.swap c a []))
      rcases List.mem_pair.mp (hsorts.perm.mem_iff.mp hx) with rfl | rfl <;>
        rcases List.mem_pair.mp hy with rfl | rfl
      · exact absurd hxy (by decide)
      · rfl
      · rfl
      · exact absurd hyx (by decide)
    obtain rfl : examined = 4 := hexamined
    obtain ⟨body, hreveals, hwhole, -⟩ := hshows a
    have hshown : shown a = revealed :=
      (hwhole rfl).trans (hreveals.revisions rfl (List.cons_ne_nil _ _))
    rw [← hshown]
    exact hexecute
  obtain ⟨passing, examined, shown, horders, hexamined, hshows, hexecute, hroom, -⟩ :=
    (execute_pipeline stopping source).2.2 _ rfl
  obtain rfl : passing = [a, c] := horders
  obtain rfl : examined = 3 := hexamined.unique ⟨by decide, by decide, by decide⟩
  have ha : shown a = [("n", .int32 2)] := by
    obtain ⟨body, hreveals, -, hlisted⟩ := hshows a
    rw [hlisted _ rfl, hreveals.revisions rfl (List.cons_ne_nil _ _)]
    rfl
  have hc : shown c = [("n", .int32 1)] := by
    obtain ⟨body, hreveals, -, hlisted⟩ := hshows c
    rw [hlisted _ rfl, hreveals.plain (.inr rfl)]
    rfl
  refine ⟨hsorting, ?_, ?_, (execute_pipeline (stopping.withWindow 1 0) source).1 rfl,
    ((execute_pipeline stopping _).2.1 Nat.one_pos _).mpr rfl⟩
  · rw [← hc]
    exact hexecute
  · rw [← ha, ← hc]
    exact hroom 2 (Nat.le_refl 2)

end ScanPlan

end DocFind
