import DocFind.Proofs.Find.Selection
import Mathlib

/-!
# Finds with the catalog of another state

A plan can be made against the catalog of one state of a collection and run on another state. The
source looks an index up by its name alone, so a plan whose index is gone is refused, but one whose
name has been given to another index scans that index in a range that was derived for the fields of
its own. What is selected then are the documents whose keys of the other index lie in this range and
that pass the residual; they are the accepted ones if both indexes have the same fields.
-/
namespace DocFind

namespace Collection

/-- Between two states of collections, a request that skips nothing and has room for every document
is refused if the name of the planned index is free, and selects each document at most once
otherwise: the accepted ones, if the index of that name has the planned fields. -/
theorem find_across_states (writes others : List Write) (config : FindConfig)
    (request : FindRequest) (hskip : request.options.skip = 0)
    (hlimit : (empty.run writes).size ≤ request.options.limit) (hroom : 0 < request.options.limit)
    (elapsedMs : Nat) :
    let s := empty.run writes
    let t := empty.run others
    let plan := ScanPlan.ofRequest request t.catalog config.tieBreak
    match s.index? plan.index.name with
    | none => (DocFind.find s.source t.catalog config request elapsedMs).1 =
        .error (.noSuchIndex plan.index.name)
    | some held => ∃ selected examined result,
        plan.select s.source = .ok (selected, examined) ∧
        (DocFind.find s.source t.catalog config request elapsedMs).1 = .ok result ∧
        result.docs = selected.map plan.shape ∧ (selected.map Document.id).Nodup ∧
        selected.Perm (s.stored.filter fun d =>
          plan.range.holds (.ofBody held.definition.fields d.body) && plan.keeps d) ∧
        (held.definition.fields = plan.index.fields →
          selected.Perm (s.stored.filter fun d => request.selector.accepts d.body)) := by
  intro s t plan
  have hs : s.Consistent := empty_consistent.run writes
  cases hheld : s.index? plan.index.name with
  | none =>
    have hscan : s.source.scan plan.index plan.range plan.direction =
        .error (.noSuchIndex plan.index.name) := by
      simp only [source, hheld]
    exact find_of_scan_error hscan hroom elapsedMs
  | some held =>
    obtain ⟨selected, examined, hselect, hperm⟩ :=
      hs.select_of_index? request config.tieBreak hheld hskip hlimit
    obtain ⟨result, hfind, hdocs⟩ := find_of_select hselect elapsedMs
    have hids : (selected.map Document.id).Nodup := by
      rw [(hperm.map Document.id).nodup_iff]
      exact (List.filter_sublist.map Document.id).nodup hs.nodup_ids
    refine ⟨selected, examined, result, hselect, hfind, hdocs, hids, hperm, fun hfields => ?_⟩
    rw [hfields] at hperm
    exact hperm.trans (.of_eq (List.filter_congr fun d _ => ScanPlan.inRange_and_keeps d))

/-- The name stands for the same field in both states. -/
theorem find_across_states_same_fields :
    let a : Document := ⟨"a", [("_id", .string "a"), ("m", .int32 5)], []⟩
    let b : Document := ⟨"b", [("_id", .string "b"), ("m", .int32 1)], []⟩
    let s := empty.run [.insertMany [a, b], .createIndex ["m"] (some "x")]
    let t := empty.run [.createIndex ["m"] (some "x"), .insertMany [b]]
    let request : FindRequest := ⟨.field ⟨["m"]⟩ (.compare .eq (.int32 5)), .default .default⟩
    let plan := ScanPlan.ofRequest request t.catalog .firstDeclared
    (request.options.skip = 0 ∧ s.size ≤ request.options.limit ∧ 0 < request.options.limit) ∧
      ∃ selected examined, plan.select s.source = .ok (selected, examined) ∧
        selected.Perm (s.stored.filter fun d => request.selector.accepts d.body) := by
  intro a b s t request plan
  have hlimit : s.size ≤ request.options.limit := by decide
  have hroom : 0 < request.options.limit := by decide
  have hfields : (s.index? plan.index.name).map (fun held => held.definition.fields) =
      some plan.index.fields := by cbv
  have hfind := find_across_states [.insertMany [a, b], .createIndex ["m"] (some "x")]
    [.createIndex ["m"] (some "x"), .insertMany [b]] .default request rfl hlimit hroom 0
  refine ⟨⟨rfl, hlimit, hroom⟩, ?_⟩
  obtain ⟨held, hheld, hsame⟩ := Option.map_eq_some_iff.mp hfields
  change match s.index? plan.index.name with
    | none => _
    | some held => _ at hfind
  rw [hheld] at hfind
  obtain ⟨selected, examined, result, hselect, -, -, -, -, haccepted⟩ := hfind
  exact ⟨selected, examined, hselect, haccepted hsame⟩

/-- The name was given to an index of another field, and the find returns a document that the
selector does not accept in place of the one that it does. -/
theorem find_across_states_other_fields :
    let a : Document := ⟨"a", [("_id", .string "a"), ("m", .int32 5), ("n", .int32 1)], []⟩
    let b : Document := ⟨"b", [("_id", .string "b"), ("m", .int32 1), ("n", .int32 5)], []⟩
    let s := empty.run [.insertMany [a, b], .createIndex ["n"] (some "x")]
    let t := s.run [.deleteIndex "x", .createIndex ["m"] (some "x")]
    let request : FindRequest := ⟨.field ⟨["m"]⟩ (.compare .eq (.int32 5)), .default .default⟩
    (DocFind.find s.source t.catalog .default request 0).1.map FindResult.docs = .ok [b.body] ∧
      (s.stored.filter fun d => request.selector.accepts d.body) = [a] := by
  intro a b s t request
  have hselect : (ScanPlan.ofRequest request t.catalog FindConfig.default.tieBreak).select
      s.source = .ok ([b], 1) := by cbv
  constructor
  · rw [find_eq_result hselect]
    rfl
  · rfl

end Collection

end DocFind
