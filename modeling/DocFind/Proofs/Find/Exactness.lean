import DocFind.Proofs.Database.Reachable
import DocFind.Proofs.Find.Selection

/-!
# Finds are exact

A find without skipping whose limit has room for every stored document selects exactly the stored
documents that its selector accepts, each once. Indexes, hints and the settings that choose among
indexes do not appear in what is selected, so they cannot add, lose or repeat a document.
-/
namespace DocFind

namespace Collection

variable {c : Collection}

/-- What a find selects when nothing is skipped and the limit has room. -/
theorem Consistent.select_perm (hc : c.Consistent) (request : FindRequest) (policy : TieBreak)
    (hskip : request.options.skip = 0) (hlimit : c.size ≤ request.options.limit) :
    ∃ selected examined,
      (ScanPlan.ofRequest request c.catalog policy).select c.source = .ok (selected, examined) ∧
        selected.Perm (c.stored.filter fun d => request.selector.accepts d.body) := by
  let plan := ScanPlan.ofRequest request c.catalog policy
  have hmem : plan.index ∈ c.catalog.definitions := ScanPlan.index_mem hc.catalog
  obtain ⟨index, hindex, hdefinition, -⟩ := hc.index? hmem
  obtain ⟨selected, examined, hselect, hperm⟩ :=
    hc.select_of_index? request policy hindex hskip hlimit
  rw [hdefinition] at hperm
  have haccept : ∀ d ∈ c.stored, (plan.inRange d && plan.keeps d) =
      request.selector.accepts d.body :=
    fun d _ => ScanPlan.inRange_and_keeps d
  exact ⟨selected, examined, hselect, hperm.trans (.of_eq (List.filter_congr haccept))⟩

end Collection

namespace Database

/-- After any operations on a new database, a request on one of its collections that skips nothing
and has room for every document succeeds with exactly the accepted documents, each once, whether it
comes as a value or as a text. -/
theorem find_exact (config : FindConfig) (ops : List Operation) {name : String} {c : Collection}
    (hc : ((new config).run ops).collection? name = some c) (request : FindRequest)
    (hskip : request.options.skip = 0) (hlimit : c.size ≤ request.options.limit)
    (elapsedMs : Nat) :
    ∃ (selected : List Document) (examined : Nat) (result : FindResult),
      (ScanPlan.ofRequest request c.catalog config.tieBreak).select c.source =
        .ok (selected, examined) ∧
      selected.Perm (c.stored.filter fun d => request.selector.accepts d.body) ∧
      (selected.map Document.id).Nodup ∧
      result.docs = selected.map (ScanPlan.ofRequest request c.catalog config.tieBreak).shape ∧
      (((new config).run ops).findRequest name request elapsedMs).answer = .ok result ∧
      ∀ body, FindRequest.fromJson config body = .ok request →
        (((new config).run ops).find name body elapsedMs).answer = .ok result := by
  have hconsistent := run_consistent hc
  have hconfig : ((new config).run ops).config = config := run_config _ ops
  obtain ⟨selected, examined, hselect, hperm⟩ :=
    hconsistent.select_perm request config.tieBreak hskip hlimit
  obtain ⟨result, hfind, hdocs⟩ := find_of_select hselect elapsedMs
  have hids : (selected.map Document.id).Nodup := by
    rw [(hperm.map Document.id).nodup_iff]
    exact (List.filter_sublist.map Document.id).nodup hconsistent.nodup_ids
  have hrequest : (((new config).run ops).findRequest name request elapsedMs).answer =
      .ok result := by
    rw [findRequest, onCollection_of_some hc, hconfig]
    generalize DocFind.find c.source c.catalog config request elapsedMs = found at hfind
    obtain ⟨answer, records⟩ := found
    obtain rfl : answer = .ok result := hfind
    rfl
  refine ⟨selected, examined, result, hselect, hperm, hids, hdocs, hrequest, fun body hbody => ?_⟩
  rw [Database.find, onCollection_of_some hc, hconfig, hbody]
  exact hrequest

/-- A hinted index in which one of two documents has no value. -/
theorem find_exact_hinted :
    let a : Document := ⟨"a", [("_id", .string "a"), ("n", .int32 1)], []⟩
    let b : Document := ⟨"b", [("_id", .string "b")], []⟩
    let ops : List Operation := [.createCollection "c", .insertMany "c" [a, b],
      .createIndex "c" ["n"] none 0]
    let c := Collection.empty.run [.insertMany [a, b], .createIndex ["n"] none]
    let request : FindRequest := ⟨.field ⟨["n"]⟩ (.compare .gt (.int32 0)),
      { FindOptions.default .default with useIndex := some "n" }⟩
    ((new .default).run ops).collection? "c" = some c ∧ request.options.skip = 0 ∧
      c.size ≤ request.options.limit ∧ ∃ (selected : List Document) (examined : Nat),
        (ScanPlan.ofRequest request c.catalog .firstDeclared).select c.source =
          .ok (selected, examined) ∧
        selected.Perm (c.stored.filter fun d => request.selector.accepts d.body) := by
  intro a b ops c request
  have hc : ((new .default).run ops).collection? "c" = some c := rfl
  have hlimit : c.size ≤ request.options.limit := by decide
  obtain ⟨selected, examined, -, hselect, hperm, -⟩ :=
    find_exact .default ops hc request rfl hlimit 0
  exact ⟨hc, rfl, hlimit, selected, examined, hselect, hperm⟩

end Database

end DocFind
