import DocFind.Proofs.Database.Reachable
import DocFind.Proofs.Find.Selection
import DocFind.Proofs.Request.Refusal

/-!
# Finds never fail inside

The catalog and the indexes of a collection agree whatever writes were run, and a plan scans an
index of the catalog. So a find on a collection that is there answers with a result, unless the body
of the request is refused, which is a fault of the request.
-/
namespace DocFind

namespace Collection

variable {c : Collection}

/-- The index that a plan scans is there. -/
theorem Consistent.scan_ok (hc : c.Consistent) (request : FindRequest) (policy : TieBreak) :
    let plan := ScanPlan.ofRequest request c.catalog policy
    ∃ index docs, c.index? plan.index.name = some index ∧ index.definition = plan.index ∧
      c.source.scan plan.index plan.range plan.direction = .ok docs := by
  intro plan
  have hmem : plan.index ∈ c.catalog.definitions := ScanPlan.index_mem hc.catalog
  obtain ⟨index, hindex, hdefinition, -⟩ := hc.index? hmem
  have hscan : c.source.scan plan.index plan.range plan.direction =
      .ok ((index.scan plan.range plan.direction).filterMap c.document?) := by
    simp only [source, hindex]
  exact ⟨index, _, hindex, hdefinition, hscan⟩

theorem Consistent.find_ok (hc : c.Consistent) (config : FindConfig) (request : FindRequest)
    (elapsedMs : Nat) :
    ∃ result, (DocFind.find c.source c.catalog config request elapsedMs).1 = .ok result := by
  obtain ⟨docs, examined, hselect, -⟩ := hc.plan_select request config.tieBreak
  obtain ⟨result, hfind, -⟩ := find_of_select hselect elapsedMs
  exact ⟨result, hfind⟩

end Collection

namespace Database

variable {db : Database} {name : String} {c : Collection}

/-- A request is answered by the find on its collection. -/
theorem findRequest_answer (hc : db.collection? name = some c) (request : FindRequest)
    (elapsedMs : Nat) : (db.findRequest name request elapsedMs).answer =
      (DocFind.find c.source c.catalog db.config request elapsedMs).1 := by
  rw [findRequest, onCollection_of_some hc]
  split
  · rename_i hfind
    rw [hfind]
  · rename_i hfind
    rw [hfind]

theorem refuse_answer {α : Type} (db : Database) (name : String) (failure : Failure) :
    (db.refuse name failure : Outcome (Except Failure α)).answer = .error failure := by
  rw [refuse]
  split <;> rfl

/-- A body is refused for its own fault, or answered as the request that it writes. -/
theorem find_answer (hc : db.collection? name = some c) (body : String) (elapsedMs : Nat) :
    (db.find name body elapsedMs).answer =
      FindRequest.fromJson db.config body >>= fun request =>
        (db.findRequest name request elapsedMs).answer := by
  rw [Database.find, onCollection_of_some hc]
  cases FindRequest.fromJson db.config body with
  | error failure => exact refuse_answer db name failure
  | ok request => rfl

/-- After any operations on a new database, every request on one of its collections succeeds, from
an index that is there, and every body is answered with a result or refused for its own fault. -/
theorem find_answers (config : FindConfig) (ops : List Operation) {name : String} {c : Collection}
    (hc : ((new config).run ops).collection? name = some c) (elapsedMs : Nat) :
    (∀ body, match FindRequest.fromJson config body with
      | .ok request => ∃ result,
        (((new config).run ops).find name body elapsedMs).answer = .ok result ∧
          (((new config).run ops).findRequest name request elapsedMs).answer = .ok result
      | .error failure =>
        (((new config).run ops).find name body elapsedMs).answer = .error failure ∧
          failure.isClientError = true ∧ failure.status = 400) ∧
    (∀ request, ∃ result,
      (((new config).run ops).findRequest name request elapsedMs).answer = .ok result) ∧
    ∀ request policy, ∃ index docs,
      c.index? (ScanPlan.ofRequest request c.catalog policy).index.name = some index ∧
        index.definition = (ScanPlan.ofRequest request c.catalog policy).index ∧
        c.source.scan (ScanPlan.ofRequest request c.catalog policy).index
          (ScanPlan.ofRequest request c.catalog policy).range
          (ScanPlan.ofRequest request c.catalog policy).direction = .ok docs := by
  have hconsistent := run_consistent hc
  have hconfig : ((new config).run ops).config = config := run_config _ ops
  have hrequest (request : FindRequest) : ∃ result,
      (((new config).run ops).findRequest name request elapsedMs).answer = .ok result := by
    rw [findRequest_answer hc]
    exact hconsistent.find_ok _ request elapsedMs
  refine ⟨fun body => ?_, hrequest, hconsistent.scan_ok⟩
  have hanswer := find_answer hc body elapsedMs
  rw [hconfig] at hanswer
  cases hbody : FindRequest.fromJson config body with
  | error failure =>
    have hclient := FindRequest.fromJson_clientOnly config body failure hbody
    rw [hbody] at hanswer
    exact ⟨hanswer, hclient, Failure.status_of_isClientError hclient⟩
  | ok request =>
    obtain ⟨result, hresult⟩ := hrequest request
    rw [hbody] at hanswer
    exact ⟨result, hanswer.trans hresult, hresult⟩

/-- A hint that names an index that was dropped, and a body that is no request. -/
theorem find_answers_dropped :
    let ops : List Operation := [.createCollection "c", .createIndex "c" ["n"] (some "x") 0,
      .deleteIndex "c" "x"]
    let request : FindRequest := ⟨.field ⟨["n"]⟩ (.compare .gt (.int32 0)),
      { FindOptions.default .default with useIndex := some "x" }⟩
    (∃ result, (((new .default).run ops).findRequest "c" request 0).answer = .ok result) ∧
      ∃ failure, (((new .default).run ops).find "c" "1" 0).answer = .error failure ∧
        failure.isClientError = true := by
  intro ops request
  let c := Collection.empty.run [.createIndex ["n"] (some "x"), .deleteIndex "x"]
  have hc : ((new .default).run ops).collection? "c" = some c := rfl
  obtain ⟨hfind, hrequest, -⟩ := find_answers .default ops hc 0
  obtain ⟨hanswer, hclient, -⟩ := hfind "1"
  exact ⟨hrequest request, _, hanswer, hclient⟩

end Database

end DocFind
