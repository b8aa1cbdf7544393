import DocFind.Proofs.Collection.Consistency
import DocFind.Proofs.Plan.Regrouping
import DocFind.Proofs.Selector.WellFormed

/-!
# The choice of an index

A selector constrains a field by an equality or a bound that stands under nothing but conjunctions.
For every catalog that declarations and removals lead to, the indexes with a constrained leading
field are proposed, each once and with the length of its run of constrained fields. Positions in the
catalog differ, so no two candidates tie: the list is strictly ordered and its first element is the
only best one.
-/
namespace DocFind

/-! ## Fields constrained at the top level -/

namespace Selector

/-- A part of a selector under nothing but conjunctions. -/
inductive TopLevel (part : Selector) : Selector → Prop
  | whole : TopLevel part part
  | conjunct {children : List Selector} {child : Selector} (hchild : child ∈ children)
      (hpart : TopLevel part child) : TopLevel part (.combine .and children)

/-- An equality or a bound on the field stands at the top level. -/
def Constrains (s : Selector) (path : FieldPath) : Prop :=
  ∃ op ∈ [Comparison.eq, .gt, .gte, .lt, .lte], ∃ operand,
    TopLevel (.field path (.compare op operand)) s

/-- The first fields up to the first one that is not constrained. -/
structure LeadingRun (s : Selector) (fields : List FieldPath) (n : Nat) : Prop where
  within : n ≤ fields.length
  constrained : ∀ path ∈ fields.take n, s.Constrains path
  ended : ∀ path ∈ fields[n]?, ¬ s.Constrains path

mutual

theorem topLevel_of_mem_conjuncts {part : Selector} (s : Selector) (h : part ∈ s.conjuncts) :
    TopLevel part s := by
  match s with
  | combine .and children =>
    obtain ⟨child, hchild, hpart⟩ := topLevel_of_mem_conjunctsOfAll children h
    exact .conjunct hchild hpart
  | combine .or _ | combine .nor _ | not _ | field _ _ | elemMatch _ _ =>
    obtain rfl := List.mem_singleton.mp h
    exact .whole
termination_by structural s

theorem topLevel_of_mem_conjunctsOfAll {part : Selector} (parts : List Selector)
    (h : part ∈ conjunctsOfAll parts) : ∃ s ∈ parts, TopLevel part s := by
  match parts with
  | [] => cases h
  | s :: rest =>
    rcases List.mem_append.mp h with hs | hrest
    · exact ⟨s, List.mem_cons_self, topLevel_of_mem_conjuncts s hs⟩
    · obtain ⟨child, hchild, hpart⟩ := topLevel_of_mem_conjunctsOfAll rest hrest
      exact ⟨child, List.mem_cons_of_mem _ hchild, hpart⟩
termination_by structural parts

end

theorem field_mem_conjuncts_iff {s : Selector} {path : FieldPath} {test : Test} :
    .field path test ∈ s.conjuncts ↔ TopLevel (.field path test) s := by
  refine ⟨topLevel_of_mem_conjuncts s, fun h => ?_⟩
  induction h with
  | whole => exact List.mem_singleton_self _
  | conjunct hchild _ ih => exact mem_conjunctsOfAll.mpr ⟨_, hchild, ih⟩

/-- The comparisons that a scan can use are those other than inequality. -/
theorem constrains_iff {s : Selector} {path : FieldPath} : s.Constrains path ↔
    ∃ op v, .field path (.compare op v) ∈ s.conjuncts ∧ op ≠ .ne := by
  have hop (op : Comparison) : op ∈ [Comparison.eq, .gt, .gte, .lt, .lte] ↔ op ≠ .ne := by
    cases op <;> decide
  simp only [Constrains, hop, field_mem_conjuncts_iff]
  constructor
  · rintro ⟨op, hne, v, hpart⟩
    exact ⟨op, v, hpart, hne⟩
  · rintro ⟨op, v, hpart, hne⟩
    exact ⟨op, hne, v, hpart⟩

/-- The paths at the top level of a well-formed selector have segments, so each comparison there is
one that a scan can use. -/
theorem isSome_on?_iff_constrains {P : Value → Prop} {s : Selector} (h : s.WellFormed P false)
    (path : FieldPath) : ((Constraints.ofSelector s).on? path).isSome = true ↔
      s.Constrains path := by
  rw [Constraints.isSome_on?_iff, constrains_iff]
  constructor
  · rintro ⟨op, v, hmem, -, hne⟩
    exact ⟨op, v, hmem, hne⟩
  · rintro ⟨op, v, hmem, hne⟩
    refine ⟨op, v, hmem, ?_, hne⟩
    cases h.conjuncts _ hmem with
    | field hpath htest => exact Bool.eq_false_iff.mpr fun hroot => nomatch hpath.root hroot

theorem covered_cons (c : Constraints) (path : FieldPath) (rest : List FieldPath) :
    c.covered (path :: rest) = if (c.on? path).isSome then c.covered rest + 1 else 0 := by
  rw [Constraints.covered, List.takeWhile_cons]
  split_ifs <;> rfl

section

variable {P : Value → Prop} {s : Selector}

/-- The number of covered fields is the length of their leading run. -/
theorem covered_leadingRun (h : s.WellFormed P false) (fields : List FieldPath) :
    s.LeadingRun fields ((Constraints.ofSelector s).covered fields) := by
  induction fields with
  | nil => exact ⟨Nat.le_refl _, by simp, by simp⟩
  | cons path rest ih =>
    rw [covered_cons]
    split_ifs with hpath
    · refine ⟨Nat.succ_le_succ ih.within, ?_, ?_⟩
      · rw [List.take_succ_cons]
        exact List.forall_mem_cons.mpr
          ⟨(isSome_on?_iff_constrains h path).mp hpath, ih.constrained⟩
      · rw [List.getElem?_cons_succ]
        exact ih.ended
    · refine ⟨Nat.zero_le _, by simp, fun p hp => ?_⟩
      obtain rfl : path = p := by simpa using hp
      exact mt (isSome_on?_iff_constrains h path).mpr hpath

/-- Some fields are covered if the first one is constrained. -/
theorem covered_pos_iff (h : s.WellFormed P false) (fields : List FieldPath) :
    0 < (Constraints.ofSelector s).covered fields ↔
      ∃ path ∈ fields.head?, s.Constrains path := by
  cases fields with
  | nil => simp [Constraints.covered]
  | cons path rest =>
    have hpath := isSome_on?_iff_constrains h path
    rw [covered_cons]
    split_ifs with hsome
    · simpa using hpath.mp hsome
    · simpa using mt hpath.mpr hsome

end

end Selector

/-! ## Candidates -/

/-- Whether a policy puts the first of two candidates ahead of the second. -/
def TieBreak.Prefers : TieBreak → Candidate → Candidate → Prop
  | firstDeclared, a, b => a.position < b.position
  | lastDeclared, a, b => b.position < a.position
  | narrowest, a, b =>
    a.definition.fields.length < b.definition.fields.length ∨
      a.definition.fields.length = b.definition.fields.length ∧ a.position < b.position

namespace Candidate

variable {policy : TieBreak} {a b : Candidate}

/-- More covered fields are better, then a declared index is better than the primary one, then the
policy decides. -/
def Better (policy : TieBreak) (a b : Candidate) : Prop :=
  b.covered < a.covered ∨
    a.covered = b.covered ∧
      (a.definition.isPrimary = false ∧ b.definition.isPrimary = true ∨
        a.definition.isPrimary = b.definition.isPrimary ∧ policy.Prefers a b)

theorem cmpPolicy_eq_lt_iff : a.cmpPolicy b policy = .lt ↔ policy.Prefers a b := by
  cases policy with
  | firstDeclared => exact Nat.compare_eq_lt
  | lastDeclared => exact Nat.compare_eq_lt
  | narrowest =>
    simp only [cmpPolicy, Ordering.then_eq_lt, Nat.compare_eq_lt, Nat.compare_eq_eq,
      TieBreak.Prefers]

theorem cmp_eq_lt_iff : a.cmp policy b = .lt ↔ a.Better policy b := by
  have hprimary : compare a.definition.isPrimary b.definition.isPrimary = .lt ↔
      a.definition.isPrimary = false ∧ b.definition.isPrimary = true := by
    cases a.definition.isPrimary <;> cases b.definition.isPrimary <;> decide
  have hsame : compare a.definition.isPrimary b.definition.isPrimary = .eq ↔
      a.definition.isPrimary = b.definition.isPrimary := by
    cases a.definition.isPrimary <;> cases b.definition.isPrimary <;> decide
  rw [cmp, Ordering.then_eq_lt, Ordering.then_eq_lt, Nat.compare_eq_lt, Nat.compare_eq_eq, hprimary,
    hsame, cmpPolicy_eq_lt_iff, Better, eq_comm (a := a.covered)]

/-- Candidates that tie stand at one place of the catalog. -/
theorem position_eq_of_cmp_eq (h : a.cmp policy b = .eq) : a.position = b.position := by
  rw [cmp, Ordering.then_eq_eq, Ordering.then_eq_eq] at h
  obtain ⟨-, -, hpolicy⟩ := h
  cases policy with
  | firstDeclared => exact Nat.compare_eq_eq.mp hpolicy
  | lastDeclared => exact (Nat.compare_eq_eq.mp hpolicy).symm
  | narrowest => exact Nat.compare_eq_eq.mp (Ordering.then_eq_eq.mp hpolicy).2

instance (policy : TieBreak) : Std.TransCmp fun a b : Candidate => a.cmpPolicy b policy :=
  match policy with
  | .firstDeclared => inferInstanceAs (Std.TransCmp (compareOn position))
  | .lastDeclared => @Std.TransCmp.opposite _ (compareOn position) _
  | .narrowest => inferInstanceAs (Std.TransCmp
      (compareLex (compareOn fun c : Candidate => c.definition.fields.length) (compareOn position)))

instance : Std.TransCmp fun a b : Candidate => compare b.covered a.covered :=
  @Std.TransCmp.opposite _ (compareOn covered) _

instance (policy : TieBreak) : Std.TransCmp (cmp policy) :=
  inferInstanceAs (Std.TransCmp (compareLex (fun a b : Candidate => compare b.covered a.covered)
    (compareLex (compareOn fun c : Candidate => c.definition.isPrimary)
      fun a b : Candidate => a.cmpPolicy b policy)))

theorem cmp_total (a b : Candidate) :
    ((a.cmp policy b).isLE || (b.cmp policy a).isLE) = true := by
  have hswap : b.cmp policy a = (a.cmp policy b).swap := Std.OrientedCmp.eq_swap
  rw [hswap]
  cases a.cmp policy b <;> rfl

/-- No two candidates are better than each other. -/
theorem Better.asymm (h : a.Better policy b) : ¬ b.Better policy a := by
  rw [← cmp_eq_lt_iff] at *
  rw [← Std.OrientedCmp.gt_iff_lt, h]
  simp

/-- In a strictly ordered list the head alone is better than all others. -/
theorem better_all_iff {found : List Candidate} {best c : Candidate}
    (hbetter : found.Pairwise (Better policy)) (hbest : best ∈ found.head?) (hc : c ∈ found) :
    (∀ other ∈ found, other ≠ c → c.Better policy other) ↔ c = best := by
  obtain ⟨rest, rfl⟩ := List.head?_eq_some_iff.mp hbest
  obtain ⟨hhead, -⟩ := List.pairwise_cons.mp hbetter
  constructor
  · intro hall
    rcases List.mem_cons.mp hc with heq | hmem
    · exact heq
    · by_contra hne
      exact (hhead c hmem).asymm (hall best List.mem_cons_self (Ne.symm hne))
  · rintro rfl other hother hne
    exact hhead other (List.mem_of_ne_of_mem hne hother)

end Candidate

namespace IndexCatalog

variable {catalog : IndexCatalog} {c : Constraints} {policy : TieBreak}

theorem select_perm (catalog : IndexCatalog) (c : Constraints) (policy : TieBreak) :
    (catalog.select c policy).Perm (catalog.candidates c) :=
  List.mergeSort_perm _ _

/-- The candidates are the indexes that cover a field, in the order of the catalog. -/
theorem candidates_map_definition (catalog : IndexCatalog) (c : Constraints) :
    (catalog.candidates c).map Candidate.definition =
      catalog.definitions.filter fun d => 0 < c.covered d.fields := by
  have hfilter : catalog.definitions.filter (fun d => 0 < c.covered d.fields) =
      (catalog.definitions.zipIdx.map Prod.fst).filter fun d => 0 < c.covered d.fields := by
    rw [List.zipIdx_map_fst]
  rw [hfilter, ← List.filterMap_eq_filter, List.filterMap_map, candidates, List.map_filterMap]
  refine List.filterMap_congr fun e _ => ?_
  simp only [Function.comp, Option.guard]
  split_ifs <;> simp_all

theorem mem_candidates {candidate : Candidate} (h : candidate ∈ catalog.candidates c) :
    catalog.definitions[candidate.position]? = some candidate.definition ∧
      candidate.covered = c.covered candidate.definition.fields := by
  obtain ⟨⟨d, position⟩, hmem, hd⟩ := List.mem_filterMap.mp h
  dsimp only at hd
  split_ifs at hd
  obtain rfl := Option.some.inj hd
  exact ⟨List.mem_zipIdx_iff_getElem?.mp hmem, rfl⟩

/-- Candidates have places of their own. -/
theorem candidates_positions (catalog : IndexCatalog) (c : Constraints) :
    (catalog.candidates c).Pairwise fun a b => a.position ≠ b.position := by
  have hplaces : catalog.definitions.zipIdx.Pairwise fun a b => a.2 ≠ b.2 := by
    rw [← List.pairwise_map, List.zipIdx_map_snd]
    exact (List.pairwise_lt_range' 1).imp Nat.ne_of_lt
  refine hplaces.filterMap _ fun e e' hne a ha b hb => ?_
  dsimp only at ha hb
  split_ifs at ha hb
  obtain rfl := Option.some.inj ha
  obtain rfl := Option.some.inj hb
  exact hne

theorem select_better (catalog : IndexCatalog) (c : Constraints) (policy : TieBreak) :
    (catalog.select c policy).Pairwise (Candidate.Better policy) := by
  have hsorted : (catalog.select c policy).Pairwise fun a b => (a.cmp policy b).isLE = true :=
    List.pairwise_mergeSort (fun _ _ _ => Std.TransCmp.isLE_trans)
      Candidate.cmp_total _
  have hplaces : (catalog.select c policy).Pairwise fun a b => a.position ≠ b.position :=
    (catalog.candidates_positions c).perm (catalog.select_perm c policy).symm Ne.symm
  refine (hsorted.and hplaces).imp fun {a b} h => ?_
  obtain ⟨hle, hne⟩ := h
  rw [← Candidate.cmp_eq_lt_iff]
  cases hcmp : a.cmp policy b with
  | lt => rfl
  | eq => exact absurd (Candidate.position_eq_of_cmp_eq hcmp) hne
  | gt =>
    rw [hcmp] at hle
    cases hle

/-! ## Catalogs in use -/

/-- A change of a catalog. -/
inductive Change where
  | add (d : IndexDefinition)
  | remove (name : String)

/-- The catalog after a change; one that is refused leaves it. -/
def apply (catalog : IndexCatalog) : Change → IndexCatalog
  | .add d =>
    match catalog.add d with
    | .ok next => next
    | .error _ => catalog
  | .remove name =>
    match catalog.remove name with
    | .ok (_, next) => next
    | .error _ => catalog

/-- The catalog of a new collection after changes one after the other. -/
def run (changes : List Change) : IndexCatalog := changes.foldl apply initial

theorem WellFormed.apply (h : catalog.WellFormed) (change : Change) :
    (catalog.apply change).WellFormed := by
  cases change with
  | add d =>
    rw [IndexCatalog.apply]
    split
    · rename_i hadd
      exact h.add hadd
    · exact h
  | remove name =>
    rw [IndexCatalog.apply]
    split
    · rename_i hremove
      exact h.remove hremove
    · exact h

theorem run_wellFormed (changes : List Change) : (run changes).WellFormed := by
  suffices hfrom : ∀ catalog : IndexCatalog, catalog.WellFormed →
      (changes.foldl IndexCatalog.apply catalog).WellFormed from hfrom _ initial_wellFormed
  induction changes with
  | nil => exact fun _ h => h
  | cons change rest ih => exact fun catalog h => ih _ (h.apply change)

/-- The primary index stands first, no other index has its name, it cannot be dropped, and neither
its name nor its fields can be declared again. -/
structure KeepsPrimary (catalog : IndexCatalog) : Prop where
  first : catalog.definitions.head? = some .primary
  only : ∀ i d, catalog.definitions[i]? = some d → (d.isPrimary = true ↔ i = 0)
  kept : catalog.remove primaryIndexName =
    .error (.invalidRequest (.primaryIndexDeleted primaryIndexName))
  taken : ∀ d : IndexDefinition, d.fields ≠ [] →
    d.name = primaryIndexName ∨ d.fields = IndexDefinition.primary.fields →
      catalog.add d = .error (.indexAlreadyExists primaryIndexName)

theorem WellFormed.keepsPrimary (h : catalog.WellFormed) : catalog.KeepsPrimary := by
  obtain ⟨rest, hrest⟩ := List.head?_eq_some_iff.mp h.primary
  have hnames := h.names
  rw [hrest, List.map_cons, List.nodup_cons] at hnames
  refine ⟨h.primary, fun i d hd => ?_, if_pos rfl, fun d hfields hd => ?_⟩
  · rw [hrest] at hd
    cases i with
    | zero =>
      obtain rfl := Option.some.inj hd
      exact iff_of_true rfl rfl
    | succ i =>
      refine iff_of_false (fun hprimary => hnames.1 ?_) (Nat.succ_ne_zero i)
      have hname : d.name = IndexDefinition.primary.name := of_decide_eq_true hprimary
      rw [← hname]
      exact List.mem_map_of_mem (List.mem_of_getElem? hd)
  · have hclash : IndexDefinition.primary.name = d.name ∨
        IndexDefinition.primary.fields = d.fields :=
      hd.imp Eq.symm Eq.symm
    rw [IndexCatalog.add, if_neg hfields, hrest, List.find?_cons_of_pos (by simpa using hclash)]
    rfl

/-- For every catalog in use the primary index keeps its place; a selector is proposed just the
indexes whose leading field it constrains, each once and with its run of constrained fields; and the
candidates are strictly ordered, so that the first one is the only one better than all others. -/
theorem run_select_best (changes : List Change) {raw : Value} {s : Selector}
    (h : Selector.parse raw = .ok s) (policy : TieBreak) :
    let catalog := run changes
    let found := catalog.select (.ofSelector s) policy
    catalog.KeepsPrimary ∧
      (∀ d, d ∈ found.map Candidate.definition ↔
        d ∈ catalog.definitions ∧ ∃ path ∈ d.fields.head?, s.Constrains path) ∧
      (found.map Candidate.definition).Nodup ∧
      (∀ c ∈ found, catalog.definitions[c.position]? = some c.definition ∧
        s.LeadingRun c.definition.fields c.covered) ∧
      found.Pairwise (Candidate.Better policy) ∧
      ∀ best ∈ found.head?, ∀ c ∈ found,
        (∀ other ∈ found, other ≠ c → c.Better policy other) ↔ c = best := by
  intro catalog found
  have hcatalog : catalog.WellFormed := run_wellFormed changes
  have hwell := Selector.wellFormed_of_parse hereditary_true trivial h
  have hperm : found.Perm (catalog.candidates (.ofSelector s)) := catalog.select_perm _ policy
  have hdefinitions : (found.map Candidate.definition).Perm (catalog.definitions.filter
      fun d => 0 < (Constraints.ofSelector s).covered d.fields) := by
    rw [← candidates_map_definition]
    exact hperm.map _
  have hbetter : found.Pairwise (Candidate.Better policy) := catalog.select_better _ policy
  refine ⟨hcatalog.keepsPrimary, fun d => ?_, ?_, fun c hc => ?_, hbetter, fun best hbest c hc => ?_⟩
  · rw [hdefinitions.mem_iff, List.mem_filter, decide_eq_true_eq, Selector.covered_pos_iff hwell]
  · rw [hdefinitions.nodup_iff]
    exact (List.Nodup.of_map _ hcatalog.names).filter _
  · obtain ⟨hposition, hcovered⟩ := mem_candidates (hperm.mem_iff.mp hc)
    exact ⟨hposition, hcovered ▸ Selector.covered_leadingRun hwell _⟩
  · exact Candidate.better_all_iff hbetter hbest hc

/-- Both indexes over a constrained field cover one field, and the narrower one wins. -/
theorem run_select_best_narrowest :
    let v : Value := .document
      [("$and", .array [.document [("a", .document [("$gt", .int32 1)])]]),
        ("$or", .array [.document [("b", .int32 1)]])]
    let changes : List Change :=
      [.add ⟨"both", [⟨["a"]⟩, ⟨["b"]⟩]⟩, .add ⟨"b", [⟨["b"]⟩]⟩, .add ⟨"a", [⟨["a"]⟩]⟩,
        .add ⟨"again", [⟨["_id"]⟩]⟩, .remove "b", .remove "_all_docs"]
    let s : Selector := .combine .and
      [.combine .and [.field ⟨["a"]⟩ (.compare .gt (.int32 1))],
        .combine .or [.field ⟨["b"]⟩ (.compare .eq (.int32 1))]]
    Selector.parse v = .ok s ∧
      (run changes).definitions = [.primary, ⟨"both", [⟨["a"]⟩, ⟨["b"]⟩]⟩, ⟨"a", [⟨["a"]⟩]⟩] ∧
      (run changes).KeepsPrimary ∧
      (run changes).select (.ofSelector s) .narrowest =
        [⟨⟨"a", [⟨["a"]⟩]⟩, 1, 2⟩, ⟨⟨"both", [⟨["a"]⟩, ⟨["b"]⟩]⟩, 1, 1⟩] ∧
      ((run changes).select (.ofSelector s) .narrowest).Pairwise (Candidate.Better .narrowest) := by
  intro v changes s
  have hparse : Selector.parse v = .ok s := rfl
  obtain ⟨hkeeps, -, -, -, hbetter, -⟩ := run_select_best changes hparse .narrowest
  refine ⟨hparse, by decide, hkeeps, ?_, hbetter⟩
  have hcandidates : (run changes).candidates (.ofSelector s) =
      [⟨⟨"both", [⟨["a"]⟩, ⟨["b"]⟩]⟩, 1, 1⟩, ⟨⟨"a", [⟨["a"]⟩]⟩, 1, 2⟩] := rfl
  have hworse : Candidate.cmp .narrowest ⟨⟨"both", [⟨["a"]⟩, ⟨["b"]⟩]⟩, 1, 1⟩
      ⟨⟨"a", [⟨["a"]⟩]⟩, 1, 2⟩ = .gt := by decide
  rw [select, hcandidates]
  simp [List.mergeSort, List.MergeSort.Internal.splitInTwo, hworse]

end IndexCatalog

end DocFind
