import DocFind.Proofs.Selector.Grammar
import DocFind.Proofs.Selector.Meaning
import DocFind.Proofs.Value.Sameness

/-!
# Selectors applied to elements

The operand of `$elemMatch` is read at the level of fields, with an element in hand, and a selector
at the level of selectors, with a document. Both readings say the same of a document, but for empty
objects: at the level of selectors such an object holds of every document, at the level of fields it
asks for an equal value.
-/
namespace DocFind

namespace RawSelector

/-! ## Selectors inside a selector -/

/-- The operands of an entry that stand at the level of selectors. -/
inductive Inner : String → Value → Value → Prop
  | combined {key : String} {kind : Combinator} {items : List Value} {v : Value}
      (hkind : Combinator.ofKey? key = some kind) (hv : v ∈ items) : Inner key (.array items) v
  | negated {key : String} {v : Value} (hkey : key = "$not") : Inner key v v

/-- No object at the level of selectors is empty. -/
inductive Filled : Value → Prop
  | mapping {entries : List (String × Value)} (hentries : entries ≠ [])
      (hinner : ∀ e ∈ entries, ∀ v, Inner e.1 e.2 v → Filled v) : Filled (.document entries)

theorem filled_of_fields {entries : List (String × Value)} (hentries : entries ≠ [])
    (hfields : ∀ e ∈ entries, isOperatorKey e.1 = false) : Filled (.document entries) := by
  refine .mapping hentries fun e he v hv => ?_
  obtain ⟨key, operand⟩ := e
  have hkey : isOperatorKey key = false := hfields _ he
  cases hv with
  | combined hkind _ =>
    rw [Combinator.ofKey?_of_not_isOperatorKey hkey] at hkind
    cases hkind
  | negated hnot => exact absurd hnot (ne_of_not_isOperatorKey hkey rfl)

/-! ## One reading at both levels -/

theorem fieldItemsHold_eq_map (found : Option Value) (items : List Value) :
    fieldItemsHold found items = items.map (fieldHolds found) := by
  induction items with
  | nil => rfl
  | cons v rest ih => rw [fieldItemsHold, ih, List.map_cons]

theorem itemsHold_eq_map (x : Value) (items : List Value) :
    itemsHold x items = items.map (holds x) := by
  induction items with
  | nil => rfl
  | cons v rest ih => rw [itemsHold, ih, List.map_cons]

/-- Entries are read alike at both levels if the selectors inside their operands are. -/
theorem fieldEntriesHold_eq_entriesHold (x : Value) {depth : Nat}
    {entries : List (String × Value)}
    (hentries : ∀ e ∈ entries, Grammar.ObjectMember depth e.1 e.2)
    (hinner : ∀ e ∈ entries, ∀ v, Inner e.1 e.2 v → ∀ depth, Grammar.Object depth v →
      fieldHolds (some x) v = holds x v) :
    fieldEntriesHold (some x) entries = entriesHold x entries := by
  induction entries with
  | nil => rfl
  | cons e rest ih =>
    obtain ⟨key, operand⟩ := e
    rw [List.forall_mem_cons] at hentries hinner
    have hrest := ih hentries.2 hinner.2
    have hoperand := hinner.1
    unfold fieldEntriesHold entriesHold
    rw [hrest]
    congr 1
    cases hentries.1 with
    | field hkey hpath _ =>
      obtain ⟨path, hpath⟩ := hpath
      have hkind : Combinator.ofKey? key = none := Combinator.ofKey?_of_not_isOperatorKey hkey
      have hnot : key ≠ "$not" := ne_of_not_isOperatorKey hkey rfl
      have helem : key ≠ "$elemMatch" := ne_of_not_isOperatorKey hkey rfl
      simp [hkind, hnot, helem, hkey, hpath]
    | not hv =>
      have hnegated := hoperand _ (.negated rfl) _ hv
      simp [Combinator.ofKey?, hnegated]
    | combine hitems =>
      rename_i kind items
      have heach : items.map (fieldHolds (some x)) = items.map (holds x) :=
        List.map_congr_left fun v hv =>
          hoperand v (.combined kind.ofKey?_key hv) _ (hitems v hv)
      cases kind <;> simp [Combinator.ofKey?, fieldItemsHold_eq_map, itemsHold_eq_map, heach]

/-- Without empty objects at the level of selectors, an accepted selector is read alike at both
levels. -/
theorem Filled.fieldHolds_eq_holds {v : Value} (h : Filled v) (x : Value) {depth : Nat}
    (hv : Grammar.Object depth v) : fieldHolds (some x) v = holds x v := by
  induction h generalizing depth with
  | mapping hne _ ih =>
    obtain ⟨entry, rest, rfl⟩ := List.exists_cons_of_ne_nil hne
    cases hv with
    | mapping _ hentries =>
      rw [fieldHolds, holds]
      exact fieldEntriesHold_eq_entriesHold x hentries fun e he v hv depth hobject =>
        ih e he v hv hobject

/-- An empty object at the level of fields asks for the empty document. -/
theorem fieldHolds_empty (body : Body) :
    fieldHolds (some (.document body)) (.document []) = true ↔ body = [] := by
  constructor
  · intro h
    have hcmp : (Value.document body).cmp (.document []) = .eq := Value.same_iff.mp h
    refine List.eq_nil_iff_forall_not_mem.mpr fun e he => ?_
    have hfound := Value.get?_of_document_cmp hcmp e.1
    rcases rel_cases hfound with ⟨hnone, -⟩ | ⟨_, _, -, hsome, -⟩
    · exact Entries.get?_eq_none_iff.mp hnone (List.mem_map_of_mem he)
    · cases hsome
  · rintro rfl
    rfl

end RawSelector

namespace Selector

/-- A test of elements at a path is read as such, its operand at the level of fields. -/
theorem accepts_elemMatch {key : String} {path : FieldPath} {v : Value} {t : Selector}
    (hpath : FieldPath.parse key = .ok path)
    (ht : parse (.document [(key, .document [("$elemMatch", v)])]) = .ok t) {body : Body}
    {elements : List Value} (hfound : Body.resolve? body path = some (.array elements)) :
    t.accepts body = elements.any fun x => RawSelector.fieldHolds (some x) v := by
  have hkey : isOperatorKey key = false := by
    obtain ⟨parts, hparts, -⟩ := parseObject_document ht
    obtain ⟨part, others, hpart, -, -⟩ := parseEntries_cons hparts
    cases hpart with
    | not hchild => cases hchild
    | field hkey _ _ => exact hkey
  have hkind : Combinator.ofKey? key = none := Combinator.ofKey?_of_not_isOperatorKey hkey
  have hnot : key ≠ "$not" := ne_of_not_isOperatorKey hkey rfl
  have hvalue : (Value.document body).resolve? path = some (.array elements) := by
    rw [← hfound]
    exact ((Target.body body).addresses_of_parse hpath).get?_eq.symm
  have hread : t.accepts body =
      RawSelector.fieldHolds (some (.array elements)) (.document [("$elemMatch", v)]) := by
    refine (RawSelector.parseObject_holds (.body body) _ ht).trans ?_
    unfold RawSelector.holds RawSelector.entriesHold
    simp [hkind, hnot, hpath, Target.value, hvalue, RawSelector.entriesHold]
  rw [hread]
  exact Bool.and_true _

/-- A test of elements applies its operand to each of them, read at the level of fields. This is to
apply the selector that the operand is, if no object at the level of selectors is empty. The empty
operand asks for an empty element, though as a selector it holds of every document. -/
theorem elemMatch_accepts_iff_element {key : String} {path : FieldPath}
    {entries : List (String × Value)} {s t : Selector} {body : Body} {bodies : List Body}
    (hs : parse (.document entries) = .ok s) (hpath : FieldPath.parse key = .ok path)
    (ht : parse (.document [(key, .document [("$elemMatch", .document entries)])]) = .ok t)
    (hfound : Body.resolve? body path = some (.array (bodies.map .document))) :
    (t.accepts body = true ↔
      ∃ b ∈ bodies, RawSelector.fieldHolds (some (.document b)) (.document entries) = true) ∧
    (RawSelector.Filled (.document entries) →
      (t.accepts body = true ↔ ∃ b ∈ bodies, s.accepts b = true)) ∧
    (entries = [] → (t.accepts body = true ↔ [] ∈ bodies)) := by
  have helements : t.accepts body = true ↔
      ∃ b ∈ bodies, RawSelector.fieldHolds (some (.document b)) (.document entries) = true := by
    rw [accepts_elemMatch hpath ht hfound, List.any_map, List.any_eq_true]
    rfl
  refine ⟨helements, fun hfilled => ?_, fun hempty => ?_⟩
  · have hobject : Grammar.Object 0 (.document entries) := (accepted_parse_iff _).mp ⟨s, hs⟩
    have heach (b : Body) : s.accepts b =
        RawSelector.fieldHolds (some (.document b)) (.document entries) := by
      rw [hfilled.fieldHolds_eq_holds (.document b) hobject]
      exact RawSelector.parseObject_holds (.body b) _ hs
    simp only [helements, heach]
  · subst hempty
    simp only [helements, RawSelector.fieldHolds_empty, exists_eq_right]

/-- Of the two elements only the one that exceeds the bound is accepted: the other one holds an
empty document where the negated test asks for one. -/
theorem elemMatch_accepts_iff_element_nested :
    let entries : List (String × Value) :=
      [("$or", .array [.document [("x", .document [("$gt", .int32 5)])],
        .document [("$not", .document [("y.0", .document [("$elemMatch", .document [])])])]])]
    let s : Selector := .combine .or [.field ⟨["x"]⟩ (.compare .gt (.int32 5)),
      .not (.elemMatch ⟨["y", "0"]⟩ (.field .root (.compare .eq (.document []))))]
    let bodies : List Body :=
      [[("x", .int32 3), ("y", .array [.array [.document []]])], [("x", .int32 7)]]
    let body : Body := [("a", .document [("b", .array (bodies.map .document))])]
    let t : Selector := .elemMatch ⟨["a", "b"]⟩ s
    parse (.document entries) = .ok s ∧
      parse (.document [("a.b", .document [("$elemMatch", .document entries)])]) = .ok t ∧
      Body.resolve? body ⟨["a", "b"]⟩ = some (.array (bodies.map .document)) ∧
      RawSelector.Filled (.document entries) ∧
      t.accepts body = true ∧ bodies.map s.accepts = [false, true] := by
  intro entries s bodies body t
  have hs : parse (.document entries) = .ok s := rfl
  have hpath : FieldPath.parse "a.b" = .ok ⟨["a", "b"]⟩ := rfl
  have ht : parse (.document [("a.b", .document [("$elemMatch", .document entries)])]) = .ok t :=
    rfl
  have hfound : Body.resolve? body ⟨["a", "b"]⟩ = some (.array (bodies.map .document)) := rfl
  have hfilled : RawSelector.Filled (.document entries) := by
    refine .mapping (List.cons_ne_nil _ _) fun e he v hv => ?_
    obtain rfl := List.mem_singleton.mp he
    cases hv with
    | negated hkey => exact absurd hkey (by decide)
    | combined _ hv =>
      rcases List.mem_pair.mp hv with rfl | rfl
      · exact RawSelector.filled_of_fields (by simp) (by simp [isOperatorKey])
      · refine .mapping (List.cons_ne_nil _ _) fun e he v hv => ?_
        obtain rfl := List.mem_singleton.mp he
        cases hv with
        | negated _ => exact RawSelector.filled_of_fields (by simp) (by simp [isOperatorKey])
  have hiff := (elemMatch_accepts_iff_element hs hpath ht hfound).2.1 hfilled
  refine ⟨hs, ht, hfound, hfilled, hiff.mpr ⟨[("x", .int32 7)], by simp [bodies], by decide⟩, ?_⟩
  decide

/-- Of an array with an element that is not empty the empty operand does not hold, though the
element is accepted by the empty selector; likewise inside a combination. -/
theorem elemMatch_empty_object :
    let body : Body := [("a", .array [.document [("b", .int32 1)]])]
    let tests (operand : Value) : Value := .document [("a", .document [("$elemMatch", operand)])]
    let either : Value := .document [("$or", .array [.document []])]
    (∃ s t, parse (.document []) = .ok s ∧ parse (tests (.document [])) = .ok t ∧
      s.accepts [("b", .int32 1)] = true ∧ t.accepts body = false) ∧
    ∃ s t, parse either = .ok s ∧ parse (tests either) = .ok t ∧
      s.accepts [("b", .int32 1)] = true ∧ t.accepts body = false := by
  intro body tests either
  exact ⟨⟨_, _, rfl, rfl, by decide, by decide⟩, _, _, rfl, rfl, by decide, by decide⟩

end Selector

end DocFind
