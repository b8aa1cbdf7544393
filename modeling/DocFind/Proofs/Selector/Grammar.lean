import DocFind.Proofs.Selector.SingleEntry

/-!
# The grammar of selectors

Which values write a selector, said without reading them. An object is well formed at a depth if
each of its entries is, at the level of selectors or at that of a field, where an entry is known by
its key and the shape of its operand; what stands inside an operand is one level deeper. The reader
accepts exactly the values that are well-formed objects at depth zero.
-/
namespace DocFind

namespace Grammar

/-- The operators whose operand holds no selector, each with the operands it takes. No operand of
`$regex` is among them, since there are no patterns to match with. -/
inductive Operand : String → Value → Prop
  | compare {op : String} {v : Value} (hop : op ∈ ["$eq", "$ne", "$gt", "$gte", "$lt", "$lte"]) :
      Operand op v
  | present {b : Bool} : Operand "$exists" (.bool b)
  | hasType {name : String}
      (hname : name ∈ ["null", "boolean", "number", "string", "array", "object"]) :
      Operand "$type" (.string name)
  | elements {op : String} {items : List Value} (hop : op ∈ ["$in", "$nin", "$all"]) :
      Operand op (.array items)
  | size {v : Value} {n : Int64} (hv : v.int? = some n) (hn : 0 ≤ n.toInt) : Operand "$size" v
  | modulo {d r : Value} {divisor remainder : Int64} (hd : d.int? = some divisor)
      (hr : r.int? = some remainder) (hdivisor : divisor ≠ 0) : Operand "$mod" (.array [d, r])

mutual

/-- What may stand at a field: any value that is no mapping, or a mapping, the empty one included,
whose entries may all stand there. -/
inductive Field : Nat → Value → Prop
  | plain {depth : Nat} {v : Value} (hdepth : depth ≤ maxSelectorDepth)
      (hv : ∀ entries, v ≠ .document entries) : Field depth v
  | mapping {depth : Nat} {entries : List (String × Value)} (hdepth : depth ≤ maxSelectorDepth)
      (hentries : ∀ e ∈ entries, FieldMember depth e.1 e.2) : Field depth (.document entries)

/-- The entries of a mapping at a field. -/
inductive FieldMember : Nat → String → Value → Prop
  | subfield {depth : Nat} {key : String} {v : Value} (hkey : isOperatorKey key = false)
      (hpath : Accepted (FieldPath.parse key)) (hv : Field (depth + 1) v) : FieldMember depth key v
  | operand {depth : Nat} {op : String} {v : Value} (hv : Operand op v) : FieldMember depth op v
  | elemMatch {depth : Nat} {entries : List (String × Value)}
      (hv : Field (depth + 1) (.document entries)) :
      FieldMember depth "$elemMatch" (.document entries)
  | not {depth : Nat} {entries : List (String × Value)}
      (hv : Field (depth + 1) (.document entries)) : FieldMember depth "$not" (.document entries)
  | combine {depth : Nat} {kind : Combinator} {items : List Value}
      (hdocuments : ∀ v ∈ items, ∃ entries, v = .document entries)
      (hitems : ∀ v ∈ items, Field (depth + 1) v) : FieldMember depth kind.key (.array items)

end

mutual

/-- What may stand as a selector: a mapping whose entries may all stand there. -/
inductive Object : Nat → Value → Prop
  | mapping {depth : Nat} {entries : List (String × Value)} (hdepth : depth ≤ maxSelectorDepth)
      (hentries : ∀ e ∈ entries, ObjectMember depth e.1 e.2) : Object depth (.document entries)

/-- The entries of a selector. -/
inductive ObjectMember : Nat → String → Value → Prop
  | field {depth : Nat} {key : String} {v : Value} (hkey : isOperatorKey key = false)
      (hpath : Accepted (FieldPath.parse key)) (hv : Field (depth + 1) v) : ObjectMember depth key v
  | not {depth : Nat} {entries : List (String × Value)}
      (hv : Object (depth + 1) (.document entries)) : ObjectMember depth "$not" (.document entries)
  | combine {depth : Nat} {kind : Combinator} {items : List Value}
      (hitems : ∀ v ∈ items, Object (depth + 1) v) : ObjectMember depth kind.key (.array items)

end

/-! ## Operands without a selector -/

theorem Operand.testKey {op : String} {v : Value} (h : Operand op v) : TestKey op := by
  cases h with
  | compare hop =>
    simp only [List.mem_cons, List.not_mem_nil, or_false] at hop
    rcases hop with rfl | rfl | rfl | rfl | rfl | rfl <;>
      exact ⟨rfl, rfl, by decide, by decide⟩
  | elements hop =>
    simp only [List.mem_cons, List.not_mem_nil, or_false] at hop
    rcases hop with rfl | rfl | rfl <;> exact ⟨rfl, rfl, by decide, by decide⟩
  | present | hasType | size | modulo => exact ⟨rfl, rfl, by decide, by decide⟩

theorem mem_of_comparison {op : String} {comparison : Comparison}
    (h : Comparison.ofKey? op = some comparison) :
    op ∈ ["$eq", "$ne", "$gt", "$gte", "$lt", "$lte"] := by
  unfold Comparison.ofKey? at h
  split at h <;> cases h <;> decide

theorem mem_of_typeName {type : TypeName} (h : type ≠ .other) :
    type.text ∈ ["null", "boolean", "number", "string", "array", "object"] := by
  cases type with
  | other => exact absurd rfl h
  | _ => decide

theorem operand_of_arrayOperand {op : String} {v : Value} {f : List Value → Test} {test : Test}
    (hop : op ∈ ["$in", "$nin", "$all"]) (h : (arrayOperand op v).map f = .ok test) :
    Operand op v := by
  simp only [map_eq_ok, arrayOperand_eq_ok] at h
  obtain ⟨items, rfl, -⟩ := h
  exact .elements hop

/-- An operator without a selector is read just if its operand is one it takes. -/
theorem accepted_readTest {op : String} {v : Value} : Accepted (readTest op v) ↔ Operand op v := by
  constructor
  · rintro ⟨test, h⟩
    unfold readTest at h
    split at h
    · rename_i comparison hcomparison
      exact .compare (mem_of_comparison hcomparison)
    · split at h
      · split at h
        · exact .present
        · cases h
      · obtain ⟨type, rfl, -, htype⟩ := readTypeName_eq_ok h
        exact .hasType (mem_of_typeName htype)
      · exact operand_of_arrayOperand (by decide) h
      · exact operand_of_arrayOperand (by decide) h
      · exact operand_of_arrayOperand (by decide) h
      · obtain ⟨n, hn, hpos, -⟩ := readSize_eq_ok h
        exact .size hn hpos
      · obtain ⟨d, r, divisor, remainder, rfl, hd, hr, -, hdivisor⟩ := readDivision_eq_ok h
        exact .modulo hd hr hdivisor
      · cases h
      · cases h
  · intro h
    cases h with
    | compare hop =>
      simp only [List.mem_cons, List.not_mem_nil, or_false] at hop
      rcases hop with rfl | rfl | rfl | rfl | rfl | rfl <;> exact ⟨_, rfl⟩
    | present => exact ⟨_, rfl⟩
    | hasType hname =>
      simp only [List.mem_cons, List.not_mem_nil, or_false] at hname
      rcases hname with rfl | rfl | rfl | rfl | rfl | rfl <;> exact ⟨_, rfl⟩
    | elements hop =>
      simp only [List.mem_cons, List.not_mem_nil, or_false] at hop
      rcases hop with rfl | rfl | rfl <;> exact ⟨_, rfl⟩
    | size hv hn =>
      change Accepted (readSize v)
      rw [readSize, hv]
      simp only [if_pos hn, accepted_ok]
    | modulo hd hr hdivisor =>
      change Accepted (readDivision _)
      simp only [readDivision, arrayOperand, ok_bind, hd, hr, if_neg hdivisor, accepted_ok]

/-! ## The level of fields -/

/-- An entry at a field is read just if it may stand there, provided that its operand is. -/
theorem fieldEntry_iff {path : FieldPath} {depth : Nat} {key : String} {v : Value}
    (hfield : ∀ path, Accepted (parseField path (depth + 1) v) ↔ Field (depth + 1) v)
    (hitems : ∀ items, v = .array items →
      (Accepted (parseFieldItems path (depth + 1) items) ↔ ∀ v ∈ items, Field (depth + 1) v)) :
    (∃ part, FieldEntry path depth key v part) ↔ FieldMember depth key v := by
  constructor
  · rintro ⟨part, h⟩
    cases h with
    | combine hkind hoperands hchildren =>
      rw [Combinator.eq_key_of_ofKey? hkind]
      exact .combine (checkOperands_eq_ok.mp hoperands) ((hitems _ rfl).mp ⟨_, hchildren⟩)
    | not hchild => exact .not ((hfield path).mp ⟨_, hchild⟩)
    | elemMatch hinner => exact .elemMatch ((hfield .root).mp ⟨_, hinner⟩)
    | test hop hcombinator hnot helem htest => exact .operand (accepted_readTest.mp ⟨_, htest⟩)
    | below hkey hpath hpart => exact .subfield hkey ⟨_, hpath⟩ ((hfield _).mp ⟨_, hpart⟩)
  · intro h
    cases h with
    | subfield hkey hpath hv =>
      obtain ⟨below, hpath⟩ := hpath
      obtain ⟨part, hpart⟩ := (hfield (path.join below)).mpr hv
      exact ⟨part, .below hkey hpath hpart⟩
    | operand hv =>
      obtain ⟨test, htest⟩ := accepted_readTest.mpr hv
      exact ⟨_, .test hv.testKey.operator hv.testKey.combinator hv.testKey.not hv.testKey.elemMatch
        htest⟩
    | elemMatch hv =>
      obtain ⟨inner, hinner⟩ := (hfield .root).mpr hv
      exact ⟨_, .elemMatch hinner⟩
    | not hv =>
      obtain ⟨child, hchild⟩ := (hfield path).mpr hv
      exact ⟨_, .not hchild⟩
    | combine hdocuments hv =>
      obtain ⟨children, hchildren⟩ := (hitems _ rfl).mpr hv
      exact ⟨_, .combine (Combinator.ofKey?_key _) (checkOperands_eq_ok.mpr hdocuments) hchildren⟩

theorem accepted_parseFieldEntries_cons {path : FieldPath} {depth : Nat} {key : String} {v : Value}
    {rest : List (String × Value)} :
    Accepted (parseFieldEntries path depth ((key, v) :: rest)) ↔
      (∃ part, FieldEntry path depth key v part) ∧
        Accepted (parseFieldEntries path depth rest) := by
  constructor
  · rintro ⟨parts, h⟩
    obtain ⟨part, others, hentry, hothers, -⟩ := parseFieldEntries_cons h
    exact ⟨⟨part, hentry⟩, others, hothers⟩
  · rintro ⟨⟨part, hentry⟩, others, hothers⟩
    exact ⟨_, hentry.parseFieldEntries hothers⟩

theorem accepted_parseField_document {path : FieldPath} {depth : Nat}
    {entries : List (String × Value)} :
    Accepted (parseField path depth (.document entries)) ↔
      depth ≤ maxSelectorDepth ∧ Accepted (parseFieldEntries path depth entries) := by
  cases entries with
  | nil =>
    rw [parseField]
    exact accepted_bind_ok.trans (accepted_checkDepth.trans (and_iff_left (accepted_ok _)).symm)
  | cons entry entries =>
    rw [parseField, accepted_checkDepth_bind]
    exact and_congr_right fun _ => accepted_bind_ok

theorem accepted_parseField_plain {path : FieldPath} {depth : Nat} {v : Value}
    (hv : ∀ entries, v ≠ .document entries) :
    Accepted (parseField path depth v) ↔ depth ≤ maxSelectorDepth := by
  rw [parseField_of_plain path depth fun _ _ => hv _]
  exact accepted_bind_ok.trans accepted_checkDepth

theorem field_document_iff {depth : Nat} {entries : List (String × Value)} :
    Field depth (.document entries) ↔
      depth ≤ maxSelectorDepth ∧ ∀ e ∈ entries, FieldMember depth e.1 e.2 := by
  constructor
  · intro h
    cases h with
    | plain hdepth hv => exact absurd rfl (hv entries)
    | mapping hdepth hentries => exact ⟨hdepth, hentries⟩
  · rintro ⟨hdepth, hentries⟩
    exact .mapping hdepth hentries

theorem field_plain_iff {depth : Nat} {v : Value} (hv : ∀ entries, v ≠ .document entries) :
    Field depth v ↔ depth ≤ maxSelectorDepth := by
  constructor
  · intro h
    cases h with
    | plain hdepth _ => exact hdepth
    | mapping hdepth _ => exact hdepth
  · exact fun hdepth => .plain hdepth hv

mutual

/-- A value is read at a field just if it may stand there, whichever field it is. -/
theorem accepted_parseField (path : FieldPath) (depth : Nat) (v : Value) :
    Accepted (parseField path depth v) ↔ Field depth v := by
  match v with
  | .document entries =>
    rw [accepted_parseField_document, field_document_iff,
      accepted_parseFieldEntries path depth entries]
  | .null | .bool _ | .int32 _ | .int64 _ | .double _ | .decimal _ | .string _ | .array _
  | .foreign _ =>
    rw [accepted_parseField_plain (fun _ h => by cases h), field_plain_iff fun _ h => by cases h]
termination_by sizeOf v

theorem accepted_parseFieldEntries (path : FieldPath) (depth : Nat)
    (entries : List (String × Value)) :
    Accepted (parseFieldEntries path depth entries) ↔
      ∀ e ∈ entries, FieldMember depth e.1 e.2 := by
  match entries with
  | [] => simp [parseFieldEntries]
  | (key, v) :: rest =>
    rw [accepted_parseFieldEntries_cons, List.forall_mem_cons,
      accepted_parseFieldEntries path depth rest]
    refine and_congr_left' (fieldEntry_iff (fun path => ?_) fun items hitems => ?_)
    · exact accepted_parseField path (depth + 1) v
    · subst hitems
      exact accepted_parseFieldItems path (depth + 1) items
termination_by sizeOf entries

theorem accepted_parseFieldItems (path : FieldPath) (depth : Nat) (items : List Value) :
    Accepted (parseFieldItems path depth items) ↔ ∀ v ∈ items, Field depth v := by
  match items with
  | [] => simp [parseFieldItems]
  | v :: rest =>
    rw [parseFieldItems, accepted_bind_bind_ok, List.forall_mem_cons,
      accepted_parseField path depth v, accepted_parseFieldItems path depth rest]
termination_by sizeOf items

end

/-! ## The level of selectors -/

theorem Object.isDocument {depth : Nat} {v : Value} (h : Object depth v) :
    ∃ entries, v = .document entries := by
  cases h with
  | mapping _ _ => exact ⟨_, rfl⟩

/-- An entry of a selector is read just if it may stand there, provided that its operand is. -/
theorem objectEntry_iff {depth : Nat} {key : String} {v : Value}
    (hobject : Accepted (parseObject (depth + 1) v) ↔ Object (depth + 1) v)
    (hitems : ∀ items, v = .array items →
      (Accepted (parseItems (depth + 1) items) ↔ ∀ v ∈ items, Object (depth + 1) v)) :
    (∃ part, ObjectEntry depth key v part) ↔ ObjectMember depth key v := by
  constructor
  · rintro ⟨part, h⟩
    cases h with
    | combine hkind _ hchildren =>
      rw [Combinator.eq_key_of_ofKey? hkind]
      exact .combine ((hitems _ rfl).mp ⟨_, hchildren⟩)
    | not hchild => exact .not (hobject.mp ⟨_, hchild⟩)
    | field hkey hpath hpart =>
      exact .field hkey ⟨_, hpath⟩ ((accepted_parseField _ _ v).mp ⟨_, hpart⟩)
  · intro h
    cases h with
    | field hkey hpath hv =>
      obtain ⟨path, hpath⟩ := hpath
      obtain ⟨part, hpart⟩ := (accepted_parseField path _ v).mpr hv
      exact ⟨part, .field hkey hpath hpart⟩
    | not hv =>
      obtain ⟨child, hchild⟩ := hobject.mpr hv
      exact ⟨_, .not hchild⟩
    | combine hv =>
      obtain ⟨children, hchildren⟩ := (hitems _ rfl).mpr hv
      have hdocuments := fun v hmem => (hv v hmem).isDocument
      exact ⟨_, .combine (Combinator.ofKey?_key _) (checkOperands_eq_ok.mpr hdocuments) hchildren⟩

theorem accepted_parseEntries_cons {depth : Nat} {key : String} {v : Value}
    {rest : List (String × Value)} :
    Accepted (parseEntries depth ((key, v) :: rest)) ↔
      (∃ part, ObjectEntry depth key v part) ∧ Accepted (parseEntries depth rest) := by
  constructor
  · rintro ⟨parts, h⟩
    obtain ⟨part, others, hentry, hothers, -⟩ := parseEntries_cons h
    exact ⟨⟨part, hentry⟩, others, hothers⟩
  · rintro ⟨⟨part, hentry⟩, others, hothers⟩
    exact ⟨_, hentry.parseEntries hothers⟩

theorem object_document_iff {depth : Nat} {entries : List (String × Value)} :
    Object depth (.document entries) ↔
      depth ≤ maxSelectorDepth ∧ ∀ e ∈ entries, ObjectMember depth e.1 e.2 := by
  constructor
  · intro h
    cases h with
    | mapping hdepth hentries => exact ⟨hdepth, hentries⟩
  · rintro ⟨hdepth, hentries⟩
    exact .mapping hdepth hentries

mutual

/-- A value is read as a selector just if it is a well-formed object. -/
theorem accepted_parseObject (depth : Nat) (v : Value) :
    Accepted (parseObject depth v) ↔ Object depth v := by
  match v with
  | .document entries =>
    rw [object_document_iff, ← accepted_parseEntries depth entries, parseObject,
      accepted_checkDepth_bind]
    exact and_congr_right fun _ => accepted_bind_ok
  | .null | .bool _ | .int32 _ | .int64 _ | .double _ | .decimal _ | .string _ | .array _
  | .foreign _ => exact iff_of_false (not_accepted_error _) (fun h => by cases h)
termination_by sizeOf v

theorem accepted_parseEntries (depth : Nat) (entries : List (String × Value)) :
    Accepted (parseEntries depth entries) ↔ ∀ e ∈ entries, ObjectMember depth e.1 e.2 := by
  match entries with
  | [] => simp [parseEntries]
  | (key, v) :: rest =>
    rw [accepted_parseEntries_cons, List.forall_mem_cons, accepted_parseEntries depth rest]
    refine and_congr_left' (objectEntry_iff ?_ fun items hitems => ?_)
    · exact accepted_parseObject (depth + 1) v
    · subst hitems
      exact accepted_parseItems (depth + 1) items
termination_by sizeOf entries

theorem accepted_parseItems (depth : Nat) (items : List Value) :
    Accepted (parseItems depth items) ↔ ∀ v ∈ items, Object depth v := by
  match items with
  | [] => simp [parseItems]
  | v :: rest =>
    rw [parseItems, accepted_bind_bind_ok, List.forall_mem_cons, accepted_parseObject depth v,
      accepted_parseItems depth rest]
termination_by sizeOf items

end

/-- An operator of a field is none at the level of selectors. -/
example : ¬ Object 0 (.document [("$gt", .int32 2)]) := fun h => by
  obtain ⟨_, hread⟩ := (accepted_parseObject 0 _).mpr h
  cases hread

end Grammar

/-- Selectors are read from the well-formed objects, and from nothing else. -/
theorem Selector.accepted_parse_iff (v : Value) :
    Accepted (Selector.parse v) ↔ Grammar.Object 0 v := Grammar.accepted_parseObject 0 v

end DocFind
