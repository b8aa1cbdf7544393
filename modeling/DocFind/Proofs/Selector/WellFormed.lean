import DocFind.Proofs.FieldPath.Text
import DocFind.Proofs.Selector.Conjuncts
import DocFind.Proofs.Selector.Parse

/-!
# Well-formed selectors

What the reader of selectors accepts is well formed: paths have segments, but for the path of the
element itself inside `$elemMatch`, divisors are not zero, type names are ones to ask for, and the
operands have every property that passes from a value to its parts.
-/
namespace DocFind

/-- A property that passes from values to their parts. -/
structure Hereditary (P : Value → Prop) : Prop where
  array : ∀ {items : List Value}, P (.array items) → ∀ v ∈ items, P v
  document : ∀ {entries : List (String × Value)}, P (.document entries) → ∀ e ∈ entries, P e.2

theorem hereditary_true : Hereditary fun _ => True :=
  ⟨fun _ _ _ => trivial, fun _ _ _ => trivial⟩

/-- A path has no empty segment, and leads somewhere unless it starts from an element. -/
structure FieldPath.StandsIn (inElement : Bool) (path : FieldPath) : Prop where
  segments : "" ∉ path.segments
  root : path.isRoot = true → inElement = true

/-- The operands of a test have a property, and its numbers and names are ones that can be read. -/
def Test.WellFormed (P : Value → Prop) : Test → Prop
  | compare _ operand => P operand
  | present _ => True
  | hasType name => name ≠ .other
  | oneOf values | noneOf values | allOf values => ∀ v ∈ values, P v
  | size n => n < 0x8000000000000000
  | modulo divisor _ => divisor ≠ 0

namespace Selector

/-- Every path and every test of a selector is well formed, the paths of inner selectors as those
that start from an element. -/
inductive WellFormed (P : Value → Prop) : Bool → Selector → Prop
  | combine {inElement : Bool} {kind : Combinator} {children : List Selector}
      (hchildren : ∀ s ∈ children, WellFormed P inElement s) :
      WellFormed P inElement (.combine kind children)
  | not {inElement : Bool} {child : Selector} (hchild : WellFormed P inElement child) :
      WellFormed P inElement (.not child)
  | field {inElement : Bool} {path : FieldPath} {test : Test} (hpath : path.StandsIn inElement)
      (htest : test.WellFormed P) : WellFormed P inElement (.field path test)
  | elemMatch {inElement : Bool} {path : FieldPath} {inner : Selector}
      (hpath : path.StandsIn inElement) (hinner : WellFormed P true inner) :
      WellFormed P inElement (.elemMatch path inner)

theorem WellFormed.conjoin {P : Value → Prop} {inElement : Bool} {parts : List Selector}
    (h : ∀ s ∈ parts, s.WellFormed P inElement) : (conjoin parts).WellFormed P inElement := by
  unfold Selector.conjoin
  split
  · exact h _ List.mem_cons_self
  · exact .combine h

end Selector

namespace FieldPath

variable {inElement : Bool} {path below : FieldPath} {raw : String}

theorem root_standsIn : root.StandsIn true := ⟨List.not_mem_nil, fun _ => rfl⟩

theorem standsIn_of_parse (h : parse raw = .ok path) : path.StandsIn inElement := by
  refine ⟨(hasSegments_of_parse h).2, fun hroot => ?_⟩
  rw [parse_isRoot h] at hroot
  cases hroot

theorem StandsIn.join (hpath : path.StandsIn inElement) (h : parse raw = .ok below) :
    (path.join below).StandsIn inElement := by
  refine ⟨fun hmem => ?_, fun hroot => ?_⟩
  · rcases List.mem_append.mp hmem with hmem | hmem
    · exact hpath.segments hmem
    · exact (hasSegments_of_parse h).2 hmem
  · rw [isRoot_join, Bool.and_eq_true] at hroot
    exact hpath.root hroot.1

end FieldPath

variable {P : Value → Prop}

/-! ## Tests -/

/-- The items of an operand have what the operand has. -/
theorem items_of_arrayOperand (hP : Hereditary P) {op : String} {operand : Value}
    {f : List Value → Test} {test : Test} (hoperand : P operand)
    (h : (arrayOperand op operand).map f = .ok test) :
    ∃ items, test = f items ∧ ∀ v ∈ items, P v := by
  simp only [map_eq_ok, arrayOperand_eq_ok] at h
  obtain ⟨items, rfl, rfl⟩ := h
  exact ⟨items, rfl, hP.array hoperand⟩

theorem readTest_wellFormed (hP : Hereditary P) {op : String} {operand : Value} {test : Test}
    (hoperand : P operand) (h : readTest op operand = .ok test) : test.WellFormed P := by
  unfold readTest at h
  split at h
  · obtain rfl := Except.ok.inj h
    exact hoperand
  · split at h
    · split at h
      · cases h
        trivial
      · cases h
    · obtain ⟨type, rfl, rfl, hother⟩ := readTypeName_eq_ok h
      exact hother
    · obtain ⟨items, rfl, hitems⟩ := items_of_arrayOperand hP hoperand h
      exact hitems
    · obtain ⟨items, rfl, hitems⟩ := items_of_arrayOperand hP hoperand h
      exact hitems
    · obtain ⟨items, rfl, hitems⟩ := items_of_arrayOperand hP hoperand h
      exact hitems
    · obtain ⟨n, -, hpos, rfl⟩ := readSize_eq_ok h
      have hword := n.toInt_lt
      rw [Test.WellFormed]
      omega
    · obtain ⟨d, r, divisor, remainder, rfl, -, -, rfl, hdivisor⟩ := readDivision_eq_ok h
      exact hdivisor
    · cases h
    · cases h

/-! ## Selectors -/

mutual

theorem parseField_wellFormed (hP : Hereditary P) {inElement : Bool} {path : FieldPath}
    (hpath : path.StandsIn inElement) {depth : Nat} (v : Value) (hv : P v) {s : Selector}
    (h : parseField path depth v = .ok s) : s.WellFormed P inElement := by
  match v with
  | .document (entry :: entries) =>
    obtain ⟨parts, hparts, rfl⟩ := parseField_document h
    exact .conjoin (parseFieldEntries_wellFormed hP hpath _ (hP.document hv) hparts)
  | .document [] | .null | .bool _ | .int32 _ | .int64 _ | .double _ | .decimal _ | .string _
  | .array _ | .foreign _ =>
    obtain rfl := parseField_plain (by simp) h
    exact .field hpath hv
termination_by sizeOf v

theorem parseFieldEntries_wellFormed (hP : Hereditary P) {inElement : Bool} {path : FieldPath}
    (hpath : path.StandsIn inElement) {depth : Nat} (entries : List (String × Value))
    (hentries : ∀ e ∈ entries, P e.2) {parts : List Selector}
    (h : parseFieldEntries path depth entries = .ok parts) :
    ∀ s ∈ parts, s.WellFormed P inElement := by
  match entries with
  | [] =>
    obtain rfl := Except.ok.inj h
    exact List.forall_mem_nil _
  | (key, operand) :: rest =>
    obtain ⟨part, others, hpart, hothers, rfl⟩ := parseFieldEntries_cons h
    obtain ⟨hoperand, hrest⟩ := List.forall_mem_cons.mp hentries
    refine List.forall_mem_cons.mpr
      ⟨?_, parseFieldEntries_wellFormed hP hpath rest hrest hothers⟩
    cases hpart with
    | combine hkind hoperands hitems =>
      exact .combine (parseFieldItems_wellFormed hP hpath _ (hP.array hoperand) hitems)
    | not hchild => exact .not (parseField_wellFormed hP hpath _ hoperand hchild)
    | elemMatch hinner =>
      exact .elemMatch hpath (parseField_wellFormed hP FieldPath.root_standsIn _ hoperand hinner)
    | test hop hcombinator hnot helem htest =>
      exact .field hpath (readTest_wellFormed hP hoperand htest)
    | below hkey hbelow hpart =>
      exact parseField_wellFormed hP (hpath.join hbelow) _ hoperand hpart
termination_by sizeOf entries

theorem parseFieldItems_wellFormed (hP : Hereditary P) {inElement : Bool} {path : FieldPath}
    (hpath : path.StandsIn inElement) {depth : Nat} (items : List Value)
    (hitems : ∀ v ∈ items, P v) {children : List Selector}
    (h : parseFieldItems path depth items = .ok children) :
    ∀ s ∈ children, s.WellFormed P inElement := by
  match items with
  | [] =>
    obtain rfl := Except.ok.inj h
    exact List.forall_mem_nil _
  | v :: rest =>
    obtain ⟨child, others, hchild, hothers, rfl⟩ := parseFieldItems_cons h
    obtain ⟨hv, hrest⟩ := List.forall_mem_cons.mp hitems
    exact List.forall_mem_cons.mpr ⟨parseField_wellFormed hP hpath v hv hchild,
      parseFieldItems_wellFormed hP hpath rest hrest hothers⟩
termination_by sizeOf items

end

mutual

theorem parseObject_wellFormed (hP : Hereditary P) {depth : Nat} (v : Value) (hv : P v)
    {s : Selector} (h : parseObject depth v = .ok s) : s.WellFormed P false := by
  match v with
  | .document entries =>
    obtain ⟨parts, hparts, rfl⟩ := parseObject_document h
    exact .conjoin (parseEntries_wellFormed hP entries (hP.document hv) hparts)
  | .null | .bool _ | .int32 _ | .int64 _ | .double _ | .decimal _ | .string _ | .array _
  | .foreign _ => cases h
termination_by sizeOf v

theorem parseEntries_wellFormed (hP : Hereditary P) {depth : Nat}
    (entries : List (String × Value)) (hentries : ∀ e ∈ entries, P e.2) {parts : List Selector}
    (h : parseEntries depth entries = .ok parts) : ∀ s ∈ parts, s.WellFormed P false := by
  match entries with
  | [] =>
    obtain rfl := Except.ok.inj h
    exact List.forall_mem_nil _
  | (key, operand) :: rest =>
    obtain ⟨part, others, hpart, hothers, rfl⟩ := parseEntries_cons h
    obtain ⟨hoperand, hrest⟩ := List.forall_mem_cons.mp hentries
    refine List.forall_mem_cons.mpr ⟨?_, parseEntries_wellFormed hP rest hrest hothers⟩
    cases hpart with
    | combine hkind hoperands hitems =>
      exact .combine (parseItems_wellFormed hP _ (hP.array hoperand) hitems)
    | not hchild => exact .not (parseObject_wellFormed hP _ hoperand hchild)
    | field hkey hpath hpart =>
      exact parseField_wellFormed hP (FieldPath.standsIn_of_parse hpath) _ hoperand hpart
termination_by sizeOf entries

theorem parseItems_wellFormed (hP : Hereditary P) {depth : Nat} (items : List Value)
    (hitems : ∀ v ∈ items, P v) {children : List Selector}
    (h : parseItems depth items = .ok children) : ∀ s ∈ children, s.WellFormed P false := by
  match items with
  | [] =>
    obtain rfl := Except.ok.inj h
    exact List.forall_mem_nil _
  | v :: rest =>
    obtain ⟨child, others, hchild, hothers, rfl⟩ := parseItems_cons h
    obtain ⟨hv, hrest⟩ := List.forall_mem_cons.mp hitems
    exact List.forall_mem_cons.mpr
      ⟨parseObject_wellFormed hP v hv hchild, parseItems_wellFormed hP rest hrest hothers⟩
termination_by sizeOf items

end

/-- Whatever is accepted is well formed, and its operands have what the whole value has. -/
theorem Selector.wellFormed_of_parse (hP : Hereditary P) {v : Value} (hv : P v) {s : Selector}
    (h : Selector.parse v = .ok s) : s.WellFormed P false :=
  parseObject_wellFormed hP v hv h

/-! ## Conjuncts -/

namespace Selector

theorem WellFormed.conjuncts {inElement : Bool} {s : Selector}
    (h : s.WellFormed P inElement) : ∀ part ∈ s.conjuncts, part.WellFormed P inElement := by
  induction h with
  | @combine _ kind children hchildren ih =>
    cases kind with
    | and =>
      intro part hpart
      obtain ⟨s, hs, hpart⟩ := mem_conjunctsOfAll.mp hpart
      exact ih s hs part hpart
    | or | nor => exact List.forall_mem_singleton.mpr (.combine hchildren)
  | not hchild _ => exact List.forall_mem_singleton.mpr (.not hchild)
  | field hpath htest => exact List.forall_mem_singleton.mpr (.field hpath htest)
  | elemMatch hpath hinner _ => exact List.forall_mem_singleton.mpr (.elemMatch hpath hinner)

theorem WellFormed.residual {s r : Selector} {used : List Nat} (h : s.WellFormed P false)
    (hr : (Constraints.ofSelector s).residual used = some r) : r.WellFormed P false := by
  obtain ⟨-, rfl⟩ := Constraints.residual_eq_some hr
  refine .conjoin fun part hpart => ?_
  obtain ⟨i, -, hi⟩ := Constraints.mem_unused.mp hpart
  exact h.conjuncts part (List.mem_of_getElem? hi)

end Selector

end DocFind
