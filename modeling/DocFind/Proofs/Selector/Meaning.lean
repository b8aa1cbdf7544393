import DocFind.Proofs.FieldPath.Join
import DocFind.Proofs.Selector.Conjuncts
import DocFind.Proofs.Selector.Parse

/-!
# The meaning of raw selectors

A raw selector is read straight from its value, without paths that are joined, conjunctions that are
made or elements that become targets of their own: a key leads on from the value, or from nothing,
that is in hand, and its operand is read of what is found there. A parsed selector holds of just the
documents of which the raw one does.
-/
namespace DocFind

/-- Whether a combination holds, from whether each of its operands does. -/
def Combinator.joins : Combinator → List Bool → Bool
  | and, outcomes => outcomes.all id
  | or, outcomes => outcomes.any id
  | nor, outcomes => !outcomes.any id

namespace RawSelector

/-- Whether an operator whose operand holds no selector holds of what was found. -/
def operatorHolds (op : String) (operand : Value) (found : Option Value) : Bool :=
  match op, operand with
  | "$eq", v => found.any fun x => x.same v
  | "$ne", v => !found.any fun x => x.same v
  | "$gt", v => found.any fun x => x.cmp v == .gt
  | "$gte", v => found.any fun x => x.cmp v != .lt
  | "$lt", v => found.any fun x => x.cmp v == .lt
  | "$lte", v => found.any fun x => x.cmp v != .gt
  | "$exists", .bool wanted => found.isSome == wanted
  | "$type", .string name => found.any fun x => x.typeName.text == name
  | "$in", .array values => found.any fun x => values.any fun v => x.same v
  | "$nin", .array values => !found.any fun x => values.any fun v => x.same v
  | "$all", .array values =>
    match found with
    | some (.array items) => !values.isEmpty && values.all fun v => items.any fun x => x.same v
    | _ => false
  | "$size", n =>
    match found with
    | some (.array items) => n.int?.map Int64.toInt == some (items.length : Int)
    | _ => false
  | "$mod", .array [divisor, remainder] =>
    match found.bind Value.int?, divisor.int?, remainder.int? with
    | some n, some d, some r => remainder? n d == some r.toInt
    | _, _, _ => false
  | _, _ => false

mutual

/-- Whether a value at field level holds of what was found. -/
def fieldHolds (found : Option Value) (v : Value) : Bool :=
  match v with
  | .document (entry :: entries) => fieldEntriesHold found (entry :: entries)
  | v => found.any fun x => x.same v
termination_by structural v

def fieldEntriesHold (found : Option Value) (entries : List (String × Value)) : Bool :=
  match entries with
  | [] => true
  | (key, operand) :: rest =>
    (match Combinator.ofKey? key with
    | some kind =>
      match operand with
      | .array items => kind.joins (fieldItemsHold found items)
      | _ => false
    | none =>
      if key = "$not" then !fieldHolds found operand
      else if key = "$elemMatch" then
        match found with
        | some (.array elements) => elements.any fun x => fieldHolds (some x) operand
        | _ => false
      else if isOperatorKey key then operatorHolds key operand found
      else
        match FieldPath.parse key with
        | .ok below => fieldHolds (found.bind fun x => x.resolve? below) operand
        | .error _ => false) && fieldEntriesHold found rest
termination_by structural entries

def fieldItemsHold (found : Option Value) (items : List Value) : List Bool :=
  match items with
  | [] => []
  | v :: rest => fieldHolds found v :: fieldItemsHold found rest
termination_by structural items

end

mutual

/-- Whether a value at the level of selectors holds of a value. -/
def holds (x : Value) (v : Value) : Bool :=
  match v with
  | .document entries => entriesHold x entries
  | _ => false
termination_by structural v

def entriesHold (x : Value) (entries : List (String × Value)) : Bool :=
  match entries with
  | [] => true
  | (key, operand) :: rest =>
    (match Combinator.ofKey? key with
    | some kind =>
      match operand with
      | .array items => kind.joins (itemsHold x items)
      | _ => false
    | none =>
      if key = "$not" then !holds x operand
      else
        match FieldPath.parse key with
        | .ok path => fieldHolds (x.resolve? path) operand
        | .error _ => false) && entriesHold x rest
termination_by structural entries

def itemsHold (x : Value) (items : List Value) : List Bool :=
  match items with
  | [] => []
  | v :: rest => holds x v :: itemsHold x rest
termination_by structural items

end

/-! ## Operators -/

variable {op : String} {operand : Value} {test : Test}

theorem hasType_holds (type : TypeName) (found : Option Value) :
    (Test.hasType type).holds found = operatorHolds "$type" (.string type.text) found := by
  cases found with
  | none => rfl
  | some x =>
    have htext : (x.typeName == type) = (x.typeName.text == type.text) := by
      cases x.typeName <;> cases type <;> rfl
    exact htext

theorem allOf_holds (values : List Value) (found : Option Value) :
    (Test.allOf values).holds found = operatorHolds "$all" (.array values) found := by
  cases found with
  | none => rfl
  | some x => cases x <;> rfl

theorem size_holds {n : Int64} (hn : operand.int? = some n) (hpos : 0 ≤ n.toInt)
    (found : Option Value) :
    (Test.size n.toInt.toNat).holds found = operatorHolds "$size" operand found := by
  cases found with
  | none => rfl
  | some x =>
    cases x with
    | array items =>
      rw [Bool.eq_iff_iff]
      simp only [Test.holds, operatorHolds, hn, Option.map_some, beq_iff_eq, Option.some.injEq]
      omega
    | _ => rfl

theorem modulo_holds {d r : Value} {divisor remainder : Int64} (hd : d.int? = some divisor)
    (hr : r.int? = some remainder) (found : Option Value) :
    (Test.modulo divisor remainder).holds found =
      operatorHolds "$mod" (.array [d, r]) found := by
  cases hn : found.bind Value.int? <;> simp [Test.holds, operatorHolds, hn, hd, hr]

theorem operatorHolds_none : operatorHolds op operand none = true ↔
    op = "$ne" ∨ (op = "$nin" ∧ ∃ values, operand = .array values) ∨
      (op = "$exists" ∧ operand = .bool false) := by
  constructor
  · intro h
    unfold operatorHolds at h
    split at h <;> simp_all
  · rintro (rfl | ⟨rfl, values, rfl⟩ | ⟨rfl, rfl⟩) <;> rfl

/-- Of a missing value just the tests of absence hold. -/
theorem operator_of_missing (key : String) (operand : Value) (hkey : isOperatorKey key = true)
    (hkind : Combinator.ofKey? key = none) (hnot : key ≠ "$not") :
    fieldHolds none (.document [(key, operand)]) = true ↔
      key = "$ne" ∨ (key = "$nin" ∧ ∃ values, operand = .array values) ∨
        (key = "$exists" ∧ operand = .bool false) := by
  rw [← operatorHolds_none, fieldHolds]
  unfold fieldEntriesHold
  by_cases helem : key = "$elemMatch"
  · subst helem
    rfl
  · simp [hkey, hkind, hnot, helem, fieldEntriesHold]

/-- A test that is read from an operator holds just where the operator does. -/
theorem readTest_holds (h : readTest op operand = .ok test) (found : Option Value) :
    test.holds found = operatorHolds op operand found := by
  unfold readTest at h
  split at h
  · rename_i comparison hcomparison
    obtain rfl := Except.ok.inj h
    unfold Comparison.ofKey? at hcomparison
    split at hcomparison
    case h_7 => cases hcomparison
    all_goals
      obtain rfl := Option.some.inj hcomparison
      cases found <;> rfl
  · split at h
    · split at h
      · cases h
        rfl
      · cases h
    · obtain ⟨type, rfl, rfl, -⟩ := readTypeName_eq_ok h
      exact hasType_holds type found
    · simp only [map_eq_ok, arrayOperand_eq_ok] at h
      obtain ⟨items, rfl, rfl⟩ := h
      rfl
    · simp only [map_eq_ok, arrayOperand_eq_ok] at h
      obtain ⟨items, rfl, rfl⟩ := h
      cases found <;> rfl
    · simp only [map_eq_ok, arrayOperand_eq_ok] at h
      obtain ⟨items, rfl, rfl⟩ := h
      exact allOf_holds items found
    · obtain ⟨n, hn, hpos, rfl⟩ := readSize_eq_ok h
      exact size_holds hn hpos found
    · obtain ⟨d, r, divisor, remainder, rfl, hd, hr, rfl, -⟩ := readDivision_eq_ok h
      exact modulo_holds hd hr found
    · cases h
    · cases h

end RawSelector

/-! ## Parsed selectors -/

namespace Selector

theorem holdsAny_eq_any (t : Target) (parts : List Selector) :
    holdsAny t parts = parts.any fun s => s.holds t := by
  induction parts with
  | nil => rfl
  | cons s rest ih => rw [holdsAny, List.any_cons, ih]

theorem combine_holds (t : Target) (kind : Combinator) (children : List Selector) :
    (combine kind children).holds t = kind.joins (children.map fun s => s.holds t) := by
  cases kind with
  | and => simp [holds, Combinator.joins, holdsAll_eq_all]
  | or => simp [holds, Combinator.joins, holdsAny_eq_any]
  | nor => simp [holds, Combinator.joins, holdsAny_eq_any]

end Selector

namespace RawSelector

mutual

theorem parseField_holds {t : Target} {path : FieldPath} (ht : t.Addresses path) {depth : Nat}
    (v : Value) {s : Selector} (h : parseField path depth v = .ok s) :
    s.holds t = fieldHolds (t.get? path) v := by
  -- The induction is on the raw value. The target stays and the path grows, but for the operands of
  -- `$elemMatch`, where every element is a target of its own and the path starts anew.
  match v with
  | .document (entry :: entries) =>
    obtain ⟨parts, hparts, rfl⟩ := parseField_document h
    rw [Selector.conjoin_holds, parseFieldEntries_holds ht _ hparts, fieldHolds]
  | .document [] | .null | .bool _ | .int32 _ | .int64 _ | .double _ | .decimal _ | .string _
  | .array _ | .foreign _ =>
    obtain rfl := parseField_plain (by simp) h
    rfl
termination_by sizeOf v

theorem parseFieldEntries_holds {t : Target} {path : FieldPath} (ht : t.Addresses path)
    {depth : Nat} (entries : List (String × Value)) {parts : List Selector}
    (h : parseFieldEntries path depth entries = .ok parts) :
    (parts.all fun s => s.holds t) = fieldEntriesHold (t.get? path) entries := by
  match entries with
  | [] =>
    obtain rfl := Except.ok.inj h
    rfl
  | (key, operand) :: rest =>
    obtain ⟨part, others, hpart, hothers, rfl⟩ := parseFieldEntries_cons h
    unfold fieldEntriesHold
    rw [List.all_cons, parseFieldEntries_holds ht rest hothers]
    congr 1
    cases hpart with
    | combine hkind hoperands hitems =>
      rw [Selector.combine_holds, parseFieldItems_holds ht _ hitems, hkind]
    | not hchild =>
      have hchild := parseField_holds ht _ hchild
      simp [Selector.holds, hchild, Combinator.ofKey?]
    | elemMatch hinner =>
      rename_i entries inner
      have helement : (fun x => inner.holds (.element x)) =
          fun x => fieldHolds (some x) (.document entries) :=
        funext fun x => parseField_holds (Target.addresses_root x) _ hinner
      rw [Selector.holds, helement]
      rfl
    | test hop hcombinator hnot helem htest =>
      simp [Selector.holds, readTest_holds htest, hop, hcombinator, hnot, helem]
    | below hkey hpath hpart =>
      have hbelow := parseField_holds (ht.join _) _ hpart
      rw [ht.get?_join] at hbelow
      have hnot : key ≠ "$not" := ne_of_not_isOperatorKey hkey rfl
      have helem : key ≠ "$elemMatch" := ne_of_not_isOperatorKey hkey rfl
      simp [hbelow, hpath, hkey, Combinator.ofKey?_of_not_isOperatorKey hkey, hnot, helem]
termination_by sizeOf entries

theorem parseFieldItems_holds {t : Target} {path : FieldPath} (ht : t.Addresses path)
    {depth : Nat} (items : List Value) {children : List Selector}
    (h : parseFieldItems path depth items = .ok children) :
    (children.map fun s => s.holds t) = fieldItemsHold (t.get? path) items := by
  match items with
  | [] =>
    obtain rfl := Except.ok.inj h
    rfl
  | v :: rest =>
    obtain ⟨child, others, hchild, hothers, rfl⟩ := parseFieldItems_cons h
    rw [List.map_cons, parseField_holds ht _ hchild, parseFieldItems_holds ht _ hothers,
      fieldItemsHold]
termination_by sizeOf items

end

mutual

theorem parseObject_holds (t : Target) {depth : Nat} (v : Value) {s : Selector}
    (h : parseObject depth v = .ok s) : s.holds t = holds t.value v := by
  match v with
  | .document entries =>
    obtain ⟨parts, hparts, rfl⟩ := parseObject_document h
    rw [Selector.conjoin_holds, parseEntries_holds t entries hparts, holds]
  | .null | .bool _ | .int32 _ | .int64 _ | .double _ | .decimal _ | .string _ | .array _
  | .foreign _ => cases h
termination_by sizeOf v

theorem parseEntries_holds (t : Target) {depth : Nat} (entries : List (String × Value))
    {parts : List Selector} (h : parseEntries depth entries = .ok parts) :
    (parts.all fun s => s.holds t) = entriesHold t.value entries := by
  match entries with
  | [] =>
    obtain rfl := Except.ok.inj h
    rfl
  | (key, operand) :: rest =>
    obtain ⟨part, others, hpart, hothers, rfl⟩ := parseEntries_cons h
    unfold entriesHold
    rw [List.all_cons, parseEntries_holds t rest hothers]
    congr 1
    cases hpart with
    | combine hkind hoperands hitems =>
      rw [Selector.combine_holds, parseItems_holds t _ hitems, hkind]
    | not hchild =>
      have hchild := parseObject_holds t _ hchild
      simp [Selector.holds, hchild, Combinator.ofKey?]
    | field hkey hpath hpart =>
      have haddresses := t.addresses_of_parse hpath
      have hfield := parseField_holds haddresses _ hpart
      rw [haddresses.get?_eq] at hfield
      have hnot : key ≠ "$not" := ne_of_not_isOperatorKey hkey rfl
      simp [hfield, hpath, Combinator.ofKey?_of_not_isOperatorKey hkey, hnot]
termination_by sizeOf entries

theorem parseItems_holds (t : Target) {depth : Nat} (items : List Value)
    {children : List Selector} (h : parseItems depth items = .ok children) :
    (children.map fun s => s.holds t) = itemsHold t.value items := by
  match items with
  | [] =>
    obtain rfl := Except.ok.inj h
    rfl
  | v :: rest =>
    obtain ⟨child, others, hchild, hothers, rfl⟩ := parseItems_cons h
    rw [List.map_cons, parseObject_holds t _ hchild, parseItems_holds t _ hothers, itemsHold]
termination_by sizeOf items

end

end RawSelector

/-- A parsed selector means what the raw one says; of a missing value just the operators that ask
for absence hold. -/
theorem Selector.parse_meaning {v : Value} {s : Selector} (h : Selector.parse v = .ok s) :
    (∀ body, s.accepts body = RawSelector.holds (.document body) v) ∧
      ∀ key operand, isOperatorKey key = true → Combinator.ofKey? key = none → key ≠ "$not" →
        (RawSelector.fieldHolds none (.document [(key, operand)]) = true ↔
          key = "$ne" ∨ (key = "$nin" ∧ ∃ values, operand = .array values) ∨
            (key = "$exists" ∧ operand = .bool false)) :=
  ⟨fun body => RawSelector.parseObject_holds (.body body) v h,
    fun key operand => RawSelector.operator_of_missing key operand⟩

theorem Selector.parse_meaning_nested :
    let v : Value := .document
      [("a", .document [("b.0", .document [("$ne", .int32 3)])]),
        ("$nor", .array [.document [("c", .document
          [("$elemMatch", .document [("$gt", .int32 1)])])]])]
    let s : Selector := .combine .and
      [.field ⟨["a", "b", "0"]⟩ (.compare .ne (.int32 3)),
        .combine .nor [.elemMatch ⟨["c"]⟩ (.field .root (.compare .gt (.int32 1)))]]
    Selector.parse v = .ok s ∧ (∀ body, s.accepts body = RawSelector.holds (.document body) v) ∧
      RawSelector.fieldHolds none (.document [("$nin", .array [.null])]) = true := by
  intro v s
  have hmeaning := Selector.parse_meaning (show Selector.parse v = .ok s from rfl)
  refine ⟨rfl, hmeaning.1, ?_⟩
  exact (hmeaning.2 "$nin" _ rfl rfl (by decide)).mpr (.inr (.inl ⟨rfl, _, rfl⟩))

end DocFind
