import DocFind.Proofs.Refusal
import DocFind.Selector.Parse

/-!
# What the reader of selectors accepts

`FieldEntry` and `ObjectEntry` list the ways in which one entry of a raw selector is accepted, with
what is read from it. Whatever is to be shown of all accepted selectors is shown for these cases.
-/
namespace DocFind

variable {path : FieldPath} {depth : Nat} {key : String} {operand v : Value}
  {entry : String × Value} {entries rest : List (String × Value)} {items : List Value}
  {test : Test} {s : Selector} {parts children : List Selector}

theorem readPath_eq_ok : readPath key = .ok path ↔ FieldPath.parse key = .ok path := mapError_eq_ok

/-! ## Operands -/

theorem arrayOperand_eq_ok {op : String} :
    arrayOperand op operand = .ok items ↔ operand = .array items := by
  cases operand <;> simp [arrayOperand]

/-- The operands of a combinator are in order if all of them are mappings. -/
theorem checkOperands_eq_ok {op : String} :
    checkOperands op items = .ok () ↔ ∀ v ∈ items, ∃ entries, v = .document entries := by
  induction items with
  | nil => simp [checkOperands]
  | cons v rest ih => cases v <;> simp [checkOperands, ih]

/-- The names that can be asked for are those of all types but the last. -/
theorem TypeName.ofText?_eq_some {name : String} {type : TypeName}
    (h : TypeName.ofText? name = some type) : name = type.text ∧ type ≠ .other := by
  unfold TypeName.ofText? at h
  split at h <;> cases h <;> exact ⟨rfl, by decide⟩

theorem readTypeName_eq_ok (h : readTypeName operand = .ok test) :
    ∃ type, operand = .string (TypeName.text type) ∧ test = .hasType type ∧ type ≠ .other := by
  unfold readTypeName at h
  split at h
  · split at h
    · rename_i type htype
      cases h
      obtain ⟨htext, hother⟩ := TypeName.ofText?_eq_some htype
      exact ⟨type, by rw [htext], rfl, hother⟩
    · cases h
  · cases h

theorem readSize_eq_ok (h : readSize operand = .ok test) :
    ∃ n, operand.int? = some n ∧ 0 ≤ n.toInt ∧ test = .size n.toInt.toNat := by
  unfold readSize at h
  split at h
  · rename_i n hn
    split at h
    · rename_i hpos
      cases h
      exact ⟨n, hn, hpos, rfl⟩
    · cases h
  · cases h

theorem readDivision_eq_ok (h : readDivision operand = .ok test) :
    ∃ d r divisor remainder, operand = .array [d, r] ∧ d.int? = some divisor ∧
      r.int? = some remainder ∧ test = .modulo divisor remainder ∧ divisor ≠ 0 := by
  simp only [readDivision, bind_eq_ok, arrayOperand_eq_ok] at h
  obtain ⟨items, rfl, h⟩ := h
  split at h
  · rename_i d r
    split at h
    · rename_i divisor remainder hd hr
      split at h
      · cases h
      · rename_i hzero
        cases h
        exact ⟨d, r, divisor, remainder, rfl, hd, hr, rfl, hzero⟩
    · cases h
  · cases h

/-! ## The level of fields -/

/-- A key that is no operator leads to a field. -/
theorem Combinator.ofKey?_of_not_isOperatorKey (h : isOperatorKey key = false) :
    Combinator.ofKey? key = none := by
  unfold Combinator.ofKey?
  split <;> first | rfl | cases h

theorem isOperatorKey_of_ofKey? {kind : Combinator} (h : Combinator.ofKey? key = some kind) :
    isOperatorKey key = true := by
  cases hkey : isOperatorKey key with
  | true => rfl
  | false =>
    rw [Combinator.ofKey?_of_not_isOperatorKey hkey] at h
    cases h

theorem ne_of_not_isOperatorKey (h : isOperatorKey key = false) {op : String}
    (hop : isOperatorKey op = true) : key ≠ op := by
  rintro rfl
  rw [h] at hop
  cases hop

/-- The ways in which an entry at field level is read. -/
inductive FieldEntry (path : FieldPath) (depth : Nat) : String → Value → Selector → Prop
  | combine {key : String} {kind : Combinator} {items : List Value} {children : List Selector}
      (hkind : Combinator.ofKey? key = some kind) (hoperands : checkOperands key items = .ok ())
      (hitems : parseFieldItems path (depth + 1) items = .ok children) :
      FieldEntry path depth key (.array items) (.combine kind children)
  | not {entries : List (String × Value)} {child : Selector}
      (hchild : parseField path (depth + 1) (.document entries) = .ok child) :
      FieldEntry path depth "$not" (.document entries) (.not child)
  | elemMatch {entries : List (String × Value)} {inner : Selector}
      (hinner : parseField FieldPath.root (depth + 1) (.document entries) = .ok inner) :
      FieldEntry path depth "$elemMatch" (.document entries) (.elemMatch path inner)
  | test {op : String} {operand : Value} {test : Test} (hop : isOperatorKey op = true)
      (hcombinator : Combinator.ofKey? op = none) (hnot : op ≠ "$not") (helem : op ≠ "$elemMatch")
      (htest : readTest op operand = .ok test) :
      FieldEntry path depth op operand (.field path test)
  | below {key : String} {operand : Value} {below : FieldPath} {part : Selector}
      (hkey : isOperatorKey key = false) (hpath : FieldPath.parse key = .ok below)
      (hpart : parseField (path.join below) (depth + 1) operand = .ok part) :
      FieldEntry path depth key operand part

/-- Entries at field level are read one by one. -/
theorem parseFieldEntries_cons
    (h : parseFieldEntries path depth ((key, operand) :: rest) = .ok parts) :
    ∃ part others, FieldEntry path depth key operand part ∧
      parseFieldEntries path depth rest = .ok others ∧ parts = part :: others := by
  unfold parseFieldEntries at h
  simp only at h
  split at h
  · rename_i hop
    split at h
    · rename_i kind hkind
      split at h
      · simp only [bind_eq_ok, Except.ok.injEq] at h
        obtain ⟨_, hoperands, children, hitems, _, rfl, others, hothers, rfl⟩ := h
        exact ⟨_, others, .combine hkind hoperands hitems, hothers, rfl⟩
      · cases h
    · rename_i hkind
      split at h
      · rename_i hnot
        subst hnot
        split at h
        · simp only [bind_eq_ok, Except.ok.injEq] at h
          obtain ⟨child, hchild, _, rfl, others, hothers, rfl⟩ := h
          exact ⟨_, others, .not hchild, hothers, rfl⟩
        · cases h
      · rename_i hnot
        split at h
        · rename_i helem
          subst helem
          split at h
          · simp only [bind_eq_ok, Except.ok.injEq] at h
            obtain ⟨inner, hinner, _, rfl, others, hothers, rfl⟩ := h
            exact ⟨_, others, .elemMatch hinner, hothers, rfl⟩
          · cases h
        · rename_i helem
          simp only [bind_eq_ok, map_eq_ok, Except.ok.injEq] at h
          obtain ⟨_, ⟨test, htest, rfl⟩, others, hothers, rfl⟩ := h
          exact ⟨_, others, .test hop hkind hnot helem htest, hothers, rfl⟩
  · rename_i hkey
    simp only [bind_eq_ok, readPath_eq_ok, Except.ok.injEq] at h
    obtain ⟨below, hpath, part, hpart, others, hothers, rfl⟩ := h
    exact ⟨part, others, .below (Bool.eq_false_iff.mpr hkey) hpath hpart, hothers, rfl⟩

/-- What can be read of an entry is what is read of it, ahead of the other entries. -/
theorem FieldEntry.parseFieldEntries {part : Selector} {others : List Selector}
    (hentry : FieldEntry path depth key operand part)
    (hrest : parseFieldEntries path depth rest = .ok others) :
    parseFieldEntries path depth ((key, operand) :: rest) = .ok (part :: others) := by
  unfold DocFind.parseFieldEntries
  cases hentry with
  | combine hkind hoperands hitems =>
    simp only [isOperatorKey_of_ofKey? hkind, hkind, hoperands, hitems, hrest, ok_bind, if_true]
  | not hchild => simp [isOperatorKey, Combinator.ofKey?, hchild, hrest, ok_bind]
  | elemMatch hinner => simp [isOperatorKey, Combinator.ofKey?, hinner, hrest, ok_bind]
  | test hop hcombinator hnot helem htest =>
    simp only [hop, hcombinator, if_neg hnot, if_neg helem, htest, hrest, Except.map, ok_bind,
      if_true]
  | below hkey hpath hpart =>
    simp only [hkey, readPath_eq_ok.mpr hpath, hpart, hrest, ok_bind, Bool.false_eq_true, if_false]

theorem parseFieldItems_cons (h : parseFieldItems path depth (v :: items) = .ok children) :
    ∃ child others, parseField path depth v = .ok child ∧
      parseFieldItems path depth items = .ok others ∧ children = child :: others := by
  simp only [parseFieldItems, bind_eq_ok, Except.ok.injEq] at h
  obtain ⟨child, hchild, others, hothers, rfl⟩ := h
  exact ⟨child, others, hchild, hothers, rfl⟩

theorem parseField_document (h : parseField path depth (.document (entry :: entries)) = .ok s) :
    ∃ parts, parseFieldEntries path depth (entry :: entries) = .ok parts ∧
      s = Selector.conjoin parts := by
  simp only [parseField, bind_eq_ok, pure, Except.pure, Except.ok.injEq] at h
  obtain ⟨_, -, parts, hparts, rfl⟩ := h
  exact ⟨parts, hparts, rfl⟩

/-- A value that is no mapping, or an empty one, asks for equality. -/
theorem parseField_of_plain (path : FieldPath) (depth : Nat)
    (hplain : ∀ entry entries, v ≠ .document (entry :: entries)) :
    parseField path depth v = (do
      checkDepth depth
      return .field path (.compare .eq v)) := by
  unfold parseField
  split
  · exact absurd rfl (hplain _ _)
  · rfl
  · rfl

theorem parseField_plain (hplain : ∀ entry entries, v ≠ .document (entry :: entries))
    (h : parseField path depth v = .ok s) : s = .field path (.compare .eq v) := by
  rw [parseField_of_plain path depth hplain] at h
  simp only [bind_eq_ok, pure, Except.pure, Except.ok.injEq] at h
  obtain ⟨_, -, rfl⟩ := h
  rfl

/-! ## The level of selectors -/

/-- The ways in which an entry at the level of selectors is read. -/
inductive ObjectEntry (depth : Nat) : String → Value → Selector → Prop
  | combine {key : String} {kind : Combinator} {items : List Value} {children : List Selector}
      (hkind : Combinator.ofKey? key = some kind) (hoperands : checkOperands key items = .ok ())
      (hitems : parseItems (depth + 1) items = .ok children) :
      ObjectEntry depth key (.array items) (.combine kind children)
  | not {entries : List (String × Value)} {child : Selector}
      (hchild : parseObject (depth + 1) (.document entries) = .ok child) :
      ObjectEntry depth "$not" (.document entries) (.not child)
  | field {key : String} {operand : Value} {path : FieldPath} {part : Selector}
      (hkey : isOperatorKey key = false) (hpath : FieldPath.parse key = .ok path)
      (hpart : parseField path (depth + 1) operand = .ok part) :
      ObjectEntry depth key operand part

/-- Entries at the level of selectors are read one by one. -/
theorem parseEntries_cons (h : parseEntries depth ((key, operand) :: rest) = .ok parts) :
    ∃ part others, ObjectEntry depth key operand part ∧
      parseEntries depth rest = .ok others ∧ parts = part :: others := by
  unfold parseEntries at h
  simp only at h
  split at h
  · rename_i kind hkind
    split at h
    · simp only [bind_eq_ok, Except.ok.injEq] at h
      obtain ⟨_, hoperands, children, hitems, _, rfl, others, hothers, rfl⟩ := h
      exact ⟨_, others, .combine hkind hoperands hitems, hothers, rfl⟩
    · cases h
  · split at h
    · rename_i hnot
      subst hnot
      split at h
      · simp only [bind_eq_ok, Except.ok.injEq] at h
        obtain ⟨child, hchild, _, rfl, others, hothers, rfl⟩ := h
        exact ⟨_, others, .not hchild, hothers, rfl⟩
      · cases h
    · split at h
      · cases h
      · rename_i hkey
        simp only [bind_eq_ok, readPath_eq_ok, Except.ok.injEq] at h
        obtain ⟨path, hpath, part, hpart, others, hothers, rfl⟩ := h
        exact ⟨part, others, .field (Bool.eq_false_iff.mpr hkey) hpath hpart, hothers, rfl⟩

/-- What can be read of an entry is what is read of it, ahead of the other entries. -/
theorem ObjectEntry.parseEntries {part : Selector} {others : List Selector}
    (hentry : ObjectEntry depth key operand part)
    (hrest : parseEntries depth rest = .ok others) :
    parseEntries depth ((key, operand) :: rest) = .ok (part :: others) := by
  unfold DocFind.parseEntries
  cases hentry with
  | combine hkind hoperands hitems =>
    simp only [hkind, hoperands, hitems, hrest, ok_bind]
  | not hchild => simp [Combinator.ofKey?, hchild, hrest, ok_bind]
  | field hkey hpath hpart =>
    have hnot : key ≠ "$not" := ne_of_not_isOperatorKey hkey rfl
    simp only [Combinator.ofKey?_of_not_isOperatorKey hkey, if_neg hnot, hkey,
      readPath_eq_ok.mpr hpath, hpart, hrest, ok_bind, Bool.false_eq_true, if_false]

theorem parseItems_cons (h : parseItems depth (v :: items) = .ok children) :
    ∃ child others, parseObject depth v = .ok child ∧
      parseItems depth items = .ok others ∧ children = child :: others := by
  simp only [parseItems, bind_eq_ok, Except.ok.injEq] at h
  obtain ⟨child, hchild, others, hothers, rfl⟩ := h
  exact ⟨child, others, hchild, hothers, rfl⟩

theorem parseObject_document (h : parseObject depth (.document entries) = .ok s) :
    ∃ parts, parseEntries depth entries = .ok parts ∧ s = Selector.conjoin parts := by
  simp only [parseObject, bind_eq_ok, pure, Except.pure, Except.ok.injEq] at h
  obtain ⟨_, -, parts, hparts, rfl⟩ := h
  exact ⟨parts, hparts, rfl⟩

end DocFind
