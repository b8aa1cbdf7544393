import DocFind.Proofs.Selector.SingleEntry
import DocFind.Proofs.Selector.WellFormed
import DocFind.Proofs.Value.ReadBack
import Mathlib

/-!
# Normalized selectors read back

The normalized form of a selector is read back as the selector, with two limits, the depth of
selectors and the length of paths, if no path in it begins like an operator. A path that does is
taken for the operator: the form says nothing of where a dollar sign belongs to a field.
-/
namespace DocFind

/-! ## Paths and depth of a selector -/

/-- How much deeper than its own object the test of a path is read. -/
def FieldPath.labelDepth (path : FieldPath) : Nat := if path.isRoot then 0 else 1

namespace Selector

mutual

/-- The paths of a selector and of the selectors inside it. -/
def paths : Selector → List FieldPath
  | combine _ children => pathsAll children
  | not child => child.paths
  | field path _ => [path]
  | elemMatch path inner => path :: inner.paths

def pathsAll : List Selector → List FieldPath
  | [] => []
  | s :: rest => s.paths ++ pathsAll rest

end

mutual

/-- How much deeper than a selector its normalized form is read. -/
def nesting : Selector → Nat
  | combine _ children => nestingAll children
  | not child => child.nesting + 1
  | field path _ => path.labelDepth
  | elemMatch path inner => path.labelDepth + 1 + inner.nesting

def nestingAll : List Selector → Nat
  | [] => 0
  | s :: rest => max (s.nesting + 1) (nestingAll rest)

end

/-- Whether a selector asks for something at a path. -/
def IsAt (path : FieldPath) : Selector → Prop
  | field p _ | elemMatch p _ => p = path
  | _ => False

theorem isAt_field (path : FieldPath) (test : Test) : (field path test).IsAt path := rfl

theorem isAt_elemMatch (path : FieldPath) (inner : Selector) :
    (elemMatch path inner).IsAt path := rfl

end Selector

/-! ## Operands and tests -/

theorem Value.hereditary_canonical : Hereditary Canonical where
  array h := by
    cases h with
    | array hitems => exact hitems
  document h := by
    cases h with
    | document _ hentries => exact hentries

theorem Comparison.testKey (op : Comparison) : TestKey op.key := by
  cases op <;> exact ⟨rfl, rfl, by decide, by decide⟩

theorem Comparison.ofKey?_key (op : Comparison) : Comparison.ofKey? op.key = some op := by
  cases op <;> rfl

theorem readTypeName_text {type : TypeName} (h : type ≠ .other) :
    readTypeName (.string type.text) = .ok (.hasType type) := by
  cases type with
  | other => exact absurd rfl h
  | _ => rfl

theorem readSize_ofInt {n : Nat} (h : n < 0x8000000000000000) :
    readSize (.ofInt n) = .ok (.size n) := by
  have hword : (Int64.ofInt n).toInt = n := Int64.toInt_ofInt_of_le (by omega) (by omega)
  have hint := Value.int?_ofInt_toInt (Int64.ofInt n)
  rw [hword] at hint
  rw [readSize, hint]
  simp [hword]

theorem readDivision_ofInt {divisor : Int64} (h : divisor ≠ 0) (remainder : Int64) :
    readDivision (.array [.ofInt divisor.toInt, .ofInt remainder.toInt]) =
      .ok (.modulo divisor remainder) := by
  have hitems (items : List Value) : (arrayOperand "$mod" (.array items)) = .ok items := rfl
  rw [readDivision, hitems]
  simp only [bind, Except.bind, Value.int?_ofInt_toInt, if_neg h]

/-- The normalized form of a test is an object with its operator, which is read back as the test. -/
theorem Test.WellFormed.readTest_toJson {t : Test} (h : t.WellFormed Value.Canonical) :
    ∃ op operand, t.toJson = Json.singleton op operand ∧ TestKey op ∧
      readTest op (Value.ofJson operand) = .ok t := by
  cases t with
  | compare op v =>
    refine ⟨op.key, v.toJson, rfl, op.testKey, ?_⟩
    rw [Value.Canonical.ofJson_toJson h]
    unfold readTest
    rw [op.ofKey?_key]
  | present wanted => exact ⟨"$exists", _, rfl, ⟨rfl, rfl, by decide, by decide⟩, rfl⟩
  | hasType name =>
    exact ⟨"$type", _, rfl, ⟨rfl, rfl, by decide, by decide⟩, readTypeName_text h⟩
  | oneOf values =>
    refine ⟨"$in", _, rfl, ⟨rfl, rfl, by decide, by decide⟩, ?_⟩
    rw [Value.ofJson, Value.ofJsonItems_toJsonItems h]
    rfl
  | noneOf values =>
    refine ⟨"$nin", _, rfl, ⟨rfl, rfl, by decide, by decide⟩, ?_⟩
    rw [Value.ofJson, Value.ofJsonItems_toJsonItems h]
    rfl
  | size n =>
    rw [WellFormed] at h
    have hread (v : Value) : readTest "$size" v = readSize v := rfl
    exact ⟨"$size", .ofNat n, rfl, ⟨rfl, rfl, by decide, by decide⟩,
      (hread _).trans (readSize_ofInt h)⟩
  | modulo divisor remainder =>
    exact ⟨"$mod", _, rfl, ⟨rfl, rfl, by decide, by decide⟩, readDivision_ofInt h remainder⟩
  | allOf values =>
    refine ⟨"$all", _, rfl, ⟨rfl, rfl, by decide, by decide⟩, ?_⟩
    rw [Value.ofJson, Value.ofJsonItems_toJsonItems h]
    rfl

/-! ## Labels -/

namespace FieldPath

variable {path : FieldPath}

/-- As a key the path is read back. -/
structure ReadsBack (path : FieldPath) : Prop where
  plain : ¬ path.LikeOperator
  short : path.segments.length ≤ maxSegments

instance : Decidable path.ReadsBack :=
  decidable_of_iff (¬ path.LikeOperator ∧ path.segments.length ≤ maxSegments)
    ⟨fun h => ⟨h.1, h.2⟩, fun h => ⟨h.plain, h.short⟩⟩

theorem readsBack_root : root.ReadsBack := by
  refine ⟨?_, Nat.zero_le _⟩
  rintro ⟨segment, hsegment, -⟩
  cases hsegment

theorem eq_root (h : path.isRoot = true) : path = root := by
  obtain ⟨segments⟩ := path
  simpa [isRoot, root] using h

theorem StandsIn.hasSegments {inElement : Bool} (h : path.StandsIn inElement)
    (hroot : path.isRoot = false) : path.HasSegments :=
  ⟨fun hnil => by simp [isRoot, hnil] at hroot, h.segments⟩

end FieldPath

theorem readPath_text {path : FieldPath} (h : path.HasSegments) : readPath path.text =
    if FieldPath.maxSegments < path.segments.length then
      .error (.invalidFieldPath (.tooDeep path.text))
    else .ok path := by
  rw [readPath, h.parse_text]
  split_ifs <;> rfl

/-- A key that is taken for an operator yields no test at a path that has segments. -/
theorem isRoot_of_readAt {inElement : Bool} {depth : Nat} {key : String} {operand : Value}
    {s : Selector} (hkey : isOperatorKey key = true)
    (h : readAt inElement depth (.document [(key, operand)]) = .ok s) {path : FieldPath}
    (hs : s.IsAt path) : path.isRoot = true := by
  cases inElement with
  | false =>
    obtain ⟨parts, hparts, rfl⟩ := parseObject_document h
    obtain ⟨part, others, hpart, hothers, rfl⟩ := parseEntries_cons hparts
    obtain rfl := Except.ok.inj hothers
    cases hpart with
    | combine => cases hs
    | not => cases hs
    | field hplain =>
      rw [hkey] at hplain
      cases hplain
  | true =>
    obtain ⟨parts, hparts, rfl⟩ := parseField_document h
    obtain ⟨part, others, hpart, hothers, rfl⟩ := parseFieldEntries_cons hparts
    obtain rfl := Except.ok.inj hothers
    cases hpart with
    | combine => cases hs
    | not => cases hs
    | elemMatch =>
      obtain rfl : FieldPath.root = path := hs
      rfl
    | test =>
      obtain rfl : FieldPath.root = path := hs
      rfl
    | below hplain =>
      rw [hkey] at hplain
      cases hplain

section

variable {path : FieldPath} {inElement : Bool} {depth : Nat} {j : Json} {s : Selector}

theorem readAt_label_root (hpath : path.StandsIn inElement) (hroot : path.isRoot = true) :
    readAt inElement depth (Value.ofJson (path.label j)) =
      parseField path depth (Value.ofJson j) := by
  obtain rfl := hpath.root hroot
  obtain rfl := FieldPath.eq_root hroot
  rfl

theorem ofJson_label (hroot : path.isRoot = false) :
    Value.ofJson (path.label j) = .document [(path.text, Value.ofJson j)] := by
  rw [FieldPath.label, hroot]
  rfl

/-- Below a path that is no operator as a key, what comes next is the length of the path. -/
theorem readAt_label_below (hpath : path.StandsIn inElement) (hroot : path.isRoot = false)
    (hplain : ¬ path.LikeOperator) :
    readAt inElement depth (Value.ofJson (path.label j)) = (do
      checkDepth depth
      if FieldPath.maxSegments < path.segments.length then
        .error (.invalidFieldPath (.tooDeep path.text))
      else parseField path (depth + 1) (Value.ofJson j)) := by
  have hsegments := hpath.hasSegments hroot
  have hkey : isOperatorKey path.text = false :=
    Bool.eq_false_iff.mpr (hsegments.isOperatorKey_text_iff.not.mpr hplain)
  rw [ofJson_label hroot, readAt_path inElement depth hkey, readPath_text hsegments]
  split_ifs <;> rfl

theorem labelDepth_of_not_isRoot (hroot : path.isRoot = false) : path.labelDepth = 1 := by
  rw [FieldPath.labelDepth, hroot]
  rfl

/-- Below its path a test is read back if the path is. -/
theorem readAt_label_eq_ok (hpath : path.StandsIn inElement) (hs : s.IsAt path) :
    readAt inElement depth (Value.ofJson (path.label j)) = .ok s ↔
      path.ReadsBack ∧ parseField path (depth + path.labelDepth) (Value.ofJson j) = .ok s := by
  cases hroot : path.isRoot with
  | true =>
    rw [readAt_label_root hpath hroot, FieldPath.labelDepth, if_pos hroot, Nat.add_zero]
    obtain rfl := FieldPath.eq_root hroot
    exact (and_iff_right FieldPath.readsBack_root).symm
  | false =>
    rw [labelDepth_of_not_isRoot hroot]
    by_cases hplain : path.LikeOperator
    · refine iff_of_false (fun h => ?_) fun h => h.1.plain hplain
      have hkey := (hpath.hasSegments hroot).isOperatorKey_text_iff.mpr hplain
      rw [ofJson_label hroot] at h
      rw [isRoot_of_readAt hkey h hs] at hroot
      cases hroot
    · rw [readAt_label_below hpath hroot hplain]
      split_ifs with hlong
      · refine iff_of_false (fun h => ?_) fun h => absurd h.1.short (by omega)
        simp at h
      · simp only [bind_eq_ok, checkDepth_eq_ok]
        constructor
        · rintro ⟨_, -, h⟩
          exact ⟨⟨hplain, by omega⟩, h⟩
        · rintro ⟨-, h⟩
          have hdepth := depth_le_of_parseField h
          exact ⟨(), by omega, h⟩

theorem readAt_label_upToLimits (hpath : path.StandsIn inElement) (hplain : ¬ path.LikeOperator)
    (h : UpToLimits s (parseField path (depth + path.labelDepth) (Value.ofJson j))) :
    UpToLimits s (readAt inElement depth (Value.ofJson (path.label j))) := by
  cases hroot : path.isRoot with
  | true =>
    rw [FieldPath.labelDepth, if_pos hroot] at h
    rw [readAt_label_root hpath hroot]
    exact h
  | false =>
    rw [labelDepth_of_not_isRoot hroot] at h
    rw [readAt_label_below hpath hroot hplain]
    refine .bind (checkDepth_upToLimits depth) ?_
    split_ifs
    · exact .inr ⟨_, rfl, .inr ⟨_, rfl⟩⟩
    · exact h

end

/-! ## Selectors -/

theorem Test.WellFormed.parseField_eq {t : Test} (h : t.WellFormed Value.Canonical)
    (path : FieldPath) (depth : Nat) : parseField path depth (Value.ofJson t.toJson) = (do
      checkDepth depth
      .ok (.field path t)) := by
  obtain ⟨op, operand, hjson, hkey, hread⟩ := h.readTest_toJson
  have hobject : Value.ofJson t.toJson = .document [(op, Value.ofJson operand)] := by
    rw [hjson]
    rfl
  rw [hobject, hkey.parseField, hread]
  rfl

namespace Selector

theorem ofJson_toJson_document (s : Selector) :
    ∃ entries, Value.ofJson s.toJson = .document entries := by
  have hlabel (path : FieldPath) (key : String) (j : Json) :
      ∃ entries, Value.ofJson (path.label (Json.singleton key j)) = .document entries := by
    rw [FieldPath.label]
    split_ifs <;> exact ⟨_, rfl⟩
  cases s with
  | combine kind children => exact ⟨_, rfl⟩
  | not child => exact ⟨_, rfl⟩
  | field path test =>
    rw [toJson]
    cases test <;> exact hlabel path _ _
  | elemMatch path inner => exact hlabel path _ _

theorem ofJson_not (child : Selector) : Value.ofJson (Selector.not child).toJson =
    .document [("$not", Value.ofJson child.toJson)] := rfl

theorem checkOperands_toJsonList (op : String) (children : List Selector) :
    checkOperands op (Value.ofJsonItems (toJsonList children)) = .ok () := by
  induction children with
  | nil => rfl
  | cons s rest ih =>
    obtain ⟨entries, hs⟩ := s.ofJson_toJson_document
    rw [toJsonList, Value.ofJsonItems, hs]
    exact ih

theorem readAt_toJson_combine (inElement : Bool) (depth : Nat) (kind : Combinator)
    (children : List Selector) :
    readAt inElement depth (Value.ofJson (combine kind children).toJson) = (do
      checkDepth depth
      let items ← readItemsAt inElement (depth + 1) (Value.ofJsonItems (toJsonList children))
      .ok (.combine kind items)) := by
  have hobject : Value.ofJson (combine kind children).toJson =
      .document [(kind.key, .array (Value.ofJsonItems (toJsonList children)))] := rfl
  rw [hobject, readAt_combine, checkOperands_toJsonList]
  rfl

theorem readAt_toJson_not (inElement : Bool) (depth : Nat) (child : Selector) :
    readAt inElement depth (Value.ofJson (Selector.not child).toJson) = (do
      checkDepth depth
      let inner ← readAt inElement (depth + 1) (Value.ofJson child.toJson)
      .ok (.not inner)) := by
  obtain ⟨entries, hchild⟩ := child.ofJson_toJson_document
  rw [ofJson_not, hchild, readAt_not]

theorem parseField_toJson_elemMatch (path : FieldPath) (depth : Nat) (inner : Selector) :
    parseField path depth (Value.ofJson (Json.singleton "$elemMatch" inner.toJson)) = (do
      checkDepth depth
      let read ← readAt true (depth + 1) (Value.ofJson inner.toJson)
      .ok (.elemMatch path read)) := by
  obtain ⟨entries, hinner⟩ := inner.ofJson_toJson_document
  have hobject : Value.ofJson (Json.singleton "$elemMatch" inner.toJson) =
      .document [("$elemMatch", Value.ofJson inner.toJson)] := rfl
  rw [hobject, hinner, parseField_elemMatch]

/-! ## Reading back -/

theorem readItemsAt_eq_ok (inElement : Bool) (depth : Nat) (children : List Selector) :
    readItemsAt inElement depth (Value.ofJsonItems (toJsonList children)) = .ok children ↔
      ∀ s ∈ children, readAt inElement depth (Value.ofJson s.toJson) = .ok s := by
  induction children with
  | nil => exact iff_of_true (readItemsAt_nil _ _) (List.forall_mem_nil _)
  | cons s rest ih =>
    rw [toJsonList, Value.ofJsonItems, readItemsAt_cons, List.forall_mem_cons, ← ih]
    simp

theorem mem_pathsAll {path : FieldPath} {children : List Selector} :
    path ∈ pathsAll children ↔ ∃ s ∈ children, path ∈ s.paths := by
  induction children with
  | nil => simp [pathsAll]
  | cons s rest ih => simp [pathsAll, ih]

theorem depth_add_nestingAll_le (depth limit : Nat) (children : List Selector) :
    depth + nestingAll children ≤ limit ↔
      depth ≤ limit ∧ ∀ s ∈ children, depth + 1 + s.nesting ≤ limit := by
  induction children with
  | nil => simp [nestingAll]
  | cons s rest ih =>
    have hmax : depth + max (s.nesting + 1) (nestingAll rest) ≤ limit ↔
        depth + 1 + s.nesting ≤ limit ∧ depth + nestingAll rest ≤ limit := by omega
    rw [nestingAll, List.forall_mem_cons, hmax, ih, and_left_comm]

/-- A well-formed selector is read back just if its paths are and it is not too deep. -/
theorem WellFormed.readAt_eq_ok {inElement : Bool} {s : Selector}
    (h : s.WellFormed Value.Canonical inElement) (depth : Nat) :
    readAt inElement depth (Value.ofJson s.toJson) = .ok s ↔
      (∀ path ∈ s.paths, path.ReadsBack) ∧ depth + s.nesting ≤ maxSelectorDepth := by
  induction h generalizing depth with
  | combine _ ih =>
    rw [readAt_toJson_combine, checked_eq_ok fun _ _ h => (combine.inj h).2, readItemsAt_eq_ok,
      paths, nesting, depth_add_nestingAll_le]
    constructor
    · rintro ⟨hdepth, hread⟩
      have hchildren := fun s hs => (ih s hs (depth + 1)).mp (hread s hs)
      refine ⟨fun path hpath => ?_, hdepth, fun s hs => (hchildren s hs).2⟩
      obtain ⟨s, hs, hpath⟩ := mem_pathsAll.mp hpath
      exact (hchildren s hs).1 path hpath
    · rintro ⟨hpaths, hdepth, hnesting⟩
      refine ⟨hdepth, fun s hs => (ih s hs (depth + 1)).mpr ⟨fun path hpath => ?_, hnesting s hs⟩⟩
      exact hpaths path (mem_pathsAll.mpr ⟨s, hs, hpath⟩)
  | not _ ih =>
    rw [readAt_toJson_not, checked_eq_ok fun _ _ h => not.inj h, ih, paths, nesting]
    constructor
    · rintro ⟨-, hpaths, hnesting⟩
      exact ⟨hpaths, by omega⟩
    · rintro ⟨hpaths, hnesting⟩
      exact ⟨by omega, hpaths, by omega⟩
  | field hpath htest =>
    rw [toJson, readAt_label_eq_ok hpath (isAt_field _ _), htest.parseField_eq, paths, nesting,
      List.forall_mem_singleton]
    simp [checkDepth_eq_ok]
  | elemMatch hpath _ ih =>
    rw [toJson, readAt_label_eq_ok hpath (isAt_elemMatch _ _), parseField_toJson_elemMatch,
      checked_eq_ok fun _ _ h => (elemMatch.inj h).2, ih, paths, nesting, List.forall_mem_cons]
    constructor
    · rintro ⟨hlabel, -, hpaths, hnesting⟩
      exact ⟨⟨hlabel, hpaths⟩, by omega⟩
    · rintro ⟨⟨hlabel, hpaths⟩, hnesting⟩
      exact ⟨hlabel, by omega, hpaths, by omega⟩

theorem readItemsAt_upToLimits {inElement : Bool} {depth : Nat} {children : List Selector}
    (h : ∀ s ∈ children, UpToLimits s (readAt inElement depth (Value.ofJson s.toJson))) :
    UpToLimits children
      (readItemsAt inElement depth (Value.ofJsonItems (toJsonList children))) := by
  induction children with
  | nil =>
    rw [toJsonList, Value.ofJsonItems, readItemsAt_nil]
    exact .ok []
  | cons s rest ih =>
    rw [toJsonList, Value.ofJsonItems, readItemsAt_cons]
    obtain ⟨hs, hrest⟩ := List.forall_mem_cons.mp h
    exact .bind hs (.bind (ih hrest) (.ok _))

/-- Without paths that begin like operators, only the limits can keep a selector from being read
back. -/
theorem WellFormed.readAt_upToLimits {inElement : Bool} {s : Selector}
    (h : s.WellFormed Value.Canonical inElement) (hplain : ∀ path ∈ s.paths, ¬ path.LikeOperator)
    (depth : Nat) : UpToLimits s (readAt inElement depth (Value.ofJson s.toJson)) := by
  induction h generalizing depth with
  | combine _ ih =>
    rw [readAt_toJson_combine]
    refine .bind (checkDepth_upToLimits depth) (.bind ?_ (.ok _))
    refine readItemsAt_upToLimits fun s hs => ih s hs (fun path hpath => ?_) _
    exact hplain path (mem_pathsAll.mpr ⟨s, hs, hpath⟩)
  | not _ ih =>
    rw [readAt_toJson_not]
    exact .bind (checkDepth_upToLimits depth) (.bind (ih hplain _) (.ok _))
  | field hpath htest =>
    rw [toJson]
    refine readAt_label_upToLimits hpath (hplain _ List.mem_cons_self) ?_
    rw [htest.parseField_eq]
    exact .bind (checkDepth_upToLimits _) (.ok _)
  | elemMatch hpath _ ih =>
    obtain ⟨hlabel, hinner⟩ := List.forall_mem_cons.mp hplain
    rw [toJson]
    refine readAt_label_upToLimits hpath hlabel ?_
    rw [parseField_toJson_elemMatch]
    exact .bind (checkDepth_upToLimits _) (.bind (ih hinner _) (.ok _))

/-! ## Texts -/

/-- The normalized form of a selector that a text writes is read back as the selector just if no
path in it begins like an operator or is too long, and it is not too deep. Without paths that begin
like operators it is read back as the selector, or a limit is reported. -/
theorem fromJson_readBack {text : String} {s : Selector} (h : fromJson text = .ok s) :
    (parse (Value.ofJson s.toJson) = .ok s ↔
      (∀ path ∈ s.paths, path.ReadsBack) ∧ s.nesting ≤ maxSelectorDepth) ∧
    ((∀ path ∈ s.paths, ¬ path.LikeOperator) →
      UpToLimits s (parse (Value.ofJson s.toJson))) := by
  rw [fromJson, bind_eq_ok] at h
  obtain ⟨j, hj, hparse⟩ := h
  have hcanonical := Value.canonical_ofJson (Json.canonical_of_parse (mapError_eq_ok.mp hj))
  have hwell := wellFormed_of_parse Value.hereditary_canonical hcanonical hparse
  have hread := hwell.readAt_eq_ok 0
  rw [Nat.zero_add] at hread
  exact ⟨hread, fun hplain => hwell.readAt_upToLimits hplain 0⟩

/-- A dollar sign that does not begin its path, and a test of elements. -/
theorem fromJson_readBack_inner :
    let text :=
      "\x7b\"a.$b\": \x7b\"$elemMatch\": \x7b\"$gte\": 1, \"c\\\\.d\": null\x7d\x7d\x7d"
    let s : Selector := .elemMatch ⟨["a", "$b"]⟩ (.combine .and
      [.field .root (.compare .gte (.int32 1)), .field ⟨["c.d"]⟩ (.compare .eq .null)])
    fromJson text = .ok s ∧ parse (Value.ofJson s.toJson) = .ok s := by
  intro text s
  have hs : fromJson text = .ok s := by cbv
  exact ⟨hs, (fromJson_readBack hs).1.mpr ⟨by decide, by decide⟩⟩

/-- A path that begins with a dollar sign is shown as the operator of that name. What is read back
accepts other documents, or is refused. -/
theorem fromJson_readBack_dollar :
    let text := "\x7b\"a\": \x7b\"$elemMatch\": \x7b\"\\\\$gt\": 5\x7d\x7d\x7d"
    let s : Selector := .elemMatch ⟨["a"]⟩ (.field ⟨["$gt"]⟩ (.compare .eq (.int32 5)))
    let back : Selector :=
      .elemMatch ⟨["a"]⟩ (.field .root (.compare .gt (.document [("$eq", .int32 5)])))
    let body : Body := [("a", .array [.document [("$gt", .int32 6)]])]
    let other : Selector := .field ⟨["$eq"]⟩ (.compare .eq (.int32 5))
    (fromJson text = .ok s ∧ parse (Value.ofJson s.toJson) = .ok back ∧
      s.accepts body = false ∧ back.accepts body = true) ∧
    fromJson "\x7b\"\\\\$eq\": 5\x7d" = .ok other ∧
      parse (Value.ofJson other.toJson) = .error (.invalidOperator (.misplaced "$eq")) := by
  intro text s back body other
  have hs : fromJson text = .ok s := by cbv
  have hback : parse (Value.ofJson s.toJson) = .ok back := by rfl
  have hother : fromJson "\x7b\"\\\\$eq\": 5\x7d" = .ok other := by cbv
  exact ⟨⟨hs, hback, by decide, by decide⟩, hother, by rfl⟩

end Selector

end DocFind
