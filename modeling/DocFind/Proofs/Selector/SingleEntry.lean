import DocFind.Proofs.Selector.Parse
import Mathlib.Tactic.SplitIfs

/-!
# Objects with one entry

The normalized form of a selector is made of objects with a single entry. Such an object is read as
its entry alone: as a combination, a negation, a path with what stands below it, or an operator of a
field. Where elements are tested, the level of fields takes the place of that of selectors.
-/
namespace DocFind

theorem Combinator.isOperatorKey_key (kind : Combinator) : isOperatorKey kind.key = true := by
  cases kind <;> rfl

theorem Combinator.ofKey?_key (kind : Combinator) : Combinator.ofKey? kind.key = some kind := by
  cases kind <;> rfl

theorem Combinator.eq_key_of_ofKey? {key : String} {kind : Combinator}
    (h : Combinator.ofKey? key = some kind) : key = kind.key := by
  unfold Combinator.ofKey? at h
  split at h <;> cases h <;> rfl

section

variable {path : FieldPath} {depth : Nat} {key : String} {operand : Value}
  {x : Except Failure Selector}

theorem parseFieldEntries_nil (path : FieldPath) (depth : Nat) :
    parseFieldEntries path depth [] = .ok [] := rfl

theorem parseEntries_nil (depth : Nat) : parseEntries depth [] = .ok [] := rfl

/-- A single entry is not conjoined with anything. -/
theorem parseField_one
    (h : parseFieldEntries path depth [(key, operand)] = x >>= fun part => .ok [part]) :
    parseField path depth (.document [(key, operand)]) = checkDepth depth >>= fun _ => x := by
  rw [parseField, h]
  cases checkDepth depth with
  | error failure => rfl
  | ok _ => cases x <;> rfl

theorem parseObject_one
    (h : parseEntries depth [(key, operand)] = x >>= fun part => .ok [part]) :
    parseObject depth (.document [(key, operand)]) = checkDepth depth >>= fun _ => x := by
  rw [parseObject, h]
  cases checkDepth depth with
  | error failure => rfl
  | ok _ => cases x <;> rfl

end

/-- Reads a value where a selector stands, or inside `$elemMatch`, where a field stands. -/
def readAt (inElement : Bool) (depth : Nat) (v : Value) : Except Failure Selector :=
  if inElement then parseField .root depth v else parseObject depth v

/-- Reads the operands of a combinator in either place. -/
def readItemsAt (inElement : Bool) (depth : Nat) (items : List Value) :
    Except Failure (List Selector) :=
  if inElement then parseFieldItems .root depth items else parseItems depth items

theorem readItemsAt_nil (inElement : Bool) (depth : Nat) :
    readItemsAt inElement depth [] = .ok [] := by
  cases inElement <;> rfl

theorem readItemsAt_cons (inElement : Bool) (depth : Nat) (v : Value) (items : List Value) :
    readItemsAt inElement depth (v :: items) = (do
      let child ← readAt inElement depth v
      let children ← readItemsAt inElement depth items
      .ok (child :: children)) := by
  cases inElement <;> rfl

theorem readAt_combine (inElement : Bool) (depth : Nat) (kind : Combinator) (items : List Value) :
    readAt inElement depth (.document [(kind.key, .array items)]) = (do
      checkDepth depth
      checkOperands kind.key items
      let children ← readItemsAt inElement (depth + 1) items
      .ok (.combine kind children)) := by
  cases inElement with
  | false =>
    refine parseObject_one ?_
    unfold parseEntries
    simp only [kind.ofKey?_key, parseEntries_nil, ok_bind, bind_assoc]
    rfl
  | true =>
    refine parseField_one ?_
    unfold parseFieldEntries
    simp only [kind.isOperatorKey_key, kind.ofKey?_key, if_true, parseFieldEntries_nil, ok_bind,
      bind_assoc]
    rfl

theorem readAt_not (inElement : Bool) (depth : Nat) (entries : List (String × Value)) :
    readAt inElement depth (.document [("$not", .document entries)]) = (do
      checkDepth depth
      let child ← readAt inElement (depth + 1) (.document entries)
      .ok (.not child)) := by
  have hkey : isOperatorKey "$not" = true := rfl
  have hkind : Combinator.ofKey? "$not" = none := rfl
  cases inElement with
  | false =>
    refine parseObject_one ?_
    unfold parseEntries
    simp only [hkind, if_true, parseEntries_nil, ok_bind, bind_assoc]
    rfl
  | true =>
    refine parseField_one ?_
    unfold parseFieldEntries
    simp only [hkey, hkind, if_true, parseFieldEntries_nil, ok_bind, bind_assoc]
    rfl

/-- Below a field a key leads on from its path. -/
theorem parseField_path (path : FieldPath) (depth : Nat) {key : String}
    (hkey : isOperatorKey key = false) (v : Value) :
    parseField path depth (.document [(key, v)]) = (do
      checkDepth depth
      let below ← readPath key
      parseField (path.join below) (depth + 1) v) := by
  refine parseField_one ?_
  unfold parseFieldEntries
  simp only [hkey, Bool.false_eq_true, if_false, parseFieldEntries_nil, ok_bind, bind_assoc]

theorem readAt_path (inElement : Bool) (depth : Nat) {key : String}
    (hkey : isOperatorKey key = false) (v : Value) :
    readAt inElement depth (.document [(key, v)]) = (do
      checkDepth depth
      let path ← readPath key
      parseField path (depth + 1) v) := by
  have hkind := Combinator.ofKey?_of_not_isOperatorKey hkey
  have hnot : key ≠ "$not" := ne_of_not_isOperatorKey hkey rfl
  cases inElement with
  | false =>
    refine parseObject_one ?_
    unfold parseEntries
    simp only [hkey, hkind, if_neg hnot, Bool.false_eq_true, if_false, parseEntries_nil, ok_bind,
      bind_assoc]
  | true => exact parseField_path .root depth hkey v

/-- The key of an operator whose operand holds no selector. -/
structure TestKey (op : String) : Prop where
  operator : isOperatorKey op = true
  combinator : Combinator.ofKey? op = none
  not : op ≠ "$not"
  elemMatch : op ≠ "$elemMatch"

theorem TestKey.parseField {op : String} (h : TestKey op) (path : FieldPath) (depth : Nat)
    (operand : Value) : parseField path depth (.document [(op, operand)]) = (do
      checkDepth depth
      (readTest op operand).map (.field path)) := by
  refine parseField_one ?_
  unfold parseFieldEntries
  simp only [h.operator, h.combinator, if_true, if_neg h.not, if_neg h.elemMatch,
    parseFieldEntries_nil, ok_bind]

theorem parseField_elemMatch (path : FieldPath) (depth : Nat) (entries : List (String × Value)) :
    parseField path depth (.document [("$elemMatch", .document entries)]) = (do
      checkDepth depth
      let inner ← readAt true (depth + 1) (.document entries)
      .ok (.elemMatch path inner)) := by
  have hkey : isOperatorKey "$elemMatch" = true := rfl
  have hkind : Combinator.ofKey? "$elemMatch" = none := rfl
  have hnot : "$elemMatch" ≠ "$not" := by decide
  refine parseField_one ?_
  unfold parseFieldEntries
  simp only [hkey, hkind, if_true, if_neg hnot, parseFieldEntries_nil, ok_bind, bind_assoc]
  rfl

/-! ## Limits -/

/-- The failures of what is too deep, as a selector or as a path. -/
def Failure.IsLimit (failure : Failure) : Prop :=
  failure = .invalidSelector .tooDeep ∨ ∃ raw, failure = .invalidFieldPath (.tooDeep raw)

/-- A reader yields what is expected, or it comes to a limit. -/
def UpToLimits {α : Type} (expected : α) (x : Except Failure α) : Prop :=
  x = .ok expected ∨ ∃ failure, x = .error failure ∧ failure.IsLimit

theorem UpToLimits.ok {α : Type} (a : α) : UpToLimits a (.ok a) := .inl rfl

theorem UpToLimits.bind {α β : Type} {a : α} {b : β} {x : Except Failure α}
    {f : α → Except Failure β} (hx : UpToLimits a x) (hf : UpToLimits b (f a)) :
    UpToLimits b (x >>= f) := by
  rcases hx with rfl | ⟨failure, rfl, hlimit⟩
  · exact hf
  · exact .inr ⟨failure, rfl, hlimit⟩

theorem checkDepth_eq_ok {depth : Nat} {u : Unit} :
    checkDepth depth = .ok u ↔ depth ≤ maxSelectorDepth := by
  rw [checkDepth]
  split_ifs with h
  · exact iff_of_false (by simp) (by omega)
  · exact iff_of_true rfl (by omega)

theorem accepted_checkDepth {depth : Nat} :
    Accepted (checkDepth depth) ↔ depth ≤ maxSelectorDepth :=
  ⟨fun ⟨_, h⟩ => checkDepth_eq_ok.mp h, fun h => ⟨(), checkDepth_eq_ok.mpr h⟩⟩

theorem accepted_checkDepth_bind {α : Type} {depth : Nat} {x : Except Failure α} :
    Accepted (checkDepth depth >>= fun _ => x) ↔ depth ≤ maxSelectorDepth ∧ Accepted x := by
  rw [accepted_bind, ← accepted_checkDepth, exists_and_right]
  rfl

/-- What is read below a check of the depth is read if the depth is in order. -/
theorem checked_eq_ok {α β : Type} {f : α → β} (hf : f.Injective) {depth : Nat}
    {x : Except Failure α} {a : α} :
    (checkDepth depth >>= fun _ => x >>= fun a => .ok (f a)) = .ok (f a) ↔
      depth ≤ maxSelectorDepth ∧ x = .ok a := by
  simp only [bind_eq_ok, checkDepth_eq_ok, Except.ok.injEq]
  constructor
  · rintro ⟨_, hdepth, b, hb, hab⟩
    exact ⟨hdepth, hf hab ▸ hb⟩
  · rintro ⟨hdepth, hx⟩
    exact ⟨(), hdepth, a, hx, rfl⟩

theorem checkDepth_upToLimits (depth : Nat) : UpToLimits () (checkDepth depth) := by
  rw [checkDepth]
  split_ifs
  · exact .inr ⟨_, rfl, .inl rfl⟩
  · exact .ok ()

theorem depth_le_of_parseField {path : FieldPath} {depth : Nat} {v : Value} {s : Selector}
    (h : parseField path depth v = .ok s) : depth ≤ maxSelectorDepth := by
  unfold parseField at h
  split at h
  all_goals
    rw [bind_eq_ok] at h
    obtain ⟨_, hdepth, -⟩ := h
    exact checkDepth_eq_ok.mp hdepth

theorem depth_le_of_parseObject {depth : Nat} {v : Value} {s : Selector}
    (h : parseObject depth v = .ok s) : depth ≤ maxSelectorDepth := by
  unfold parseObject at h
  split at h
  · rw [bind_eq_ok] at h
    obtain ⟨_, hdepth, -⟩ := h
    exact checkDepth_eq_ok.mp hdepth
  · cases h

end DocFind
