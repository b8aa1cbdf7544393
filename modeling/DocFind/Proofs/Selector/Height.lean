import DocFind.Proofs.Selector.Meaning
import DocFind.Proofs.Selector.SingleEntry
import DocFind.Proofs.Selector.WellFormed

/-!
# The height of selectors

At every level of depth the reader puts at most a conjunction and one operator on top of what it
reads a level deeper, so an accepted selector is no higher than twice the number of levels. The
conjuncts of a conjunction stand below it, so the residual that is made of them is no higher than
the selector that they were taken from. Evaluation goes no deeper than the height, whatever it is
evaluated on.
-/
namespace DocFind

namespace Selector

mutual

/-- How many combinations, negations and tests stand inside one another. -/
def height : Selector → Nat
  | combine _ children => heightAll children + 1
  | not child => child.height + 1
  | field _ _ => 1
  | elemMatch _ inner => inner.height + 1

def heightAll : List Selector → Nat
  | [] => 0
  | s :: rest => max s.height (heightAll rest)

end

theorem heightAll_le_iff {n : Nat} {parts : List Selector} :
    heightAll parts ≤ n ↔ ∀ s ∈ parts, s.height ≤ n := by
  induction parts with
  | nil => simp [heightAll]
  | cons s rest ih => rw [heightAll, Nat.max_le, ih, List.forall_mem_cons]

theorem height_combine_le {n : Nat} {children : List Selector} (kind : Combinator)
    (h : ∀ s ∈ children, s.height ≤ n) : (combine kind children).height ≤ n + 1 :=
  Nat.succ_le_succ (heightAll_le_iff.mpr h)

theorem height_conjoin_le {n : Nat} {parts : List Selector} (h : ∀ s ∈ parts, s.height ≤ n) :
    (conjoin parts).height ≤ n + 1 := by
  unfold conjoin
  split
  · have hpart := h _ List.mem_cons_self
    omega
  · exact height_combine_le .and h

/-! ## Evaluation -/

/-- Evaluation that may enter so many selectors inside one another; where more are needed there is
no answer. All parts are evaluated, also where the first ones decide. -/
def holdsWithin : Nat → Target → Selector → Option Bool
  | 0, _, _ => none
  | n + 1, t, combine kind children => (children.mapM fun s => holdsWithin n t s).map kind.joins
  | n + 1, t, not child => (holdsWithin n t child).map (!·)
  | _ + 1, t, field path test => some (test.holds (t.get? path))
  | n + 1, t, elemMatch path inner =>
    match t.get? path with
    | some (.array items) =>
      (items.mapM fun v => holdsWithin n (.element v) inner).map fun outcomes => outcomes.any id
    | _ => some false

theorem mapM_eq_some_map {α β : Type} {f : α → Option β} {g : α → β} {xs : List α}
    (h : ∀ x ∈ xs, f x = some (g x)) : xs.mapM f = some (xs.map g) := by
  induction xs with
  | nil => rfl
  | cons x rest ih =>
    obtain ⟨hx, hrest⟩ := List.forall_mem_cons.mp h
    rw [List.mapM_cons, hx, ih hrest]
    rfl

/-- The height is as deep as evaluation goes, on every target. -/
theorem holdsWithin_of_height_le {n : Nat} {s : Selector} (h : s.height ≤ n) (t : Target) :
    s.holdsWithin n t = some (s.holds t) := by
  induction n generalizing s t with
  | zero => cases s <;> simp [height] at h
  | succ n ih =>
    cases s with
    | combine kind children =>
      have hchildren : ∀ s ∈ children, s.height ≤ n := by
        rw [height] at h
        exact heightAll_le_iff.mp (by omega)
      rw [holdsWithin, mapM_eq_some_map fun s hs => ih (hchildren s hs) t, combine_holds]
      rfl
    | not child =>
      rw [height] at h
      rw [holdsWithin, ih (by omega) t, holds]
      rfl
    | field path test => rfl
    | elemMatch path inner =>
      rw [height] at h
      rw [holdsWithin, holds]
      cases t.get? path with
      | none => rfl
      | some found =>
        cases found with
        | array items =>
          have hitems := mapM_eq_some_map fun v (_ : v ∈ items) =>
            ih (s := inner) (by omega) (.element v)
          dsimp only
          rw [hitems, Option.map_some, List.any_map]
          rfl
        | _ => rfl

end Selector

/-! ## Reading -/

/-- Twice the number of levels that the reader goes through from a depth on. -/
def heightFrom (depth : Nat) : Nat := 2 * (maxSelectorDepth + 1 - depth)

theorem heightFrom_succ {depth : Nat} (h : depth ≤ maxSelectorDepth) :
    heightFrom depth = heightFrom (depth + 1) + 2 := by
  rw [heightFrom, heightFrom]
  omega

/-- Whatever stands below an operator is a level deeper, and a conjunction may stand above it. -/
theorem heightFrom_succ_lt {depth n : Nat} (hdepth : depth ≤ maxSelectorDepth)
    (h : n ≤ heightFrom (depth + 1)) : n + 1 < heightFrom depth := by
  rw [heightFrom_succ hdepth]
  omega

theorem height_conjoin_le_heightFrom {depth : Nat} {parts : List Selector}
    (hdepth : depth ≤ maxSelectorDepth) (h : ∀ s ∈ parts, s.height < heightFrom depth) :
    (Selector.conjoin parts).height ≤ heightFrom depth := by
  have hlevel := heightFrom_succ hdepth
  have hparts : ∀ s ∈ parts, s.height ≤ heightFrom depth - 1 := fun s hs => by
    have hs := h s hs
    omega
  have hconjoin := Selector.height_conjoin_le hparts
  omega

mutual

theorem parseField_height {path : FieldPath} {depth : Nat} (v : Value) {s : Selector}
    (h : parseField path depth v = .ok s) : s.height ≤ heightFrom depth := by
  have hdepth := depth_le_of_parseField h
  match v with
  | .document (entry :: entries) =>
    obtain ⟨parts, hparts, rfl⟩ := parseField_document h
    exact height_conjoin_le_heightFrom hdepth (parseFieldEntries_height hdepth _ hparts)
  | .document [] | .null | .bool _ | .int32 _ | .int64 _ | .double _ | .decimal _ | .string _
  | .array _ | .foreign _ =>
    obtain rfl := parseField_plain (by simp) h
    have hlevel := heightFrom_succ hdepth
    rw [Selector.height]
    omega
termination_by sizeOf v

theorem parseFieldEntries_height {path : FieldPath} {depth : Nat}
    (hdepth : depth ≤ maxSelectorDepth) (entries : List (String × Value)) {parts : List Selector}
    (h : parseFieldEntries path depth entries = .ok parts) :
    ∀ s ∈ parts, s.height < heightFrom depth := by
  match entries with
  | [] =>
    obtain rfl := Except.ok.inj h
    exact List.forall_mem_nil _
  | (key, operand) :: rest =>
    obtain ⟨part, others, hpart, hothers, rfl⟩ := parseFieldEntries_cons h
    refine List.forall_mem_cons.mpr ⟨?_, parseFieldEntries_height hdepth rest hothers⟩
    have hlevel := heightFrom_succ hdepth
    cases hpart with
    | combine hkind hoperands hitems =>
      have hchildren := Selector.heightAll_le_iff.mpr (parseFieldItems_height _ hitems)
      exact heightFrom_succ_lt hdepth hchildren
    | not hchild => exact heightFrom_succ_lt hdepth (parseField_height _ hchild)
    | elemMatch hinner => exact heightFrom_succ_lt hdepth (parseField_height _ hinner)
    | test hop hcombinator hnot helem htest =>
      rw [Selector.height]
      omega
    | below hkey hpath hpart =>
      have hpart := parseField_height _ hpart
      omega
termination_by sizeOf entries

theorem parseFieldItems_height {path : FieldPath} {depth : Nat} (items : List Value)
    {children : List Selector} (h : parseFieldItems path depth items = .ok children) :
    ∀ s ∈ children, s.height ≤ heightFrom depth := by
  match items with
  | [] =>
    obtain rfl := Except.ok.inj h
    exact List.forall_mem_nil _
  | v :: rest =>
    obtain ⟨child, others, hchild, hothers, rfl⟩ := parseFieldItems_cons h
    exact List.forall_mem_cons.mpr
      ⟨parseField_height v hchild, parseFieldItems_height rest hothers⟩
termination_by sizeOf items

end

mutual

theorem parseObject_height {depth : Nat} (v : Value) {s : Selector}
    (h : parseObject depth v = .ok s) : s.height ≤ heightFrom depth := by
  have hdepth := depth_le_of_parseObject h
  match v with
  | .document entries =>
    obtain ⟨parts, hparts, rfl⟩ := parseObject_document h
    exact height_conjoin_le_heightFrom hdepth (parseEntries_height hdepth entries hparts)
  | .null | .bool _ | .int32 _ | .int64 _ | .double _ | .decimal _ | .string _ | .array _
  | .foreign _ => cases h
termination_by sizeOf v

theorem parseEntries_height {depth : Nat} (hdepth : depth ≤ maxSelectorDepth)
    (entries : List (String × Value)) {parts : List Selector}
    (h : parseEntries depth entries = .ok parts) : ∀ s ∈ parts, s.height < heightFrom depth := by
  match entries with
  | [] =>
    obtain rfl := Except.ok.inj h
    exact List.forall_mem_nil _
  | (key, operand) :: rest =>
    obtain ⟨part, others, hpart, hothers, rfl⟩ := parseEntries_cons h
    refine List.forall_mem_cons.mpr ⟨?_, parseEntries_height hdepth rest hothers⟩
    cases hpart with
    | combine hkind hoperands hitems =>
      have hchildren := Selector.heightAll_le_iff.mpr (parseItems_height _ hitems)
      exact heightFrom_succ_lt hdepth hchildren
    | not hchild => exact heightFrom_succ_lt hdepth (parseObject_height _ hchild)
    | field hkey hpath hpart =>
      have hlevel := heightFrom_succ hdepth
      have hpart := parseField_height _ hpart
      omega
termination_by sizeOf entries

theorem parseItems_height {depth : Nat} (items : List Value) {children : List Selector}
    (h : parseItems depth items = .ok children) : ∀ s ∈ children, s.height ≤ heightFrom depth := by
  match items with
  | [] =>
    obtain rfl := Except.ok.inj h
    exact List.forall_mem_nil _
  | v :: rest =>
    obtain ⟨child, others, hchild, hothers, rfl⟩ := parseItems_cons h
    exact List.forall_mem_cons.mpr ⟨parseObject_height v hchild, parseItems_height rest hothers⟩
termination_by sizeOf items

end

/-! ## Residuals -/

namespace Selector

mutual

/-- A selector is its only conjunct, or all of its conjuncts stand below it. -/
theorem conjuncts_eq_or_height_lt (s : Selector) :
    s.conjuncts = [s] ∨ ∀ part ∈ s.conjuncts, part.height < s.height := by
  match s with
  | combine .and children =>
    refine .inr fun part hpart => Nat.lt_succ_of_le ?_
    exact height_le_of_mem_conjunctsOfAll children part hpart
  | combine .or _ | combine .nor _ | not _ | field _ _ | elemMatch _ _ => exact .inl rfl
termination_by structural s

theorem height_le_of_mem_conjunctsOfAll (parts : List Selector) :
    ∀ part ∈ conjunctsOfAll parts, part.height ≤ heightAll parts := by
  match parts with
  | [] => exact List.forall_mem_nil _
  | s :: rest =>
    intro part hpart
    rw [heightAll]
    rcases List.mem_append.mp hpart with hs | hrest
    · rcases conjuncts_eq_or_height_lt s with hself | hbelow
      · obtain rfl : part = s := List.mem_singleton.mp (hself ▸ hs)
        exact Nat.le_max_left _ _
      · have hlt := hbelow part hs
        omega
    · have hle := height_le_of_mem_conjunctsOfAll rest part hrest
      omega
termination_by structural parts

end

variable {s r : Selector} {used : List Nat}

/-- What is left of a selector is no higher than the selector: the conjunction that is put on top
of the conjuncts takes the place of one that they stood below. -/
theorem height_residual_le (hr : (Constraints.ofSelector s).residual used = some r) :
    r.height ≤ s.height := by
  obtain ⟨hne, rfl⟩ := Constraints.residual_eq_some hr
  rcases conjuncts_eq_or_height_lt s with hself | hbelow
  · have hall : (Constraints.ofSelector s).unused used = [s] :=
      (Constraints.unused_of_singleton hself used).resolve_left hne
    rw [hall]
    exact Nat.le_refl _
  · have hpart : ∀ part ∈ (Constraints.ofSelector s).unused used, part.height ≤ s.height - 1 := by
      intro part hpart
      obtain ⟨i, -, hi⟩ := Constraints.mem_unused.mp hpart
      have hlt := hbelow part (List.mem_of_getElem? hi)
      omega
    have hconjoin := height_conjoin_le hpart
    have hpos : 0 < s.height := by cases s <;> exact Nat.succ_pos _
    omega

/-- Divisors are not zero, type names are ones to ask for, no path has an empty segment and only
inside an element match a path has none; the selector is at most twice as high as there are levels
of depth, and no deeper does its evaluation go. -/
structure Sound (s : Selector) : Prop where
  wellFormed : s.WellFormed (fun _ => True) false
  height : s.height ≤ 2 * (maxSelectorDepth + 1)
  evaluation : ∀ t, s.holdsWithin (2 * (maxSelectorDepth + 1)) t = some (s.holds t)

theorem Sound.of_height_le (hwell : s.WellFormed (fun _ => True) false)
    (hheight : s.height ≤ 2 * (maxSelectorDepth + 1)) : s.Sound :=
  ⟨hwell, hheight, holdsWithin_of_height_le hheight⟩

/-- Accepted selectors are sound, and so is what is left of them without the conjuncts at any
positions. -/
theorem parsed_and_residual_sound {v : Value} (h : parse v = .ok s) :
    s.Sound ∧ ∀ (used : List Nat) (r : Selector),
      (Constraints.ofSelector s).residual used = some r → r.Sound := by
  have hwell := wellFormed_of_parse hereditary_true trivial h
  have hheight : s.height ≤ 2 * (maxSelectorDepth + 1) := parseObject_height v h
  refine ⟨.of_height_le hwell hheight, fun used r hr => ?_⟩
  exact .of_height_le (hwell.residual hr) (Nat.le_trans (height_residual_le hr) hheight)

/-- A selector whose residual loses a conjunct from within two conjunctions. -/
theorem parsed_and_residual_sound_nested :
    let v : Value := .document
      [("$and", .array [.document [("a", .document
          [("$gt", .int32 1), ("$mod", .array [.int32 2, .int32 1])])],
        .document [("b", .document [("$type", .string "string")])]]),
        ("c", .document [("$elemMatch", .document [("$gte", .int32 3)])])]
    let a : FieldPath := ⟨["a"]⟩
    let s : Selector := .combine .and
      [.combine .and [.combine .and [.field a (.compare .gt (.int32 1)), .field a (.modulo 2 1)],
        .field ⟨["b"]⟩ (.hasType .string)],
        .elemMatch ⟨["c"]⟩ (.field .root (.compare .gte (.int32 3)))]
    let r : Selector := .combine .and
      [.field a (.modulo 2 1), .field ⟨["b"]⟩ (.hasType .string),
        .elemMatch ⟨["c"]⟩ (.field .root (.compare .gte (.int32 3)))]
    parse v = .ok s ∧ s.Sound ∧
      (Constraints.ofSelector s).residual [0] = some r ∧ r.Sound := by
  intro v a s r
  have hparse : parse v = .ok s := rfl
  have hresidual : (Constraints.ofSelector s).residual [0] = some r := rfl
  obtain ⟨hsound, hleft⟩ := parsed_and_residual_sound hparse
  exact ⟨hparse, hsound, hresidual, hleft [0] r hresidual⟩

end Selector

end DocFind
