import DocFind.Proofs.Selector.Meaning
import DocFind.Proofs.Value.Sameness

/-!
# Selectors do not tell the same values apart

Documents that the order does not tell apart are accepted alike, unless a test divides: division
looks at the form of a number. Operands that are the same can replace each other in any selector.
-/
namespace DocFind

/-! ## Elements that correspond -/

theorem any_of_forall₂ {R : Value → Value → Prop} {xs ys : List Value} {f g : Value → Bool}
    (h : List.Forall₂ R xs ys) (hfg : ∀ x y, R x y → f x = g y) : xs.any f = ys.any g := by
  induction h with
  | nil => rfl
  | cons hxy _ ih => rw [List.any_cons, List.any_cons, hfg _ _ hxy, ih]

theorem all_of_forall₂ {R : Value → Value → Prop} {xs ys : List Value} {f g : Value → Bool}
    (h : List.Forall₂ R xs ys) (hfg : ∀ x y, R x y → f x = g y) : xs.all f = ys.all g := by
  induction h with
  | nil => rfl
  | cons hxy _ ih => rw [List.all_cons, List.all_cons, hfg _ _ hxy, ih]

namespace Value

variable {a b : Value}

theorem same_congr_left (h : a.cmp b = .eq) (v : Value) : a.same v = b.same v := by
  rw [same, same, Std.TransCmp.congr_left h]

theorem same_congr_right (h : a.cmp b = .eq) (v : Value) : v.same a = v.same b := by
  rw [same, same, Std.TransCmp.congr_right h]

theorem isIn_congr (h : a.cmp b = .eq) (values : List Value) : a.isIn values = b.isIn values := by
  simp only [isIn, same_congr_left h]

end Value

/-! ## Documents that are the same -/

/-- Whether a test divides. -/
def Test.isDivision : Test → Bool
  | modulo _ _ => true
  | _ => false

/-- A test that does not divide holds alike of values that are the same. -/
theorem Test.holds_of_sameFound {t : Test} (ht : t.isDivision = false) {x y : Option Value}
    (h : SameFound x y) : t.holds x = t.holds y := by
  rcases rel_cases h with ⟨rfl, rfl⟩ | ⟨a, b, rfl, rfl, hab⟩
  · rfl
  cases t with
  | compare op v =>
    have hcmp : a.cmp v = b.cmp v := Std.TransCmp.congr_left hab
    cases op <;> simp [holds, Value.same, hcmp]
  | present wanted => rfl
  | hasType name => simp [holds, Value.typeName_eq_of_cmp_eq hab]
  | oneOf values => simp [holds, Value.isIn_congr hab]
  | noneOf values => simp [holds, Value.isIn_congr hab]
  | modulo divisor remainder => cases ht
  | size n =>
    rcases Value.array_cases hab with ⟨xs, ys, rfl, rfl, hitems⟩ | ⟨ha, hb⟩
    · simp [holds, hitems.length_eq]
    · simp [holds, ha, hb]
  | allOf values =>
    rcases Value.array_cases hab with ⟨xs, ys, rfl, rfl, hitems⟩ | ⟨ha, hb⟩
    · have hany (v : Value) : (xs.any fun x => x.same v) = ys.any fun y => y.same v :=
        any_of_forall₂ hitems fun x y hxy => Value.same_congr_left hxy v
      simp [holds, hany]
    · simp [holds, ha, hb]

/-- Targets that are the same. -/
inductive Target.Same : Target → Target → Prop
  | body {a b : Body} (h : (Value.document a).cmp (.document b) = .eq) : Same (.body a) (.body b)
  | element {x y : Value} (h : x.cmp y = .eq) : Same (.element x) (.element y)

theorem Target.Same.get? {t u : Target} (h : t.Same u) (path : FieldPath) :
    SameFound (t.get? path) (u.get? path) := by
  cases h with
  | body h => exact Body.resolve?_of_cmp_eq h path
  | element h => exact Value.follow?_of_cmp_eq h path.segments

namespace Selector

mutual

/-- Whether a test inside a selector divides. -/
def hasDivision : Selector → Bool
  | combine _ children => anyDivision children
  | not child => child.hasDivision
  | field _ test => test.isDivision
  | elemMatch _ inner => inner.hasDivision

def anyDivision : List Selector → Bool
  | [] => false
  | s :: rest => s.hasDivision || anyDivision rest

end

mutual

/-- A selector without divisions holds alike of targets that are the same. -/
theorem holds_of_same {t u : Target} (h : t.Same u) (s : Selector) (hs : s.hasDivision = false) :
    s.holds t = s.holds u := by
  match s with
  | combine kind children =>
    rw [combine_holds, combine_holds, map_holds_of_same h children hs]
  | not child => rw [holds, holds, holds_of_same h child hs]
  | field path test => exact test.holds_of_sameFound hs (h.get? path)
  | elemMatch path inner =>
    rw [holds, holds]
    rcases rel_cases (h.get? path) with ⟨ht, hu⟩ | ⟨a, b, ht, hu, hab⟩
    · rw [ht, hu]
    rw [ht, hu]
    rcases Value.array_cases hab with ⟨xs, ys, rfl, rfl, hitems⟩ | ⟨ha, hb⟩
    · exact any_of_forall₂ hitems fun x y hxy => holds_of_same (.element hxy) inner hs
    · simp [ha, hb]
termination_by structural s

theorem map_holds_of_same {t u : Target} (h : t.Same u) (children : List Selector)
    (hs : anyDivision children = false) :
    (children.map fun s => s.holds t) = children.map fun s => s.holds u := by
  match children with
  | [] => rfl
  | s :: rest =>
    rw [anyDivision, Bool.or_eq_false_iff] at hs
    rw [List.map_cons, List.map_cons, holds_of_same h s hs.1, map_holds_of_same h rest hs.2]
termination_by structural children

end

end Selector

/-! ## Operands that are the same -/

/-- Tests that differ in operands that are the same, if at all. -/
inductive Test.Alike : Test → Test → Prop
  | refl (t : Test) : Alike t t
  | compare (op : Comparison) {v w : Value} (h : v.same w = true) :
    Alike (.compare op v) (.compare op w)
  | oneOf {vs ws : List Value} (h : (Value.array vs).same (.array ws) = true) :
    Alike (.oneOf vs) (.oneOf ws)
  | noneOf {vs ws : List Value} (h : (Value.array vs).same (.array ws) = true) :
    Alike (.noneOf vs) (.noneOf ws)
  | allOf {vs ws : List Value} (h : (Value.array vs).same (.array ws) = true) :
    Alike (.allOf vs) (.allOf ws)

/-- Selectors that differ in operands that are the same, if at all. -/
inductive Selector.Alike : Selector → Selector → Prop
  | combine (kind : Combinator) {ss rs : List Selector} (h : List.Forall₂ Alike ss rs) :
    Alike (.combine kind ss) (.combine kind rs)
  | not {s r : Selector} (h : Alike s r) : Alike (.not s) (.not r)
  | field (path : FieldPath) {t u : Test} (h : t.Alike u) : Alike (.field path t) (.field path u)
  | elemMatch (path : FieldPath) {s r : Selector} (h : Alike s r) :
    Alike (.elemMatch path s) (.elemMatch path r)

theorem isIn_of_same {vs ws : List Value} (h : (Value.array vs).same (.array ws) = true)
    (x : Value) : x.isIn vs = x.isIn ws :=
  any_of_forall₂ (Value.array_cmp_array.mp (Value.same_iff.mp h)) fun _ _ hvw =>
    Value.same_congr_right hvw x

theorem Test.Alike.holds_eq {t u : Test} (h : t.Alike u) (x : Option Value) :
    t.holds x = u.holds x := by
  cases h with
  | refl => rfl
  | @compare op v w h =>
    have hcmp (x : Value) : x.cmp v = x.cmp w := Std.TransCmp.congr_right (Value.same_iff.mp h)
    cases op <;> simp [Test.holds, Value.same, hcmp]
  | oneOf h => simp [Test.holds, isIn_of_same h]
  | noneOf h => simp [Test.holds, isIn_of_same h]
  | @allOf vs ws h =>
    have hvalues := Value.array_cmp_array.mp (Value.same_iff.mp h)
    have hempty : vs.isEmpty = ws.isEmpty := by cases hvalues <;> rfl
    have hall (items : List Value) : (vs.all fun v => items.any fun x => x.same v) =
        ws.all fun w => items.any fun x => x.same w :=
      all_of_forall₂ hvalues fun v w hvw => by simp only [Value.same_congr_right hvw]
    cases x with
    | none => rfl
    | some x => cases x <;> simp [Test.holds, hempty, hall]

namespace Selector

mutual

/-- Operands that are the same can replace each other. -/
theorem Alike.holds_eq {s r : Selector} (h : s.Alike r) (t : Target) : s.holds t = r.holds t := by
  match s with
  | .combine kind children =>
    cases h with
    | combine _ h => rw [combine_holds, combine_holds, map_holds_of_alike h t]
  | .not child =>
    cases h with
    | not h => rw [holds, holds, h.holds_eq t]
  | .field path test =>
    cases h with
    | field _ h => exact h.holds_eq (t.get? path)
  | .elemMatch path inner =>
    cases h with
    | elemMatch _ h =>
      have hinner (x : Value) := h.holds_eq (.element x)
      simp only [holds, hinner]
termination_by structural s

theorem map_holds_of_alike {ss rs : List Selector} (h : List.Forall₂ Alike ss rs) (t : Target) :
    (ss.map fun s => s.holds t) = rs.map fun r => r.holds t := by
  match ss with
  | [] =>
    cases h with
    | nil => rfl
  | s :: rest =>
    cases h with
    | cons hs hrest =>
      rw [List.map_cons, List.map_cons, hs.holds_eq t, map_holds_of_alike hrest t]
termination_by structural ss

end

/-- A selector without divisions accepts documents that are the same alike, operands that are the
same can replace each other in every selector, and documents that are the same have equal keys under
every list of fields. -/
theorem accepts_respects_same :
    (∀ a b : Body, (Value.document a).same (.document b) = true →
      (∀ s : Selector, s.hasDivision = false → s.accepts a = s.accepts b) ∧
        ∀ fields, (IndexKey.ofBody fields a == IndexKey.ofBody fields b) = true) ∧
    ∀ s r : Selector, s.Alike r → ∀ body, s.accepts body = r.accepts body := by
  refine ⟨fun a b hab => ⟨fun s hs => ?_, fun fields => ?_⟩, fun s r h body => ?_⟩
  · exact holds_of_same (.body (Value.same_iff.mp hab)) s hs
  · exact IndexKey.ofBody_beq (Value.same_iff.mp hab) fields
  · exact h.holds_eq (.body body)

/-- Keys in another order, and whole numbers in three forms, in the documents and in an operand. -/
theorem accepts_respects_same_forms :
    let a : Body := [("x", .document [("m", .int32 1), ("n", .array [.int64 2])])]
    let b : Body :=
      [("x", .document [("n", .array [.int32 2]), ("m", .double ⟨0x3FF0000000000000⟩)])]
    let s : Selector := .elemMatch ⟨["x", "n"]⟩ (.field .root (.oneOf [.int32 2]))
    let r : Selector := .elemMatch ⟨["x", "n"]⟩ (.field .root (.oneOf [.int64 2]))
    ((Value.document a).same (.document b) = true ∧ s.hasDivision = false) ∧
      s.accepts a = s.accepts b ∧
      (IndexKey.ofBody [⟨["x", "m"]⟩] a == IndexKey.ofBody [⟨["x", "m"]⟩] b) = true ∧
      s.accepts b = r.accepts b := by
  intro a b s r
  have hab : (Value.document a).same (.document b) = true := by decide +kernel
  have hs : s.hasDivision = false := rfl
  have hsr : s.Alike r := .elemMatch _ (.field _ (.oneOf (by decide)))
  have hdocs := accepts_respects_same.1 a b hab
  exact ⟨⟨hab, hs⟩, hdocs.1 s hs, hdocs.2 _, accepts_respects_same.2 s r hsr b⟩

/-- Division does tell the forms of a number apart. -/
example :
    let s : Selector := .field ⟨["x"]⟩ (.modulo 2 0)
    (Value.int32 4).same (.double ⟨0x4010000000000000⟩) = true ∧
      s.accepts [("x", .int32 4)] = true ∧
      s.accepts [("x", .double ⟨0x4010000000000000⟩)] = false := by decide +kernel

end Selector

end DocFind
