import DocFind.Selector.Constraints
import DocFind.Selector.Matching
import Mathlib.Tactic.SplitIfs

/-!
# Conjuncts

A selector holds just if all of its conjuncts hold, so it splits at any set of their positions into
the conjuncts there and the residual without them.
-/
namespace DocFind

namespace Selector

theorem holdsAll_eq_all (t : Target) (parts : List Selector) :
    holdsAll t parts = parts.all fun s => s.holds t := by
  induction parts with
  | nil => rfl
  | cons s rest ih => rw [holdsAll, List.all_cons, ih]

theorem conjoin_holds (t : Target) (parts : List Selector) :
    (conjoin parts).holds t = parts.all fun s => s.holds t := by
  match parts with
  | [] => rfl
  | [s] => simp [conjoin]
  | s :: r :: rest => exact holdsAll_eq_all t (s :: r :: rest)

mutual

/-- A selector holds just if its conjuncts do. -/
theorem holds_eq_conjuncts (t : Target) (s : Selector) :
    s.holds t = s.conjuncts.all fun part => part.holds t := by
  match s with
  | combine .and children =>
    rw [holds, conjuncts]
    exact holdsAll_eq_conjuncts t children
  | combine .or _ | combine .nor _ | not _ | field _ _ | elemMatch _ _ => simp [conjuncts]
termination_by structural s

theorem holdsAll_eq_conjuncts (t : Target) (parts : List Selector) :
    holdsAll t parts = (conjunctsOfAll parts).all fun part => part.holds t := by
  match parts with
  | [] => rfl
  | s :: rest =>
    rw [holdsAll, conjunctsOfAll, List.all_append, holds_eq_conjuncts t s,
      holdsAll_eq_conjuncts t rest]
termination_by structural parts

end

theorem mem_conjunctsOfAll {part : Selector} {parts : List Selector} :
    part ∈ conjunctsOfAll parts ↔ ∃ s ∈ parts, part ∈ s.conjuncts := by
  induction parts with
  | nil => simp [conjunctsOfAll]
  | cons s rest ih => simp [conjunctsOfAll, ih]

end Selector

namespace Constraints

variable {c : Constraints} {path : FieldPath}

/-- The conjuncts at some positions accept a body. -/
def AcceptAt (c : Constraints) (positions : List Nat) (body : Body) : Prop :=
  ∀ i ∈ positions, ∀ s, c.conjuncts[i]? = some s → s.accepts body = true

theorem acceptAt_append {ps qs : List Nat} {body : Body} :
    c.AcceptAt (ps ++ qs) body ↔ c.AcceptAt ps body ∧ c.AcceptAt qs body := by
  simp only [AcceptAt, List.mem_append, or_imp, forall_and]

theorem acceptAt_singleton {i : Nat} {s : Selector} (h : c.conjuncts[i]? = some s) (body : Body) :
    c.AcceptAt [i] body ↔ s.accepts body = true := by
  simp [AcceptAt, h]

theorem mem_unused {used : List Nat} {s : Selector} :
    s ∈ c.unused used ↔ ∃ i ∉ used, c.conjuncts[i]? = some s := by
  simp only [unused, List.mem_filterMap, Prod.exists, List.mem_zipIdx_iff_getElem?]
  constructor
  · rintro ⟨r, i, hr, hs⟩
    split_ifs at hs with hi
    obtain rfl := Option.some.inj hs
    exact ⟨i, hi, hr⟩
  · rintro ⟨i, hi, hs⟩
    exact ⟨s, i, hs, if_neg hi⟩

/-- Of a single conjunct all or nothing is left. -/
theorem unused_of_singleton {s : Selector} (h : c.conjuncts = [s]) (used : List Nat) :
    c.unused used = [] ∨ c.unused used = [s] := by
  by_cases hused : 0 ∈ used
  · exact .inl (by simp [unused, h, hused])
  · exact .inr (by simp [unused, h, hused])

theorem residual_eq_some {used : List Nat} {r : Selector} (h : c.residual used = some r) :
    c.unused used ≠ [] ∧ r = Selector.conjoin (c.unused used) := by
  rw [residual] at h
  split_ifs at h with hnil
  exact ⟨fun he => hnil (List.isEmpty_iff.mpr he), (Option.some.inj h).symm⟩

theorem residual_accepts (used : List Nat) (body : Body) :
    (c.residual used).all (fun s => s.accepts body) = true ↔
      ∀ i ∉ used, ∀ s, c.conjuncts[i]? = some s → s.accepts body = true := by
  have hall : (c.residual used).all (fun s => s.accepts body) =
      (c.unused used).all fun s => s.accepts body := by
    rw [residual]
    split_ifs with hnil
    · rw [List.isEmpty_iff.mp hnil]
      rfl
    · exact Selector.conjoin_holds (.body body) _
  rw [hall, List.all_eq_true]
  constructor
  · exact fun h i hi s hs => h s (mem_unused.mpr ⟨i, hi, hs⟩)
  · intro h s hs
    obtain ⟨i, hi, hs⟩ := mem_unused.mp hs
    exact h i hi s hs

/-- A selector splits into the conjuncts at some positions and the residual without them. -/
theorem accepts_iff_used_and_residual (s : Selector) (used : List Nat) (body : Body) :
    s.accepts body = true ↔ (ofSelector s).AcceptAt used body ∧
      ((ofSelector s).residual used).all (fun r => r.accepts body) = true := by
  rw [residual_accepts, Selector.accepts, Selector.holds_eq_conjuncts, List.all_eq_true]
  constructor
  · intro h
    exact ⟨fun i _ r hr => h r (List.mem_of_getElem? hr),
      fun i _ r hr => h r (List.mem_of_getElem? hr)⟩
  · rintro ⟨hused, hrest⟩ r hr
    obtain ⟨i, hi⟩ := List.mem_iff_getElem?.mp hr
    by_cases hin : i ∈ used
    · exact hused i hin r hi
    · exact hrest i hin r hi

end Constraints

end DocFind
