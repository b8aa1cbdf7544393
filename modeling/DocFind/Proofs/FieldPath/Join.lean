import DocFind.FieldPath.Resolve
import DocFind.Selector.Matching

/-!
# Joined paths

Following a joined path is following its parts one after the other. A path that was read from a
text has segments, so it leads somewhere below the value that it starts from, be that the body of a
document or an element of an array.
-/
namespace DocFind

namespace FieldPath

theorem splitPieces_ne_nil (cs : List Char) : splitPieces cs ≠ [] := by
  have hcons (c : Char) (pieces : List (List Char)) : consFirst c pieces ≠ [] := by
    cases pieces <;> simp [consFirst]
  fun_cases splitPieces cs
  · simp
  · simp
  · exact hcons _ _
  · simp
  · exact hcons _ _

theorem parse_isRoot {raw : String} {path : FieldPath} (h : parse raw = .ok path) :
    path.isRoot = false := by
  unfold parse at h
  split at h
  · cases h
  · simp only at h
    split at h
    · cases h
    · split at h
      · cases h
      · obtain rfl := Except.ok.inj h
        simp [isRoot, splitPieces_ne_nil]

theorem isRoot_join (path below : FieldPath) :
    (path.join below).isRoot = (path.isRoot && below.isRoot) := by
  rw [Bool.eq_iff_iff]
  simp [isRoot, join]

end FieldPath

namespace Value

theorem follow?_append (v : Value) (front rest : List String) :
    v.follow? (front ++ rest) = (v.follow? front).bind fun part => part.follow? rest := by
  induction front generalizing v with
  | nil => rfl
  | cons segment front ih =>
    rw [List.cons_append, follow?, follow?]
    cases v.step? segment with
    | none => rfl
    | some part => exact ih part

theorem resolve?_join (v : Value) (path below : FieldPath) :
    v.resolve? (path.join below) = (v.resolve? path).bind fun part => part.resolve? below :=
  follow?_append v path.segments below.segments

end Value

namespace Target

variable {t : Target} {path : FieldPath}

/-- The value that paths start from. -/
def value : Target → Value
  | body b => .document b
  | element v => v

/-- The path without segments addresses elements of arrays only. -/
def Addresses (t : Target) (path : FieldPath) : Prop :=
  path.isRoot = true → ∃ v, t = element v

theorem addresses_root (v : Value) : (element v).Addresses FieldPath.root := fun _ => ⟨v, rfl⟩

theorem addresses_of_parse (t : Target) {raw : String} (h : FieldPath.parse raw = .ok path) :
    t.Addresses path := fun hroot => by
  rw [FieldPath.parse_isRoot h] at hroot
  cases hroot

theorem Addresses.join (h : t.Addresses path) (below : FieldPath) :
    t.Addresses (path.join below) := fun hroot => by
  rw [FieldPath.isRoot_join, Bool.and_eq_true] at hroot
  exact h hroot.1

theorem Addresses.get?_eq (h : t.Addresses path) : t.get? path = t.value.resolve? path := by
  cases t with
  | element v => rfl
  | body b =>
    have hroot : ¬ path.isRoot = true := fun hroot => by
      obtain ⟨v, hv⟩ := h hroot
      cases hv
    exact if_neg hroot

theorem Addresses.get?_join (h : t.Addresses path) (below : FieldPath) :
    t.get? (path.join below) = (t.get? path).bind fun part => part.resolve? below := by
  rw [(h.join below).get?_eq, h.get?_eq, Value.resolve?_join]

end Target

end DocFind
