import DocFind.Value
import DocFind.Proofs.Entries.Lookup
import Mathlib.Data.List.Infix

/-!
# Looking up and writing inside mappings

Segments lead from mapping to mapping, never into arrays. A value that is written where segments
lead is found there. What is above it becomes or stays a mapping, and what is neither above nor
below it stays as it was. To write what is there already changes nothing.
-/
namespace DocFind.Value

variable {v w : Value} {p q r : List String}

/-- The entries of a mapping; any other value has none. -/
def entries : Value → Body
  | document entries => entries
  | _ => []

/-- The part of a value that the segments lead to as the keys of mappings inside one another. -/
def inside? (v : Value) : List String → Option Value
  | [] => some v
  | key :: rest => (Entries.get? key v.entries).bind fun part => part.inside? rest

/-- The value that results from writing `v` where the segments lead: the mappings on the way are
kept, and made where there are none. -/
def writeInside (v : Value) : List String → Value → Value
  | [], _ => v
  | key :: rest, target =>
    let present := (Entries.get? key target.entries).getD (document [])
    document (Entries.put key (writeInside v rest present) target.entries)

theorem eq_document_of_get? {key : String} (h : Entries.get? key v.entries = some w) :
    v = document v.entries := by
  cases v with
  | document entries => rfl
  | _ => cases h

/-! ## Look-ups -/

theorem inside?_singleton (v : Value) (key : String) :
    v.inside? [key] = Entries.get? key v.entries := Option.bind_fun_some _

theorem inside?_append (v : Value) (p q : List String) :
    v.inside? (p ++ q) = (v.inside? p).bind fun part => part.inside? q := by
  induction p generalizing v with
  | nil => rfl
  | cons key rest ih => simp only [List.cons_append, inside?, Option.bind_assoc, ih]

theorem inside?_append_of_eq_some (h : v.inside? p = some w) (q : List String) :
    v.inside? (p ++ q) = w.inside? q := by
  rw [inside?_append, h, Option.bind_some]

/-- Above something there is a mapping. -/
theorem document_of_inside?_append (h : (v.inside? (q ++ r)).isSome) (hr : r ≠ []) :
    ∃ entries, v.inside? q = some (document entries) := by
  rw [inside?_append] at h
  obtain ⟨w, hw⟩ := Option.isSome_iff_exists.mp h
  obtain ⟨part, hpart, hw⟩ := Option.bind_eq_some_iff.mp hw
  obtain ⟨key, rest, rfl⟩ := List.exists_cons_of_ne_nil hr
  obtain ⟨below, hbelow, -⟩ := Option.bind_eq_some_iff.mp hw
  exact ⟨part.entries, by rw [hpart, ← eq_document_of_get? hbelow]⟩

theorem inside?_empty (hq : q ≠ []) : (document []).inside? q = none := by
  obtain ⟨key, rest, rfl⟩ := List.exists_cons_of_ne_nil hq
  rfl

/-! ## Writing -/

theorem inside?_writeInside_cons (v target : Value) (key : String) (p q : List String) :
    (writeInside v (key :: p) target).inside? (key :: q) =
      (writeInside v p ((Entries.get? key target.entries).getD (document []))).inside? q := by
  rw [writeInside, inside?, entries, Entries.get?_put, if_pos rfl, Option.bind_some]

/-- On the way to what is written, what was there is written to. -/
theorem inside?_writeInside_append (v target : Value) (q r : List String) :
    (writeInside v (q ++ r) target).inside? q =
      some (writeInside v r ((target.inside? q).getD (document []))) := by
  induction q generalizing target with
  | nil => rfl
  | cons key q ih =>
    rw [List.cons_append, inside?_writeInside_cons, ih, inside?]
    cases Entries.get? key target.entries with
    | some part => rfl
    | none =>
      cases q with
      | nil => rfl
      | cons => rfl

/-- What is written is found where it was written, with all that is inside it. -/
theorem inside?_writeInside_below (v target : Value) (p r : List String) :
    (writeInside v p target).inside? (p ++ r) = v.inside? r := by
  have hfound := inside?_writeInside_append v target p []
  rw [List.append_nil] at hfound
  exact inside?_append_of_eq_some hfound r

/-- Beside the way nothing changes. -/
theorem inside?_writeInside_of_not_prefix (v target : Value) (hp : ¬ p <+: q) (hq : ¬ q <+: p) :
    (writeInside v p target).inside? q = target.inside? q := by
  induction p generalizing q target with
  | nil => exact absurd List.nil_prefix hp
  | cons key p ih =>
    cases q with
    | nil => exact absurd List.nil_prefix hq
    | cons other q =>
      by_cases hkey : key = other
      · subst hkey
        rw [List.prefix_cons_inj] at hp hq
        rw [inside?_writeInside_cons, ih _ hp hq, inside?]
        cases Entries.get? key target.entries with
        | some part => rfl
        | none =>
          have hne : q ≠ [] := fun h => hq (h ▸ List.nil_prefix)
          exact inside?_empty hne
      · rw [writeInside, inside?, entries, Entries.get?_put, if_neg hkey, inside?]

/-- To write what is there already changes nothing. -/
theorem writeInside_eq_self {target : Value} (h : target.inside? p = some v) :
    writeInside v p target = target := by
  induction p generalizing target with
  | nil => exact (Option.some.inj h).symm
  | cons key p ih =>
    obtain ⟨part, hpart, hrest⟩ := Option.bind_eq_some_iff.mp h
    rw [writeInside, hpart, Option.getD_some, ih hrest, Entries.put_of_get? hpart]
    exact (eq_document_of_get? hpart).symm

/-- Writing what a source holds changes nothing in a part that is as in the source. -/
theorem inside?_writeInside_of_same {source target : Value}
    (hv : source.inside? (q ++ r) = some v) (hsame : target.inside? q = source.inside? q) :
    (writeInside v (q ++ r) target).inside? q = source.inside? q := by
  rw [inside?_append] at hv
  obtain ⟨part, hpart, hbelow⟩ := Option.bind_eq_some_iff.mp hv
  rw [inside?_writeInside_append, hsame, hpart, Option.getD_some, writeInside_eq_self hbelow]

/-- A mapping without repeated keys is what is found above something written to one. -/
theorem nodup_keys_writeInside (v : Value) {target : Value} (hp : p ≠ [])
    (h : (Entries.keys target.entries).Nodup) :
    ∃ entries, writeInside v p target = document entries ∧ (Entries.keys entries).Nodup := by
  obtain ⟨key, rest, rfl⟩ := List.exists_cons_of_ne_nil hp
  exact ⟨_, rfl, Entries.nodup_keys_put key _ h⟩

end DocFind.Value
