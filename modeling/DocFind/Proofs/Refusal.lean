import Mathlib.Data.List.Forall2

/-!
# Results that may be refusals

Steps in a row succeed just if each of them does, and a refusal of the whole is a refusal of one
of the steps. `RefusedOnly` and `AcceptedOnly` state what all refusals or all results of a
computation have in common, and are carried along its steps.
-/
namespace DocFind

variable {ε ε' α β : Type}

theorem ok_bind (a : α) (f : α → Except ε β) : (Except.ok a >>= f) = f a := rfl

theorem error_bind (e : ε) (f : α → Except ε β) : (Except.error e >>= f) = .error e := rfl

theorem error_ne_ok (e : ε) (a : α) : (Except.error e : Except ε α) ≠ .ok a := nofun

@[simp] theorem bind_eq_ok {x : Except ε α} {f : α → Except ε β} {b : β} :
    (x >>= f) = .ok b ↔ ∃ a, x = .ok a ∧ f a = .ok b := by
  cases x <;> simp [bind, Except.bind]

@[simp] theorem map_eq_ok {x : Except ε α} {f : α → β} {b : β} :
    x.map f = .ok b ↔ ∃ a, x = .ok a ∧ f a = b := by
  cases x <;> simp [Except.map]

@[simp] theorem mapError_eq_ok {x : Except ε α} {f : ε → ε'} {a : α} :
    x.mapError f = .ok a ↔ x = .ok a := by
  cases x with
  | error e => exact ⟨fun h => (by cases h), fun h => (by cases h)⟩
  | ok b =>
    change (Except.ok b : Except ε' α) = .ok a ↔ _
    rw [Except.ok.injEq, Except.ok.injEq]

/-! ## Refused computations -/

/-- A computation ends in a refusal. -/
def Refused (x : Except ε α) : Prop := ∃ e, x = .error e

@[simp] theorem not_refused_ok (a : α) : ¬ Refused (.ok a : Except ε α) := by
  rintro ⟨e, he⟩
  cases he

@[simp] theorem refused_error (e : ε) : Refused (.error e : Except ε α) := ⟨e, rfl⟩

@[simp] theorem refused_bind {x : Except ε α} {f : α → Except ε β} :
    Refused (x >>= f) ↔ Refused x ∨ ∃ a, x = .ok a ∧ Refused (f a) := by
  cases x with
  | error e => simp [error_bind]
  | ok a => simp [ok_bind]

@[simp] theorem refused_mapError {x : Except ε α} {f : ε → ε'} :
    Refused (x.mapError f) ↔ Refused x := by
  cases x with
  | error e => exact iff_of_true ⟨f e, rfl⟩ ⟨e, rfl⟩
  | ok a => exact iff_of_false (not_refused_ok a) (not_refused_ok a)

/-- A list is refused for one of its elements. -/
theorem refused_mapM {f : α → Except ε β} (xs : List α) :
    Refused (xs.mapM f) ↔ ∃ x ∈ xs, Refused (f x) := by
  induction xs with
  | nil => simp [pure, Except.pure]
  | cons x xs ih =>
    rw [List.mapM_cons]
    simp only [refused_bind, ih, List.mem_cons, exists_eq_or_imp]
    cases hx : f x with
    | error e => simp
    | ok b => simp [pure, Except.pure]

/-- A list that is not refused yields a result for each of its elements. -/
theorem mapM_eq_ok {f : α → Except ε β} {xs : List α} {ys : List β} :
    xs.mapM f = .ok ys ↔ List.Forall₂ (fun x y => f x = .ok y) xs ys := by
  induction xs generalizing ys with
  | nil =>
    rw [List.forall₂_nil_left_iff]
    exact ⟨fun h => (Except.ok.inj h).symm, fun h => congrArg Except.ok h.symm⟩
  | cons x xs ih =>
    rw [List.mapM_cons, List.forall₂_cons_left_iff]
    simp only [bind_eq_ok, ih]
    constructor
    · rintro ⟨y, hy, rest, hrest, hys⟩
      exact ⟨y, rest, hy, hrest, (Except.ok.inj hys).symm⟩
    · rintro ⟨y, rest, hy, hrest, rfl⟩
      exact ⟨y, hy, rest, hrest, rfl⟩

theorem length_eq_of_mapM_ok {f : α → Except ε β} {xs : List α} {ys : List β}
    (h : xs.mapM f = .ok ys) : ys.length = xs.length :=
  (mapM_eq_ok.mp h).length_eq.symm

theorem mem_of_mapM_ok {f : α → Except ε β} {xs : List α} {ys : List β}
    (h : xs.mapM f = .ok ys) {y : β} (hy : y ∈ ys) : ∃ x ∈ xs, f x = .ok y := by
  replace h := mapM_eq_ok.mp h
  induction h with
  | nil => cases hy
  | cons hx _ ih =>
    rcases List.mem_cons.mp hy with rfl | hy
    · exact ⟨_, List.mem_cons_self, hx⟩
    · obtain ⟨x, hmem, hx⟩ := ih hy
      exact ⟨x, List.mem_cons_of_mem _ hmem, hx⟩

/-- Every refusal has the property. -/
def RefusedOnly (P : ε → Prop) (x : Except ε α) : Prop := ∀ e, x = .error e → P e

namespace RefusedOnly

variable {P : ε → Prop} {x : Except ε α}

theorem ok (a : α) : RefusedOnly P (.ok a : Except ε α) := fun _ h => by cases h

theorem error {e : ε} (h : P e) : RefusedOnly P (.error e : Except ε α) := by
  intro e' he
  cases he
  exact h

theorem mono {Q : ε → Prop} (hx : RefusedOnly P x) (h : ∀ e, P e → Q e) : RefusedOnly Q x :=
  fun e he => h e (hx e he)

theorem bind {f : α → Except ε β} (hx : RefusedOnly P x) (hf : ∀ a, RefusedOnly P (f a)) :
    RefusedOnly P (x >>= f) := by
  cases x with
  | error e => exact error (hx e rfl)
  | ok a => exact hf a

theorem map (hx : RefusedOnly P x) (f : α → β) : RefusedOnly P (x.map f) := by
  cases x with
  | error e => exact error (hx e rfl)
  | ok a => exact ok (f a)

/-- Renaming refusals so that all of them get the property. -/
theorem mapError {Q : ε' → Prop} {f : ε → ε'} (hf : ∀ e, Q (f e)) (x : Except ε α) :
    RefusedOnly Q (x.mapError f) := by
  cases x with
  | error e => exact error (hf e)
  | ok a => exact ok a

theorem mapM {f : α → Except ε β} (hf : ∀ a, RefusedOnly P (f a)) (xs : List α) :
    RefusedOnly P (xs.mapM f) := by
  induction xs with
  | nil => exact ok []
  | cons a xs ih =>
    rw [List.mapM_cons]
    exact bind (hf a) fun b => bind ih fun bs => ok (b :: bs)

end RefusedOnly

/-! ## Accepted computations -/

/-- A computation ends in a result. -/
def Accepted (x : Except ε α) : Prop := ∃ a, x = .ok a

@[simp] theorem accepted_ok (a : α) : Accepted (.ok a : Except ε α) := ⟨a, rfl⟩

@[simp] theorem not_accepted_error (e : ε) : ¬ Accepted (.error e : Except ε α) := by
  rintro ⟨a, ha⟩
  cases ha

/-- A step is taken after another if both can be taken. -/
theorem accepted_bind {x : Except ε α} {f : α → Except ε β} :
    Accepted (x >>= f) ↔ ∃ a, x = .ok a ∧ Accepted (f a) := by
  cases x with
  | error e => simp [error_bind]
  | ok a => simp [ok_bind]

/-- A step that is always taken changes nothing in whether there is a result. -/
theorem accepted_bind_ok {x : Except ε α} {f : α → β} :
    Accepted (x >>= fun a => .ok (f a)) ↔ Accepted x := by
  cases x with
  | error e => simp [error_bind]
  | ok a => simp [ok_bind]

/-- Two steps whose results are put together are taken if each can be. -/
theorem accepted_bind_bind_ok {γ : Type} {x : Except ε α} {y : Except ε β} {f : α → β → γ} :
    Accepted (x >>= fun a => y >>= fun b => .ok (f a b)) ↔ Accepted x ∧ Accepted y := by
  cases x with
  | error e => simp [error_bind]
  | ok a => simp [ok_bind, accepted_bind_ok]

/-- Every result has the property. -/
def AcceptedOnly (P : α → Prop) (x : Except ε α) : Prop := ∀ a, x = .ok a → P a

namespace AcceptedOnly

variable {P : α → Prop} {Q : β → Prop} {x : Except ε α}

theorem ok {a : α} (h : P a) : AcceptedOnly P (.ok a : Except ε α) := by
  intro b hb
  cases hb
  exact h

theorem error (e : ε) : AcceptedOnly P (.error e : Except ε α) := fun _ h => by cases h

theorem bind {f : α → Except ε β} (hx : AcceptedOnly P x) (hf : ∀ a, P a → AcceptedOnly Q (f a)) :
    AcceptedOnly Q (x >>= f) := by
  cases x with
  | error e => exact error e
  | ok a => exact hf a (hx a rfl)

end AcceptedOnly

end DocFind
