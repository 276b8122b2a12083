import Mathlib.Tactic.Common

/-!
# Computations that may fail

How a bind, a map and a fold over a list come to a result, without a state or with one.
-/

namespace SmallCpp

variable {ε α β : Type}

/-- A bind that succeeds has passed through a result of its first part. -/
theorem Except.bind_eq_ok {r : Except ε α} {f : α → Except ε β} {b : β}
    (h : r >>= f = .ok b) : ∃ a, r = .ok a ∧ f a = .ok b := by
  cases r with
  | ok a => exact ⟨a, rfl, h⟩
  | error e => cases h

/-- A map that succeeds is the image of a result. -/
theorem Except.map_eq_ok {r : Except ε α} {f : α → β} {b : β}
    (h : r.map f = .ok b) : ∃ a, r = .ok a ∧ f a = b := by
  cases r with
  | ok a => cases h; exact ⟨a, rfl, rfl⟩
  | error e => cases h

/-- What is said to be a result is one. -/
theorem Except.exists_of_isOk {r : Except ε α} (h : r.isOk = true) : ∃ a, r = .ok a := by
  cases r with
  | ok a => exact ⟨a, rfl⟩
  | error e => cases h

/-- A result is what its option holds. -/
theorem Except.eq_ok_of_toOption {r : Except ε α} {a : α} (h : r.toOption = some a) :
    r = .ok a := by
  cases r with
  | ok b => exact congrArg _ (Option.some.inj h)
  | error e => cases h

/-- A fold that succeeds keeps what each of its steps keeps; `P` speaks of the members that are done
and of the state reached with them. -/
theorem Except.foldlM_invariant {f : α → β → Except ε α} {P : List β → α → Prop} {xs : List β}
    {s s' : α} (hstep : ∀ done x s s', P done s → f s x = .ok s' → P (done ++ [x]) s')
    (hs : P [] s) (h : xs.foldlM f s = .ok s') : P xs s' := by
  suffices ∀ done, P done s → P (done ++ xs) s' from this [] hs
  clear hs
  induction xs generalizing s with
  | nil =>
    cases h
    intro done hs
    rwa [List.append_nil]
  | cons x xs ih =>
    intro done hs
    rw [List.foldlM_cons] at h
    obtain ⟨t, ht, h⟩ := Except.bind_eq_ok h
    rw [List.append_cons]
    exact ih h (done ++ [x]) (hstep done x s t hs ht)

/-- One part after another, from a state. -/
theorem EStateM.bind_apply {σ : Type} (x : EStateM ε σ α) (f : α → EStateM ε σ β) (s : σ) :
    (x >>= f) s =
      match x s with
      | .ok a s' => f a s'
      | .error e s' => .error e s' := by
  simp only [bind, EStateM.bind]
  cases x s <;> rfl

/-- A part that comes to a result is followed by the next. -/
theorem EStateM.bind_of_ok {σ : Type} {x : EStateM ε σ α} {f : α → EStateM ε σ β} {s s' : σ} {a : α}
    (h : x s = .ok a s') : (x >>= f) s = f a s' := by
  rw [bind_apply, h]

/-- A part that stops is not followed by another. -/
theorem EStateM.bind_of_error {σ : Type} {x : EStateM ε σ α} {f : α → EStateM ε σ β} {s s' : σ}
    {e : ε} (h : x s = .error e s') : (x >>= f) s = .error e s' := by
  rw [bind_apply, h]

/-- One part after another comes to a result only through results of both. -/
theorem EStateM.bind_eq_ok {σ : Type} {x : EStateM ε σ α} {f : α → EStateM ε σ β} {s s' : σ} {b : β}
    (h : (x >>= f) s = .ok b s') : ∃ a t, x s = .ok a t ∧ f a t = .ok b s' := by
  rw [bind_apply] at h
  cases hx : x s with
  | ok a t =>
    rw [hx] at h
    exact ⟨a, t, rfl, h⟩
  | error e t =>
    rw [hx] at h
    cases h

end SmallCpp
