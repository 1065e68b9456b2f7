import ModularEncryption.Error.Basic

/-! # Refusals

An operation that checks its input first is a sequence of checks, each of which refuses or lets pass
(`refuseIf`), and what follows them. A sequence succeeds exactly if every step does
(`bind_eq_ok_iff`), and its error is that of the first step that fails (`bind_eq_error_iff`). -/

namespace ModularEncryption

variable {ε α β : Type}

/-- Refuses for a cause, if a condition holds. -/
def refuseIf (condition : Prop) [Decidable condition] (cause : Cause) : Except Error Unit :=
  if condition then .error { cause } else .ok ()

theorem refuseIf_eq_ok_iff {condition : Prop} [Decidable condition] {cause : Cause} {u : Unit} :
    refuseIf condition cause = .ok u ↔ ¬ condition := by
  unfold refuseIf
  split <;> simp_all

theorem refuseIf_eq_error_iff {condition : Prop} [Decidable condition] {cause : Cause}
    {e : Error} : refuseIf condition cause = .error e ↔ condition ∧ e = { cause } := by
  unfold refuseIf
  split <;> simp_all [eq_comm]

theorem bind_eq_ok_iff {x : Except ε α} {f : α → Except ε β} {b : β} :
    x >>= f = .ok b ↔ ∃ a, x = .ok a ∧ f a = .ok b := by
  cases x <;> simp [bind, Except.bind]

theorem bind_eq_error_iff {x : Except ε α} {f : α → Except ε β} {e : ε} :
    x >>= f = .error e ↔ x = .error e ∨ ∃ a, x = .ok a ∧ f a = .error e := by
  cases x <;> simp [bind, Except.bind]

theorem mapError_eq_ok_iff {x : Except ε α} {f : ε → β} {a : α} :
    x.mapError f = .ok a ↔ x = .ok a := by
  constructor
  · intro h
    cases x <;> cases h
    rfl
  · rintro rfl
    rfl

theorem mapError_eq_error_iff {x : Except ε α} {f : ε → β} {e : β} :
    x.mapError f = .error e ↔ ∃ e', x = .error e' ∧ f e' = e := by
  constructor
  · intro h
    cases x <;> cases h
    exact ⟨_, rfl, rfl⟩
  · rintro ⟨e', rfl, rfl⟩
    rfl

end ModularEncryption
