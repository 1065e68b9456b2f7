/-! # Steps that succeed

A step that may fail and changes a state is described by a condition on its result and on the state
after it. `Succeeds` says that the step does not fail and that the condition is met; for a sequence
it follows from what is known of each of its steps (`Succeeds.bind`). -/

namespace ModularEncryption

variable {ε σ α β : Type}

/-- From a state a step succeeds, and its result and the state after it meet a condition. -/
def Succeeds (x : ExceptT ε (StateM σ) α) (s : σ) (post : α → σ → Prop) : Prop :=
  ∃ a s', x s = (.ok a, s') ∧ post a s'

namespace Succeeds

variable {x : ExceptT ε (StateM σ) α} {f : α → ExceptT ε (StateM σ) β} {s : σ}

theorem pure {a : α} {post : α → σ → Prop} (h : post a s) :
    Succeeds (Pure.pure a : ExceptT ε (StateM σ) α) s post :=
  ⟨a, s, rfl, h⟩

/-- What follows a step starts from the outcome of the step. -/
theorem run_bind {a : α} {s' : σ} {post : β → σ → Prop} (hx : x s = (.ok a, s'))
    (hf : Succeeds (f a) s' post) : Succeeds (x >>= f) s post := by
  obtain ⟨b, s'', hfa, hpost⟩ := hf
  refine ⟨b, s'', ?_, hpost⟩
  show (match x s with | (r, s') => ExceptT.bindCont f r s') = _
  rw [hx]
  exact hfa

/-- What follows a step may use the condition that the step meets. -/
theorem bind {mid : α → σ → Prop} {post : β → σ → Prop} (h : Succeeds x s mid)
    (hf : ∀ a s', mid a s' → Succeeds (f a) s' post) : Succeeds (x >>= f) s post := by
  obtain ⟨a, s', hx, hmid⟩ := h
  exact run_bind hx (hf a s' hmid)

theorem mono {post post' : α → σ → Prop} (h : Succeeds x s post)
    (himp : ∀ a s', post a s' → post' a s') : Succeeds x s post' := by
  obtain ⟨a, s', hx, hpost⟩ := h
  exact ⟨a, s', hx, himp a s' hpost⟩

/-! ### First steps -/

theorem get_bind {g : σ → ExceptT ε (StateM σ) β} {post : β → σ → Prop}
    (h : Succeeds (g s) s post) : Succeeds (MonadState.get >>= g) s post := h

theorem set_bind {g : PUnit → ExceptT ε (StateM σ) β} {s' : σ} {post : β → σ → Prop}
    (h : Succeeds (g ⟨⟩) s' post) : Succeeds (MonadStateOf.set s' >>= g) s post := h

theorem modify_bind {u : σ → σ} {g : PUnit → ExceptT ε (StateM σ) β} {post : β → σ → Prop}
    (h : Succeeds (g ⟨⟩) (u s) post) : Succeeds (modifyThe σ u >>= g) s post := h

/-- A result that is no error leaves the state alone. -/
theorem lift_bind {r : Except ε α} {a : α} {post : β → σ → Prop} (hr : r = .ok a)
    (h : Succeeds (f a) s post) : Succeeds (liftM r >>= f) s post := by
  subst hr
  exact h

end Succeeds

end ModularEncryption
