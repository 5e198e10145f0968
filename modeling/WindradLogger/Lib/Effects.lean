import Mathlib.Order.Defs.Unbundled

set_option autoImplicit false

/-!
# Relations between the states before and after a computation

A computation over a state either returns or stops; in both cases it leaves a
state behind.  For a reflexive and transitive relation, "every run of `m` moves
the state along `R`" is closed under sequencing and branching.  A frame
property, an append-only history and an untouched parameter are all of this
form.
-/

namespace WindradLogger.Lib

variable {ε σ α β : Type}

/-- The state a computation leaves behind. -/
def finalState : EStateM.Result ε σ α → σ
  | .ok _ s => s
  | .error _ s => s

@[simp] theorem finalState_ok (a : α) (s : σ) :
    finalState (.ok a s : EStateM.Result ε σ α) = s := rfl

@[simp] theorem finalState_error (e : ε) (s : σ) :
    finalState (.error e s : EStateM.Result ε σ α) = s := rfl

/-- A sequence that returns has an intermediate result. -/
theorem run_bind_eq_ok {m : EStateM ε σ α} {f : α → EStateM ε σ β} {s s' : σ} {b : β} :
    (m >>= f).run s = .ok b s' ↔ ∃ a t, m.run s = .ok a t ∧ (f a).run t = .ok b s' := by
  rw [EStateM.run_bind]
  cases m.run s with
  | ok a t =>
      constructor
      · intro h
        exact ⟨a, t, rfl, h⟩
      · rintro ⟨a', t', hfirst, h⟩
        cases hfirst
        exact h
  | error e t =>
      constructor
      · intro h
        cases h
      · rintro ⟨a, t', hfirst, _⟩
        cases hfirst

/-- Every run of `m` moves the state along `R`. -/
def Moves (R : σ → σ → Prop) (m : EStateM ε σ α) : Prop :=
  ∀ s, R s (finalState (m.run s))

namespace Moves

variable {R : σ → σ → Prop}

theorem of_run {m : EStateM ε σ α} (h : Moves R m) {s s' : σ} {a : α}
    (hrun : m.run s = .ok a s') : R s s' := by
  have := h s
  rwa [hrun] at this

section Steps

variable [Std.Refl R]

theorem pure (a : α) : Moves R (Pure.pure a : EStateM ε σ α) :=
  fun s => Std.Refl.refl s

theorem throw (e : ε) : Moves R (MonadExcept.throw e : EStateM ε σ α) :=
  fun s => Std.Refl.refl s

theorem get : Moves R (MonadState.get : EStateM ε σ σ) :=
  fun s => Std.Refl.refl s

end Steps

theorem bind [IsTrans σ R] {m : EStateM ε σ α} {f : α → EStateM ε σ β}
    (hm : Moves R m) (hf : ∀ a, Moves R (f a)) : Moves R (m >>= f) := by
  intro s
  have hfirst := hm s
  rw [EStateM.run_bind]
  cases hrun : m.run s with
  | ok a s' =>
      rw [hrun] at hfirst
      exact IsTrans.trans s s' _ hfirst (hf a s')
  | error e s' =>
      rw [hrun] at hfirst
      exact hfirst

theorem ite {c : Prop} [Decidable c] {m m' : EStateM ε σ α} (hm : Moves R m)
    (hm' : Moves R m') : Moves R (if c then m else m') := by
  split
  · exact hm
  · exact hm'

end Moves

end WindradLogger.Lib
