import Mathlib.Logic.Basic

set_option autoImplicit false

/-!
# Loops

A loop is given by what one round does to the state, `none` where the loop ends.
`whileRounds` runs it for a number of rounds at most.  A measure that falls with
every round bounds the number of rounds; an invariant under which there is always
one more round shows that no number is enough.
-/

namespace WindradLogger.Lib

variable {σ : Type} {next : σ → Option σ}

/-- The state in which a loop ends within a number of rounds. -/
def whileRounds (next : σ → Option σ) : (rounds : Nat) → σ → Option σ
  | rounds, s =>
      match next s, rounds with
      | none, _ => some s
      | some _, 0 => none
      | some s', rounds + 1 => whileRounds next rounds s'

theorem whileRounds_of_end {s : σ} (h : next s = none) (rounds : Nat) :
    whileRounds next rounds s = some s := by
  unfold whileRounds
  rw [h]

theorem whileRounds_zero {s s' : σ} (h : next s = some s') : whileRounds next 0 s = none := by
  unfold whileRounds
  rw [h]

theorem whileRounds_succ {s s' : σ} (h : next s = some s') (rounds : Nat) :
    whileRounds next (rounds + 1) s = whileRounds next rounds s' := by
  conv => lhs; unfold whileRounds
  rw [h]

/-- A loop whose every round keeps `I` and lowers the measure ends, with `I`, in as
many rounds as the measure says. -/
theorem whileRounds_of_measure (I : σ → Prop) (measure : σ → Nat)
    (hround : ∀ s s', I s → next s = some s' → I s' ∧ measure s' < measure s) :
    ∀ {rounds : Nat} {s : σ}, I s → measure s ≤ rounds →
      ∃ s', whileRounds next rounds s = some s' ∧ I s' ∧ next s' = none := by
  intro rounds
  induction rounds with
  | zero =>
      intro s hs hmeasure
      cases hnext : next s with
      | none => exact ⟨s, whileRounds_of_end hnext 0, hs, hnext⟩
      | some s' =>
          obtain ⟨-, hlt⟩ := hround s s' hs hnext
          omega
  | succ rounds ih =>
      intro s hs hmeasure
      cases hnext : next s with
      | none => exact ⟨s, whileRounds_of_end hnext _, hs, hnext⟩
      | some s' =>
          obtain ⟨hs', hlt⟩ := hround s s' hs hnext
          rw [whileRounds_succ hnext]
          exact ih hs' (by omega)

/-- A loop that always finds one more round does not end. -/
theorem whileRounds_eq_none (I : σ → Prop)
    (hround : ∀ s, I s → ∃ s', next s = some s' ∧ I s') :
    ∀ (rounds : Nat) {s : σ}, I s → whileRounds next rounds s = none := by
  intro rounds
  induction rounds with
  | zero =>
      intro s hs
      obtain ⟨s', hnext, -⟩ := hround s hs
      exact whileRounds_zero hnext
  | succ rounds ih =>
      intro s hs
      obtain ⟨s', hnext, hs'⟩ := hround s hs
      rw [whileRounds_succ hnext]
      exact ih hs'

end WindradLogger.Lib
