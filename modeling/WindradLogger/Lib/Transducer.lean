import Mathlib.Data.List.Basic

set_option autoImplicit false

/-!
# Machines with an output for every input

A machine reads one input at a time and gives an output for each, or stops.  The
state is carried along, so it does not matter how the inputs are cut into pieces.
-/

namespace WindradLogger.Lib

variable {σ ι ω : Type}

/-- The state after the inputs and their outputs, unless the machine stopped. -/
def transduce (step : σ → ι → Option (σ × ω)) (s : σ) : List ι → Option (σ × List ω)
  | [] => some (s, [])
  | i :: rest => do
      let (s, o) ← step s i
      let (s, os) ← transduce step s rest
      return (s, o :: os)

variable {step : σ → ι → Option (σ × ω)} {s s' s'' : σ}

@[simp] theorem transduce_nil : transduce step s [] = some (s, []) := rfl

theorem transduce_cons {i : ι} {rest : List ι} {o : ω} {os : List ω}
    (hfirst : step s i = some (s', o)) (hrest : transduce step s' rest = some (s'', os)) :
    transduce step s (i :: rest) = some (s'', o :: os) := by
  rw [transduce, hfirst]
  simp only [Option.bind_eq_bind, Option.bind_some, hrest, Option.pure_def]

theorem transduce_cons_eq_some {i : ι} {rest : List ι} {os : List ω} :
    transduce step s (i :: rest) = some (s'', os) ↔
      ∃ s' o os', step s i = some (s', o) ∧ transduce step s' rest = some (s'', os') ∧
        os = o :: os' := by
  constructor
  · intro h
    rw [transduce, Option.bind_eq_bind, Option.bind_eq_some_iff] at h
    obtain ⟨⟨s', o⟩, hfirst, h⟩ := h
    rw [Option.bind_eq_bind, Option.bind_eq_some_iff] at h
    obtain ⟨⟨t, os'⟩, hrest, hpure⟩ := h
    cases hpure
    exact ⟨s', o, os', hfirst, hrest, rfl⟩
  · rintro ⟨s', o, os', hfirst, hrest, rfl⟩
    exact transduce_cons hfirst hrest

/-- The inputs can be cut anywhere. -/
theorem transduce_append {first second : List ι} {os os' : List ω}
    (hfirst : transduce step s first = some (s', os))
    (hsecond : transduce step s' second = some (s'', os')) :
    transduce step s (first ++ second) = some (s'', os ++ os') := by
  induction first generalizing s os with
  | nil =>
      cases hfirst
      exact hsecond
  | cons i rest ih =>
      obtain ⟨t, o, osRest, hstep, hrest, rfl⟩ := transduce_cons_eq_some.mp hfirst
      exact transduce_cons hstep (ih hrest)

/-- What is left of a run behind a part of it. -/
theorem transduce_drop {first second : List ι} {os os' : List ω}
    (hall : transduce step s (first ++ second) = some (s'', os))
    (hfirst : transduce step s first = some (s', os')) :
    ∃ rest, transduce step s' second = some (s'', rest) ∧ os = os' ++ rest := by
  induction first generalizing s os os' with
  | nil =>
      cases hfirst
      exact ⟨os, hall, rfl⟩
  | cons i later ih =>
      obtain ⟨t, o, osLater, hstep, hlater, rfl⟩ := transduce_cons_eq_some.mp hall
      obtain ⟨t', o', osLater', hstep', hlater', rfl⟩ := transduce_cons_eq_some.mp hfirst
      rw [hstep] at hstep'
      cases hstep'
      obtain ⟨rest, hrest, rfl⟩ := ih hlater hlater'
      exact ⟨rest, hrest, rfl⟩

theorem transduce_concat {past : List ι} {i : ι} {o : ω} {os : List ω}
    (hpast : transduce step s past = some (s', os)) (hlast : step s' i = some (s'', o)) :
    transduce step s (past ++ [i]) = some (s'', os ++ [o]) :=
  transduce_append hpast (transduce_cons hlast transduce_nil)

/-- A machine that never stops has an output for every input of a run. -/
theorem exists_transduce (htotal : ∀ (s : σ) (i : ι), ∃ s' o, step s i = some (s', o)) (s : σ)
    (inputs : List ι) :
    ∃ s' os, transduce step s inputs = some (s', os) ∧ os.length = inputs.length := by
  induction inputs generalizing s with
  | nil => exact ⟨s, [], rfl, rfl⟩
  | cons i rest ih =>
      obtain ⟨s', o, hfirst⟩ := htotal s i
      obtain ⟨s'', os, hrest, hlength⟩ := ih s'
      exact ⟨s'', o :: os, transduce_cons hfirst hrest, congrArg Nat.succ hlength⟩

end WindradLogger.Lib
