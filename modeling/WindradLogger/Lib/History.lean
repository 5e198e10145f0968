import Mathlib.Data.List.Induction

set_option autoImplicit false

/-!
# Runs of a system that can stop

A step may stop the system (`none`), for instance at a failed assertion; a run
is then a fold in `Option`.  What a system remembers is best described by the
inputs it has seen: an invariant relates the state to the history of the run.
The rules below are the inductions over the history.
-/

namespace WindradLogger.Lib

variable {σ ι : Type}

/-- The state after a run, unless the system stopped. -/
def runFrom (step : σ → ι → Option σ) (s : σ) (run : List ι) : Option σ :=
  run.foldlM step s

variable {step : σ → ι → Option σ} {s s' : σ}

@[simp] theorem runFrom_nil : runFrom step s [] = some s := rfl

theorem runFrom_concat (run : List ι) (i : ι) :
    runFrom step s (run ++ [i]) = (runFrom step s run).bind fun s' => step s' i := by
  simp [runFrom, List.foldlM_append, Option.bind_eq_bind]

/-- The last step of a run. -/
theorem runFrom_concat_eq_some {run : List ι} {i : ι} :
    runFrom step s (run ++ [i]) = some s' ↔
      ∃ before, runFrom step s run = some before ∧ step before i = some s' := by
  rw [runFrom_concat, Option.bind_eq_some_iff]

/-- The first step of a run. -/
theorem runFrom_cons_eq_some {run : List ι} {i : ι} :
    runFrom step s (i :: run) = some s' ↔
      ∃ after, step s i = some after ∧ runFrom step after run = some s' := by
  rw [runFrom, List.foldlM_cons, Option.bind_eq_bind, Option.bind_eq_some_iff]
  rfl

/-- A run in two parts. -/
theorem runFrom_append_eq_some {run later : List ι} :
    runFrom step s (run ++ later) = some s' ↔
      ∃ between, runFrom step s run = some between ∧ runFrom step between later = some s' := by
  rw [runFrom, List.foldlM_append, Option.bind_eq_bind, Option.bind_eq_some_iff]
  rfl

/-- What holds at the start and is preserved by every step that a run can come to
holds after every run. -/
theorem runFrom_induction (I : List ι → σ → Prop) (hstart : I [] s)
    (hstep : ∀ past before i after, runFrom step s past = some before → I past before →
      step before i = some after → I (past ++ [i]) after) :
    ∀ {run : List ι} {s' : σ}, runFrom step s run = some s' → I run s' := by
  intro run
  induction run using List.reverseRecOn with
  | nil =>
      intro s' hrun
      cases hrun
      exact hstart
  | append_singleton past i ih =>
      intro s' hrun
      obtain ⟨before, hpast, hlast⟩ := runFrom_concat_eq_some.mp hrun
      exact hstep past before i s' hpast (ih hpast) hlast

/-- The same for what every step preserves that does not stop the system. -/
theorem runFrom_invariant (I : List ι → σ → Prop) (hstart : I [] s)
    (hstep : ∀ past before i after, I past before → step before i = some after →
      I (past ++ [i]) after) :
    ∀ {run : List ι} {s' : σ}, runFrom step s run = some s' → I run s' :=
  runFrom_induction I hstart fun past before i after _ => hstep past before i after

/-- A system whose invariant rules out stopping runs for ever. -/
theorem runFrom_total (I : List ι → σ → Prop) (hstart : I [] s)
    (hstep : ∀ past before i, I past before →
      ∃ after, step before i = some after ∧ I (past ++ [i]) after) :
    ∀ run : List ι, ∃ s', runFrom step s run = some s' ∧ I run s' := by
  intro run
  induction run using List.reverseRecOn with
  | nil => exact ⟨s, rfl, hstart⟩
  | append_singleton past i ih =>
      obtain ⟨before, hpast, hinv⟩ := ih
      obtain ⟨after, hlast, hafter⟩ := hstep past before i hinv
      exact ⟨after, runFrom_concat_eq_some.mpr ⟨before, hpast, hlast⟩, hafter⟩

/-- An element of a history with one more at its end is that one or an earlier
one. -/
theorem concat_eq_append_cons {α : Type} {past before after : List α} {last x : α}
    (h : past ++ [last] = before ++ x :: after) :
    (after = [] ∧ past = before ∧ last = x) ∨
      ∃ after', after = after' ++ [last] ∧ past = before ++ x :: after' := by
  rcases after.eq_nil_or_concat with rfl | ⟨after', z, rfl⟩
  · obtain ⟨hpast, hlast⟩ := List.append_inj' h rfl
    exact Or.inl ⟨rfl, hpast, List.head_eq_of_cons_eq hlast⟩
  · rw [List.concat_eq_append, ← List.cons_append, ← List.append_assoc] at h
    obtain ⟨hpast, hlast⟩ := List.append_inj' h rfl
    obtain rfl := List.head_eq_of_cons_eq hlast
    exact Or.inr ⟨after', List.concat_eq_append, hpast⟩

/-- The inputs of a run, each with the state it was applied to, as far as the
system did not stop. -/
def stepsFrom (step : σ → ι → Option σ) (s : σ) : List ι → List (σ × ι)
  | [] => []
  | i :: rest =>
      (s, i) :: match step s i with
        | some after => stepsFrom step after rest
        | none => []

theorem stepsFrom_concat {past : List ι} (hpast : runFrom step s past = some s') (i : ι) :
    stepsFrom step s (past ++ [i]) = stepsFrom step s past ++ [(s', i)] := by
  induction past generalizing s with
  | nil =>
      cases hpast
      rw [List.nil_append, stepsFrom, stepsFrom]
      split
      · rfl
      · rfl
  | cons first rest ih =>
      obtain ⟨after, hfirst, hrest⟩ := runFrom_cons_eq_some.mp hpast
      rw [List.cons_append, stepsFrom, stepsFrom, hfirst]
      exact congrArg _ (ih hrest)

/-- A part of a system that sees some of the inputs: a run of the system is, for
the part, a run of the inputs it sees. -/
theorem runFrom_part {τ κ : Type} {stepPart : τ → κ → Option τ} (part : σ → τ)
    (sees : ι → Option κ)
    (hstep : ∀ before i after, step before i = some after →
      match sees i with
      | some k => stepPart (part before) k = some (part after)
      | none => part after = part before) :
    ∀ {run : List ι} {s' : σ}, runFrom step s run = some s' →
      runFrom stepPart (part s) (run.filterMap sees) = some (part s') := by
  refine runFrom_invariant
    (fun past s' => runFrom stepPart (part s) (past.filterMap sees) = some (part s')) rfl ?_
  intro past before i after hpast hlast
  have hpart := hstep before i after hlast
  rw [List.filterMap_append, List.filterMap_cons, List.filterMap_nil]
  cases hsees : sees i with
  | some k =>
      rw [hsees] at hpart
      exact runFrom_concat_eq_some.mpr ⟨part before, hpast, hpart⟩
  | none =>
      rw [hsees] at hpart
      rw [List.append_nil, hpart]
      exact hpast

end WindradLogger.Lib
