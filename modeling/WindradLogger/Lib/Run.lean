import Mathlib.Logic.Basic
import Mathlib.Data.List.Infix
import Mathlib.Data.List.Induction

set_option autoImplicit false

/-!
# Runs of a deterministic system

A system takes one input at a time; a run is a list of inputs, and the state it
ends in is a fold.  Many statements hold of a run only when every input meets a
condition in the state it finds.  `EachStep` is that condition, and the rules
below are the inductions over runs: an invariant carries over, a condition can
be exchanged for another, a step-by-step simulation is one of whole runs.
-/

namespace WindradLogger.Lib

variable {σ τ ι : Type}

/-- What holds at the start, of the state and the inputs so far, and is kept by
every step, holds after every run. -/
theorem foldl_invariant {step : σ → ι → σ} {s : σ} (I : List ι → σ → Prop) (hstart : I [] s)
    (hstep : ∀ past i, I past (past.foldl step s) → I (past ++ [i]) (step (past.foldl step s) i))
    (run : List ι) : I run (run.foldl step s) := by
  induction run using List.reverseRecOn with
  | nil => exact hstart
  | append_singleton past i ih =>
      rw [List.foldl_concat]
      exact hstep past i ih

/-- Every input of the run meets `P` in the state it finds. -/
def EachStep (step : σ → ι → σ) (P : σ → ι → Prop) : σ → List ι → Prop
  | _, [] => True
  | s, i :: rest => P s i ∧ EachStep step P (step s i) rest

instance instDecidableEachStep (step : σ → ι → σ) (P : σ → ι → Prop)
    [∀ s i, Decidable (P s i)] : ∀ (s : σ) (run : List ι), Decidable (EachStep step P s run)
  | _, [] => inferInstanceAs (Decidable True)
  | s, i :: rest =>
      have := instDecidableEachStep step P (step s i) rest
      inferInstanceAs (Decidable (_ ∧ _))

namespace EachStep

variable {step : σ → ι → σ} {P Q : σ → ι → Prop}

@[simp] theorem nil {s : σ} : EachStep step P s [] ↔ True := Iff.rfl

@[simp] theorem cons {s : σ} {i : ι} {rest : List ι} :
    EachStep step P s (i :: rest) ↔ P s i ∧ EachStep step P (step s i) rest := Iff.rfl

theorem append {run run' : List ι} {s : σ} :
    EachStep step P s (run ++ run') ↔
      EachStep step P s run ∧ EachStep step P (run.foldl step s) run' := by
  induction run generalizing s with
  | nil => simp
  | cons i rest ih => simp [ih, and_assoc]

/-- The condition is met when it is met after every part of the run. -/
theorem of_prefixes {run : List ι} {s : σ}
    (h : ∀ past i, past ++ [i] <+: run → P (past.foldl step s) i) : EachStep step P s run := by
  induction run using List.reverseRecOn with
  | nil => trivial
  | append_singleton past i ih =>
      refine append.mpr ⟨ih fun earlier j hj => h earlier j (hj.trans ?_), ?_, trivial⟩
      · exact List.prefix_append past [i]
      · exact h past i List.prefix_rfl

/-- What every step that meets its condition preserves, a run preserves. -/
theorem invariant (I : σ → Prop) (hstep : ∀ s i, I s → P s i → I (step s i)) :
    ∀ {run : List ι} {s : σ}, I s → EachStep step P s run → I (run.foldl step s) := by
  intro run
  induction run with
  | nil =>
      intro s hs _
      exact hs
  | cons i rest ih =>
      intro s hs hrun
      exact ih (hstep s i hs hrun.1) hrun.2

/-- Under an invariant of the system one condition can stand for another. -/
theorem congr (I : σ → Prop) (hstep : ∀ s i, I s → I (step s i))
    (h : ∀ s i, I s → (P s i ↔ Q s i)) :
    ∀ {run : List ι} {s : σ}, I s → (EachStep step P s run ↔ EachStep step Q s run) := by
  intro run
  induction run with
  | nil =>
      intro s _
      rfl
  | cons i rest ih =>
      intro s hs
      rw [cons, cons, h s i hs, ih (hstep s i hs)]

/-- A weaker condition is met as well. -/
theorem imp (I : σ → Prop) (hstep : ∀ s i, I s → P s i → I (step s i))
    (h : ∀ s i, I s → P s i → Q s i) :
    ∀ {run : List ι} {s : σ}, I s → EachStep step P s run → EachStep step Q s run := by
  intro run
  induction run with
  | nil =>
      intro s _ _
      trivial
  | cons i rest ih =>
      intro s hs hrun
      exact ⟨h s i hs hrun.1, ih (hstep s i hs hrun.1) hrun.2⟩

/-- Steps that simulate an abstract step give runs that simulate the abstract
run. -/
theorem simulates (I : σ → Prop) (abs : σ → τ) {stepAbs : τ → ι → τ}
    (hstep : ∀ s i, I s → P s i → I (step s i))
    (hsim : ∀ s i, I s → P s i → abs (step s i) = stepAbs (abs s) i) :
    ∀ {run : List ι} {s : σ}, I s → EachStep step P s run →
      abs (run.foldl step s) = run.foldl stepAbs (abs s) := by
  intro run
  induction run with
  | nil =>
      intro s _ _
      rfl
  | cons i rest ih =>
      intro s hs hrun
      rw [List.foldl_cons, List.foldl_cons, ih (hstep s i hs hrun.1) hrun.2,
        hsim s i hs hrun.1]

/-- Where one step simulates the abstract step exactly under `P`, a run simulates
the abstract run all the way exactly when `P` is met all along the abstract run. -/
theorem simulates_prefixes_iff (I : σ → Prop) (abs : σ → τ) {stepAbs : τ → ι → τ}
    {Q : τ → ι → Prop} (hstep : ∀ s i, I s → Q (abs s) i → I (step s i))
    (hsim : ∀ s i, I s → (abs (step s i) = stepAbs (abs s) i ↔ Q (abs s) i)) :
    ∀ (run : List ι) {s : σ}, I s →
      ((∀ past, past <+: run → abs (past.foldl step s) = past.foldl stepAbs (abs s)) ↔
        EachStep stepAbs Q (abs s) run) := by
  intro run
  induction run with
  | nil =>
      intro s _
      refine ⟨fun _ => trivial, fun _ past hpast => ?_⟩
      rw [List.prefix_nil.mp hpast]
      rfl
  | cons i rest ih =>
      intro s hs
      rw [cons]
      refine ⟨?_, ?_⟩
      · intro h
        have hfirst : abs (step s i) = stepAbs (abs s) i :=
          h [i] (List.cons_prefix_cons.mpr ⟨rfl, List.nil_prefix⟩)
        have hq := (hsim s i hs).mp hfirst
        refine ⟨hq, ?_⟩
        rw [← hfirst, ← ih (hstep s i hs hq)]
        intro past hpast
        have hall := h (i :: past) (List.cons_prefix_cons.mpr ⟨rfl, hpast⟩)
        rwa [List.foldl_cons, List.foldl_cons, ← hfirst] at hall
      · rintro ⟨hq, hrest⟩ past hpast
        have hfirst := (hsim s i hs).mpr hq
        cases past with
        | nil => rfl
        | cons j past =>
            obtain ⟨rfl, htail⟩ := List.cons_prefix_cons.mp hpast
            rw [← hfirst, ← ih (hstep s j hs hq)] at hrest
            rw [List.foldl_cons, List.foldl_cons, hrest past htail, hfirst]

/-- A property of states that a step keeps exactly under `P` holds at the end of
a run exactly when it holds at the start and every step meets `P`. -/
theorem holds_iff (I Good : σ → Prop) (hstep : ∀ s i, I s → I (step s i))
    (h : ∀ s i, I s → (Good (step s i) ↔ Good s ∧ P s i)) :
    ∀ (run : List ι) {s : σ}, I s →
      (Good (run.foldl step s) ↔ Good s ∧ EachStep step P s run) := by
  intro run
  induction run with
  | nil =>
      intro s _
      simp
  | cons i rest ih =>
      intro s hs
      rw [List.foldl_cons, ih (hstep s i hs), h s i hs, cons, and_assoc]

end EachStep

end WindradLogger.Lib
