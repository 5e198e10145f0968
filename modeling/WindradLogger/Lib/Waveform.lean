import Mathlib.Data.List.Basic
import Mathlib.Data.List.Flatten
import Mathlib.Logic.Function.Iterate

set_option autoImplicit false

/-!
# Waveforms of a stepping system

A system that is stepped again and again shows one sample in each state.  `Plays`
says that from a state on it shows the samples of a list, one a step, and which
state it has come to then.  Waveforms are put together one after the other; a
system that comes back to where it was, up to what it counts, repeats itself.
-/

namespace WindradLogger.Lib

variable {σ α : Type} {step : σ → σ} {out : σ → α}

/-- From the first state the samples are those of the list, and the last state
comes next. -/
inductive Plays (step : σ → σ) (out : σ → α) : σ → List α → σ → Prop where
  | nil (s : σ) : Plays step out s [] s
  | cons {s s' : σ} {w : List α} (h : Plays step out (step s) w s') :
      Plays step out s (out s :: w) s'

namespace Plays

variable {s s' s'' : σ} {w w' : List α}

theorem append (h : Plays step out s w s') (h' : Plays step out s' w' s'') :
    Plays step out s (w ++ w') s'' := by
  induction h with
  | nil s => exact h'
  | cons _ ih => exact cons (ih h')

theorem iterate (h : Plays step out s w s') : step^[w.length] s = s' := by
  induction h with
  | nil s => rfl
  | cons _ ih => exact ih

theorem sample (h : Plays step out s w s') {k : Nat} (hk : k < w.length) :
    w[k]? = some (out (step^[k] s)) := by
  induction h generalizing k with
  | nil s => cases hk
  | cons _ ih =>
      cases k with
      | zero => rfl
      | succ k => exact ih (Nat.lt_of_succ_lt_succ hk)

/-- One waveform, a number of times. -/
theorem replicate (start : Nat → σ) {n : Nat}
    (h : ∀ i, i < n → Plays step out (start i) w (start (i + 1))) :
    Plays step out (start 0) (List.replicate n w).flatten (start n) := by
  induction n with
  | zero => exact nil _
  | succ n ih =>
      rw [List.replicate_succ', List.flatten_append, List.flatten_singleton]
      exact (ih fun i hi => h i (Nat.lt_succ_of_lt hi)).append (h n (Nat.lt_succ_self n))

/-- All the samples. -/
theorem samples (h : Plays step out s w s') :
    (List.range w.length).map (fun k => out (step^[k] s)) = w := by
  refine List.ext_getElem? fun k => ?_
  rcases Nat.lt_or_ge k w.length with hk | hk
  · rw [List.getElem?_map, List.getElem?_range hk, h.sample hk]
    rfl
  · rw [List.getElem?_eq_none hk, List.getElem?_eq_none]
    rw [List.length_map, List.length_range]
    exact hk

/-- A waveform for each item of a list, each from where the one before has come to. -/
theorem items {β : Type} (wave : β → List α) (start : Nat → σ) {xs : List β}
    (h : ∀ i x, xs[i]? = some x → Plays step out (start i) (wave x) (start (i + 1))) :
    Plays step out (start 0) (xs.flatMap wave) (start xs.length) := by
  induction xs generalizing start with
  | nil => exact nil _
  | cons x rest ih =>
      rw [List.flatMap_cons, List.length_cons]
      exact (h 0 x rfl).append (ih (fun i => start (i + 1)) fun i y hy => h (i + 1) y hy)

/-- A timer that is counted down, and acts when it comes to zero or was zero. -/
theorem countdown {waiting : Nat → σ} {after : σ} {a : α} {n : Nat}
    (hout : ∀ m, out (waiting m) = a) (hact : ∀ m, m ≤ 1 → step (waiting m) = after)
    (hstep : ∀ m, 1 < m → m ≤ n → step (waiting m) = waiting (m - 1)) :
    Plays step out (waiting n) (List.replicate (max 1 n) a) after := by
  induction n with
  | zero =>
      have hone : Plays step out (waiting 0) (out (waiting 0) :: []) after := by
        refine cons ?_
        rw [hact 0 (Nat.zero_le _)]
        exact nil after
      rwa [hout] at hone
  | succ n ih =>
      have hrest : Plays step out (step (waiting (n + 1))) (List.replicate n a) after := by
        cases n with
        | zero =>
            rw [hact _ (Nat.le_refl _)]
            exact nil after
        | succ n =>
            rw [hstep _ (by omega) (Nat.le_refl _)]
            have hn := ih fun m hm hle => hstep m hm (Nat.le_succ_of_le hle)
            rwa [Nat.max_eq_right (Nat.succ_pos n)] at hn
      have hmax : max 1 (n + 1) = n + 1 := Nat.max_eq_right (Nat.succ_pos n)
      have hall := cons hrest
      rw [hout] at hall
      rwa [hmax, List.replicate_succ]

/-! ## Periods -/

section Periods

variable {start : Nat → σ} {period : Nat → List α} {len : Nat}
  (h : ∀ q, Plays step out (start q) (period q) (start (q + 1)))
  (hlen : ∀ q, (period q).length = len)

include h hlen

theorem iterate_periods (q : Nat) : step^[q * len] (start 0) = start q := by
  induction q with
  | zero => rw [Nat.zero_mul, Function.iterate_zero_apply]
  | succ q ih =>
      rw [Nat.succ_mul, Nat.add_comm, Function.iterate_add_apply, ih, ← hlen q]
      exact (h q).iterate

/-- A sample is the one at its place in its period. -/
theorem sample_periods (hpos : 0 < len) (t : Nat) :
    (period (t / len))[t % len]? = some (out (step^[t] (start 0))) := by
  have hplace : t % len < (period (t / len)).length := by
    rw [hlen]
    exact Nat.mod_lt t hpos
  have hsplit : step^[t] (start 0) = step^[t % len] (start (t / len)) := by
    rw [← iterate_periods h hlen (t / len), ← Function.iterate_add_apply, Nat.mul_comm,
      Nat.mod_add_div]
  rw [hsplit]
  exact (h (t / len)).sample hplace

end Periods

end Plays

/-- Equal parts with a separator between them. -/
theorem intercalate_replicate (separator part : List α) (n : Nat) :
    separator.intercalate (List.replicate (n + 1) part) =
      (List.replicate n (part ++ separator)).flatten ++ part := by
  induction n with
  | zero => simp [List.intercalate]
  | succ n ih =>
      rw [List.replicate_succ, List.replicate_succ, List.intercalate, List.intersperse_cons_cons,
        List.flatten_cons, List.flatten_cons, ← List.replicate_succ, ← List.intercalate, ih,
        List.replicate_succ, List.flatten_cons]
      simp only [List.append_assoc]

end WindradLogger.Lib
