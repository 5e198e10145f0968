import Mathlib.Data.List.Basic

set_option autoImplicit false

/-!
# How long something has held

The number of samples in a row, up to the last one, at which a condition held.  A
counter that is set to zero when the condition fails, and otherwise counts up to a
limit, holds this number as long as it is below the limit.
-/

namespace WindradLogger.Lib

/-- The number of samples at the end that are `true`. -/
def streak (samples : List Bool) : Nat :=
  samples.foldl (fun n sample => if sample then n + 1 else 0) 0

@[simp] theorem streak_nil : streak [] = 0 := rfl

@[simp] theorem streak_concat_true (samples : List Bool) :
    streak (samples ++ [true]) = streak samples + 1 := by
  rw [streak, List.foldl_append]
  rfl

@[simp] theorem streak_concat_false (samples : List Bool) : streak (samples ++ [false]) = 0 := by
  rw [streak, List.foldl_append]
  rfl

/-- There is a streak when the last sample is `true`. -/
theorem streak_eq_zero_iff (samples : List Bool) :
    streak samples = 0 ↔ samples.getLast? ≠ some true := by
  rcases samples.eq_nil_or_concat' with rfl | ⟨past, last, rfl⟩
  · simp
  · rw [List.getLast?_concat]
    cases last with
    | true => simp
    | false => simp

/-- A streak of `n` samples is behind the start or a sample that is not `true`. -/
theorem streak_eq_iff (samples : List Bool) (n : Nat) :
    streak samples = n ↔
      ∃ earlier, samples = earlier ++ List.replicate n true ∧ earlier.getLast? ≠ some true := by
  induction n generalizing samples with
  | zero =>
      rw [streak_eq_zero_iff]
      constructor
      · exact fun h => ⟨samples, (List.append_nil samples).symm, h⟩
      · rintro ⟨earlier, rfl, h⟩
        rwa [List.replicate_zero, List.append_nil]
  | succ n ih =>
      constructor
      · intro h
        rcases samples.eq_nil_or_concat' with rfl | ⟨past, last, rfl⟩
        · cases h
        · cases last with
          | true =>
              rw [streak_concat_true] at h
              obtain ⟨earlier, rfl, hearlier⟩ := (ih past).mp (Nat.succ.inj h)
              refine ⟨earlier, ?_, hearlier⟩
              rw [List.append_assoc, List.replicate_succ']
          | false =>
              rw [streak_concat_false] at h
              cases h
      · rintro ⟨earlier, rfl, hearlier⟩
        rw [List.replicate_succ', ← List.append_assoc, streak_concat_true,
          (ih _).mpr ⟨earlier, rfl, hearlier⟩]

/-! ## Since when something is the same -/

section Steady

variable {ι α : Type} {f : List ι → α} {past recent : List ι}

/-- What is seen of a history has not changed in its recent part. -/
def Steady (f : List ι → α) (past recent : List ι) : Prop :=
  ∀ part, part <+: recent → f (past ++ part) = f past

theorem steady_nil : Steady f past [] := by
  intro part hpart
  rw [List.prefix_nil.mp hpart, List.append_nil]

theorem Steady.seen (h : Steady f past recent) : f (past ++ recent) = f past :=
  h recent List.prefix_rfl

theorem steady_concat {i : ι} :
    Steady f past (recent ++ [i]) ↔
      Steady f past recent ∧ f (past ++ recent ++ [i]) = f (past ++ recent) := by
  constructor
  · intro h
    have hbefore : Steady f past recent := fun part hpart =>
      h part (hpart.trans (List.prefix_append _ _))
    refine ⟨hbefore, ?_⟩
    rw [List.append_assoc, h.seen, hbefore.seen]
  · rintro ⟨h, hlast⟩ part hpart
    rcases List.prefix_concat_iff.mp hpart with rfl | hearlier
    · rw [← List.append_assoc, hlast, h.seen]
    · exact h part hearlier

end Steady

end WindradLogger.Lib
