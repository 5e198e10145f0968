import Mathlib.Algebra.GroupWithZero.Nat
import Mathlib.Logic.Function.Iterate
import WindradLogger.Lib.Cyclic

set_option autoImplicit false

/-!
# The time base (`stm32f4xx_hal_timebase_TIM.c`, `periodic_timer.h`)

A timer interrupt every 10 µs, a subtick, advances `subtick_counter` and is meant
to advance the tick of the HAL every millisecond.  The busy-wait of the display
driver reads `subtick_counter` until it has reached a target; the counter and the
target both wrap.
-/

namespace WindradLogger.Timebase

open WindradLogger.Lib

/-- `TIMEBASE_SUBTICK_DURATION_us` -/
def timebaseSubtickDurationUs : Nat := 10

/-- `TIMEBASE_MILLISECOND_FRACTION` -/
def timebaseMillisecondFraction : UInt16 := UInt16.ofNat (1000 / timebaseSubtickDurationUs)

/-- The static `subticks` of the callback and `subtick_counter`, and how often
`HAL_IncTick` has been called. -/
structure Tim where
  subticks : UInt16
  subtickCounter : UInt32
  halTicks : Nat
  deriving DecidableEq, Repr

namespace Tim

/-- Reset. -/
def initial : Tim := { subticks := 0, subtickCounter := 0, halTicks := 0 }

/-- `HAL_IncTick` -/
def halIncTick (t : Tim) : Tim := { t with halTicks := t.halTicks + 1 }

/-- `HAL_TIM_PeriodElapsedCallback`.  The statement that would clear `subticks`
is compiled out. -/
def halTimPeriodElapsedCallback (t : Tim) : Tim :=
  let t := { t with subticks := t.subticks + 1 }
  let t := if t.subticks > timebaseMillisecondFraction then t.halIncTick else t
  { t with subtickCounter := t.subtickCounter + 1 }

/-- `n` invocations of the callback. -/
def elapse (n : Nat) (t : Tim) : Tim := halTimPeriodElapsedCallback^[n] t

/-- `timebase_get_subticks` -/
def timebaseGetSubticks (t : Tim) : UInt32 := t.subtickCounter

/-- The loop of `timebase_delay_by_subticks`.  A list of gaps says how many
subticks go by before each reading of `subtick_counter`; the result is the number
of the reading that ends the loop, if one of them does. -/
def waitUntil (waitUntilSubtick : UInt32) (t : Tim) : List Nat → Option Nat
  | [] => none
  | gap :: gaps =>
      let t := t.elapse gap
      if t.subtickCounter < waitUntilSubtick then
        (waitUntil waitUntilSubtick t gaps).map (· + 1)
      else some 0

/-- `timebase_delay_by_subticks` -/
def timebaseDelayBySubticks (delayBySubtick : UInt32) (t : Tim) (gaps : List Nat) : Option Nat :=
  let waitUntilSubtick := t.subtickCounter + delayBySubtick
  waitUntil waitUntilSubtick t gaps

/-! ## The tick of the HAL -/

theorem elapse_succ (n : Nat) (t : Tim) :
    t.elapse (n + 1) = (t.elapse n).halTimPeriodElapsedCallback :=
  Function.iterate_succ_apply' _ _ _

theorem elapse_add (m n : Nat) (t : Tim) : (t.elapse m).elapse n = t.elapse (m + n) := by
  unfold elapse
  rw [Nat.add_comm, Function.iterate_add_apply]

@[simp] theorem halTimPeriodElapsedCallback_subtickCounter (t : Tim) :
    t.halTimPeriodElapsedCallback.subtickCounter = t.subtickCounter + 1 := by
  unfold halTimPeriodElapsedCallback halIncTick
  dsimp only
  split
  · rfl
  · rfl

theorem elapse_subtickCounter (n : Nat) (t : Tim) :
    (t.elapse n).subtickCounter = t.subtickCounter + UInt32.ofNat n := by
  induction n with
  | zero => simp [elapse]
  | succ n ih =>
      rw [elapse_succ, halTimPeriodElapsedCallback_subtickCounter, ih, UInt32.ofNat_add,
        UInt32.add_assoc]
      rfl

/-- `subtick_counter` shows the subticks since it was 0. -/
theorem toNat_elapse_subtickCounter (n : Nat) (t : Tim) :
    (t.elapse n).subtickCounter.toNat = (t.subtickCounter.toNat + n) % 2 ^ 32 := by
  rw [elapse_subtickCounter, UInt32.toNat_add, UInt32.toNat_ofNat']
  omega

/-- `HAL_IncTick` is called in every subtick of a lap of `subticks` but the first
`TIMEBASE_MILLISECOND_FRACTION`: nothing brings `subticks` back to 0. -/
theorem elapse_initial_halTicks (n : Nat) :
    (initial.elapse n).subticks.toNat = n % 2 ^ 16 ∧
      (initial.elapse n).halTicks = 65435 * (n / 2 ^ 16) + (n % 2 ^ 16 - 100) := by
  induction n with
  | zero => exact ⟨rfl, rfl⟩
  | succ n ih =>
      obtain ⟨hsubticks, hticks⟩ := ih
      have hnext : ((initial.elapse n).subticks + 1).toNat = (n + 1) % 2 ^ 16 := by
        rw [UInt16.toNat_add, hsubticks]
        change (n % 2 ^ 16 + 1) % 2 ^ 16 = (n + 1) % 2 ^ 16
        omega
      rw [elapse_succ]
      unfold halTimPeriodElapsedCallback
      dsimp only
      split
      · rename_i htick
        rw [gt_iff_lt, UInt16.lt_iff_toNat_lt, hnext] at htick
        change 100 < (n + 1) % 2 ^ 16 at htick
        refine ⟨hnext, ?_⟩
        change (initial.elapse n).halTicks + 1 = _
        omega
      · rename_i htick
        rw [gt_iff_lt, UInt16.lt_iff_toNat_lt, hnext] at htick
        change ¬100 < (n + 1) % 2 ^ 16 at htick
        refine ⟨hnext, ?_⟩
        change (initial.elapse n).halTicks = _
        omega

/-- After `n` subticks from reset `HAL_IncTick` has been called at least
`n / 101 - 1` and at most `n / 100 + 1` times, that is once a millisecond, and
`subtick_counter` has counted the subticks. -/
structure CountsMilliseconds (n : Nat) (t : Tim) : Prop where
  atLeast : n ≤ 101 * (t.halTicks + 1)
  atMost : 100 * t.halTicks ≤ n + 100
  subtickCounter : t.subtickCounter.toNat = n % 2 ^ 32

/-- The tick of the HAL is right for the first 102 subticks after reset and never
again: from then on it advances in almost every subtick. -/
theorem countsMilliseconds_iff (n : Nat) :
    CountsMilliseconds n (initial.elapse n) ↔ n ≤ 102 := by
  obtain ⟨_, hticks⟩ := elapse_initial_halTicks n
  constructor
  · intro h
    have hmost := h.atMost
    omega
  · intro h
    refine ⟨?_, ?_, ?_⟩
    · omega
    · omega
    · rw [toNat_elapse_subtickCounter]
      change (0 + n) % 2 ^ 32 = n % 2 ^ 32
      rw [Nat.zero_add]

/-- Three ticks in the first 103 subticks. -/
theorem not_countsMilliseconds_103 : ¬CountsMilliseconds 103 (initial.elapse 103) := by
  intro h
  have hmost := h.atMost
  obtain ⟨_, hticks⟩ := elapse_initial_halTicks 103
  omega

/-! ## The busy-wait -/

/-- The subticks that have gone by since the call at reading number `k`. -/
def elapsed (gaps : List Nat) (k : Nat) : Nat := (gaps.take (k + 1)).sum

@[simp] theorem elapsed_cons_zero (gap : Nat) (gaps : List Nat) :
    elapsed (gap :: gaps) 0 = gap := by
  simp [elapsed]

@[simp] theorem elapsed_cons_succ (gap : Nat) (gaps : List Nat) (k : Nat) :
    elapsed (gap :: gaps) (k + 1) = gap + elapsed gaps k := by
  simp [elapsed]

theorem elapsed_mono {gaps : List Nat} {j k : Nat} (h : j ≤ k) :
    elapsed gaps j ≤ elapsed gaps k := by
  induction gaps generalizing j k with
  | nil => simp [elapsed]
  | cons gap gaps ih =>
      cases j with
      | zero =>
          cases k with
          | zero => exact Nat.le_refl _
          | succ k =>
              rw [elapsed_cons_zero, elapsed_cons_succ]
              exact Nat.le_add_right _ _
      | succ j =>
          obtain ⟨k, rfl⟩ : ∃ m, k = m + 1 := ⟨k - 1, by omega⟩
          rw [elapsed_cons_succ, elapsed_cons_succ]
          exact Nat.add_le_add_left (ih (by omega)) gap

/-- The reading lets the loop go on. -/
def Below (target : UInt32) (t : Tim) (gaps : List Nat) (k : Nat) : Prop :=
  (t.elapse (elapsed gaps k)).subtickCounter < target

section Below

variable {target : UInt32} {t : Tim} {gap : Nat} {gaps : List Nat} {k : Nat}

theorem below_cons_zero :
    Below target t (gap :: gaps) 0 ↔ (t.elapse gap).subtickCounter < target := by
  rw [Below, elapsed_cons_zero]

/-- The later readings are those of a loop that begins at the first one. -/
theorem below_cons_succ :
    Below target t (gap :: gaps) (k + 1) ↔ Below target (t.elapse gap) gaps k := by
  rw [Below, Below, elapsed_cons_succ, elapse_add]

theorem forall_below_cons :
    (∀ j, j < k + 1 → Below target t (gap :: gaps) j) ↔
      (t.elapse gap).subtickCounter < target ∧
        ∀ j, j < k → Below target (t.elapse gap) gaps j := by
  constructor
  · intro h
    refine ⟨below_cons_zero.mp (h 0 (Nat.succ_pos k)), ?_⟩
    intro j hj
    exact below_cons_succ.mp (h (j + 1) (Nat.succ_lt_succ hj))
  · rintro ⟨hfirst, hlater⟩ j hj
    cases j with
    | zero => exact below_cons_zero.mpr hfirst
    | succ j => exact below_cons_succ.mpr (hlater j (Nat.lt_of_succ_lt_succ hj))

end Below

/-- The loop ends with the first reading that is not below the target. -/
theorem waitUntil_eq_some_iff {target : UInt32} {t : Tim} {gaps : List Nat} {k : Nat} :
    waitUntil target t gaps = some k ↔
      k < gaps.length ∧ ¬Below target t gaps k ∧ ∀ j, j < k → Below target t gaps j := by
  induction gaps generalizing t k with
  | nil => simp [waitUntil]
  | cons gap gaps ih =>
      unfold waitUntil
      dsimp only
      split
      · rename_i hfirst
        cases k with
        | zero =>
            refine iff_of_false (by simp) ?_
            rintro ⟨_, hnot, _⟩
            exact hnot (below_cons_zero.mpr hfirst)
        | succ k =>
            have hmap : (waitUntil target (t.elapse gap) gaps).map (· + 1) = some (k + 1) ↔
                waitUntil target (t.elapse gap) gaps = some k := by simp
            rw [hmap, ih, forall_below_cons, below_cons_succ, List.length_cons,
              Nat.succ_lt_succ_iff, and_iff_right hfirst]
      · rename_i hfirst
        cases k with
        | zero =>
            refine iff_of_true rfl ⟨Nat.succ_pos _, ?_, fun j hj => absurd hj (Nat.not_lt_zero j)⟩
            exact mt below_cons_zero.mp hfirst
        | succ k =>
            refine iff_of_false (by simp) ?_
            rintro ⟨_, _, hbefore⟩
            exact hfirst (forall_below_cons.mp hbefore).1

/-- The busy-wait does not return while fewer than the requested subticks have
gone by, and it returns at the first reading at which they have, if that is made
less than `2 ^ 31` subticks after the call. -/
structure DelayExact (delayBySubtick : UInt32) (t : Tim) (gaps : List Nat) : Prop where
  notEarly : ∀ k, timebaseDelayBySubticks delayBySubtick t gaps = some k →
    delayBySubtick.toNat ≤ elapsed gaps k
  notLate : ∀ k, k < gaps.length → (∀ j, j < k → elapsed gaps j < delayBySubtick.toNat) →
    delayBySubtick.toNat ≤ elapsed gaps k → elapsed gaps k < 2 ^ 31 →
    timebaseDelayBySubticks delayBySubtick t gaps = some k

/-- Every reading that the delay is decided by, up to the first one that is late
enough, is made in the lap of `subtick_counter` in which the delay ends. -/
def ReadInLap (delayBySubtick : UInt32) (t : Tim) (gaps : List Nat) : Prop :=
  ∀ k, k < gaps.length → (∀ j, j < k → elapsed gaps j < delayBySubtick.toNat) →
    elapsed gaps k < 2 ^ 31 →
    SameLap (2 ^ 32) (t.subtickCounter.toNat + elapsed gaps k)
      (t.subtickCounter.toNat + delayBySubtick.toNat)

section Delay

variable {delayBySubtick : UInt32} {t : Tim} {gaps : List Nat} {k : Nat}

/-- The loop compares the remainders of the two counts. -/
theorem below_iff : Below (t.subtickCounter + delayBySubtick) t gaps k ↔
    (t.subtickCounter.toNat + elapsed gaps k) % 2 ^ 32 <
      (t.subtickCounter.toNat + delayBySubtick.toNat) % 2 ^ 32 := by
  rw [Below, UInt32.lt_iff_toNat_lt, toNat_elapse_subtickCounter, UInt32.toNat_add]

theorem below_iff_of_sameLap (h : SameLap (2 ^ 32) (t.subtickCounter.toNat + elapsed gaps k)
      (t.subtickCounter.toNat + delayBySubtick.toNat)) :
    Below (t.subtickCounter + delayBySubtick) t gaps k ↔
      elapsed gaps k < delayBySubtick.toNat := by
  rw [below_iff, h.mod_lt_mod_iff, Nat.add_lt_add_iff_left]

/-- Across the end of a lap the loop goes on exactly when it should not. -/
theorem below_iff_of_not_sameLap
    (h : ¬SameLap (2 ^ 32) (t.subtickCounter.toNat + elapsed gaps k)
      (t.subtickCounter.toNat + delayBySubtick.toNat))
    (hdelay : delayBySubtick.toNat < 2 ^ 31) (helapsed : elapsed gaps k < 2 ^ 31) :
    Below (t.subtickCounter + delayBySubtick) t gaps k ↔
      ¬elapsed gaps k < delayBySubtick.toNat := by
  rw [below_iff]
  rcases Nat.lt_or_ge (elapsed gaps k) delayBySubtick.toNat with hearly | hlate
  · have hbehind := mod_lt_mod_of_not_sameLap h (by omega) (by omega)
    omega
  · have hbehind := mod_lt_mod_of_not_sameLap (fun hlap => h hlap.symm) (by omega) (by omega)
    omega

/-- Readings in the lap of the target make the delay exact. -/
theorem delayExact_of_readInLap (hdelay : delayBySubtick.toNat < 2 ^ 31)
    (h : ReadInLap delayBySubtick t gaps) : DelayExact delayBySubtick t gaps where
  notEarly := by
    intro k hreturn
    obtain ⟨hlength, hend, _⟩ := waitUntil_eq_some_iff.mp hreturn
    rcases Nat.lt_or_ge (elapsed gaps k) delayBySubtick.toNat with hearly | hlate
    · have hbefore : ∀ j, j < k → elapsed gaps j < delayBySubtick.toNat := by
        intro j hj
        exact Nat.lt_of_le_of_lt (elapsed_mono (Nat.le_of_lt hj)) hearly
      have hlap := h k hlength hbefore (by omega)
      exact absurd ((below_iff_of_sameLap hlap).mpr hearly) hend
    · exact hlate
  notLate := by
    intro k hlength hbefore hreached hhalf
    refine waitUntil_eq_some_iff.mpr ⟨hlength, ?_, ?_⟩
    · rw [below_iff_of_sameLap (h k hlength hbefore hhalf)]
      omega
    · intro j hj
      have hearly := hbefore j hj
      have hlap := h j (by omega) (fun i hi => hbefore i (by omega)) (by omega)
      exact (below_iff_of_sameLap hlap).mpr hearly

/-- An exact delay makes every deciding reading in the lap of the target, by
induction on the readings: the first one made in another lap ends the loop too
early or keeps it going too long. -/
theorem readInLap_of_delayExact (hdelay : delayBySubtick.toNat < 2 ^ 31)
    (h : DelayExact delayBySubtick t gaps) : ReadInLap delayBySubtick t gaps := by
  intro k
  induction k using Nat.strong_induction_on with
  | _ k ih =>
      intro hlength hbefore hhalf
      have hgoesOn : ∀ j, j < k → Below (t.subtickCounter + delayBySubtick) t gaps j := by
        intro j hj
        have hearly := hbefore j hj
        have hlap := ih j hj (by omega) (fun i hi => hbefore i (by omega)) (by omega)
        exact (below_iff_of_sameLap hlap).mpr hearly
      apply Decidable.byContradiction
      intro hlap
      have hwrong := below_iff_of_not_sameLap hlap hdelay hhalf
      rcases Nat.lt_or_ge (elapsed gaps k) delayBySubtick.toNat with hearly | hlate
      · have hends : ¬Below (t.subtickCounter + delayBySubtick) t gaps k :=
          fun hbelow => hwrong.mp hbelow hearly
        have hreturn := h.notEarly k (waitUntil_eq_some_iff.mpr ⟨hlength, hends, hgoesOn⟩)
        omega
      · have hreturn := h.notLate k hlength hbefore hlate hhalf
        exact (waitUntil_eq_some_iff.mp hreturn).2.1 (hwrong.mpr (by omega))

/-- The delay is the requested one exactly when no reading that decides it is
made in another lap of the counter than the one the delay ends in. -/
theorem delayExact_iff (hdelay : delayBySubtick.toNat < 2 ^ 31) :
    DelayExact delayBySubtick t gaps ↔ ReadInLap delayBySubtick t gaps :=
  ⟨readInLap_of_delayExact hdelay, delayExact_of_readInLap hdelay⟩

end Delay

/-- A delay of 7 subticks in the middle of a lap. -/
theorem delayExact_iff_mid :
    DelayExact 7 { initial with subtickCounter := 1000 } [3, 3, 3] ↔
      ReadInLap 7 { initial with subtickCounter := 1000 } [3, 3, 3] :=
  delayExact_iff (by decide)

/-- One subtick before the counter wraps a delay of one subtick is over at once;
two before, a reading two subticks later is taken for one before the end. -/
theorem not_delayExact_at_wrap :
    ¬DelayExact 1 { initial with subtickCounter := 0xFFFFFFFF } [0] ∧
      ¬DelayExact 1 { initial with subtickCounter := 0xFFFFFFFE } [2] := by
  refine ⟨?_, ?_⟩
  · intro h
    have hreturn := h.notEarly 0 rfl
    exact absurd hreturn (by decide)
  · intro h
    have hreturn := h.notLate 0 (by decide) (fun j hj => absurd hj (Nat.not_lt_zero j))
      (by decide) (by decide)
    cases hreturn

end Tim

end WindradLogger.Timebase
