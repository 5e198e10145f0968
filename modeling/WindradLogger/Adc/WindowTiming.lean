import WindradLogger.Adc.Window
import WindradLogger.Lib.Cyclic

set_option autoImplicit false

/-!
# When windows are closed (`task_external_adc.c`)

The tick counter wraps after `2 ^ 32` ticks.  `taskExternalADC` adds the length of
the averaging period to the reading it took when the window was opened and
compares the sum with the current reading, both modulo `2 ^ 32`.  Here the task
runs over real ticks, of which it sees the remainders only.
-/

namespace WindradLogger.Adc

open WindradLogger.Lib

/-- An event with the real ticks at which the counter is read. -/
inductive TimedEvent where
  | record (record : Record) (tick closeTick : Nat)
  | getCurrentsMax
  | getVoltagesMax

namespace TimedEvent

/-- The event with the readings of the counter. -/
def read : TimedEvent → AdcTask.Event
  | .record r tick closeTick => .record r (UInt32.ofNat tick) (UInt32.ofNat closeTick)
  | .getCurrentsMax => .getCurrentsMax
  | .getVoltagesMax => .getVoltagesMax

/-- The real ticks of the event, in the order of their reading. -/
def ticks : TimedEvent → List Nat
  | .record _ tick closeTick => [tick, closeTick]
  | .getCurrentsMax => []
  | .getVoltagesMax => []

end TimedEvent

/-- The task, with the real tick at which the window in progress was opened, which
no code sees. -/
structure TimedTask where
  task : AdcTask
  opened : Nat

namespace TimedTask

/-- The loop of the task begins at real tick `bootTick`. -/
def initial (bootTick : Nat) : TimedTask :=
  { task := .initial (UInt32.ofNat bootTick), opened := bootTick }

/-- The real tick at which the window in progress behind an event was opened. -/
def reopened (t : TimedTask) : TimedEvent → Nat
  | .record _ tick closeTick =>
      if t.task.periodOver (UInt32.ofNat tick) then closeTick else t.opened
  | .getCurrentsMax => t.opened
  | .getVoltagesMax => t.opened

/-- One event. -/
def step (roundSqrt : UInt64 → UInt16) (t : TimedTask) (e : TimedEvent) : Option TimedTask := do
  let task ← t.task.step roundSqrt e.read
  return { task := task, opened := t.reopened e }

/-- The window is found over exactly if more than the averaging period has gone by
since it was opened. -/
def OnTime (t : TimedTask) (tick : Nat) : Prop :=
  t.task.periodOver (UInt32.ofNat tick) = true ↔
    t.opened + effectiveCalculationPeriodLengthMs.toNat < tick

/-- The record comes in the lap of the tick counter in which the averaging period
ends, or in a later lap when the reading is past that of the end. -/
def InLap (t : TimedTask) (tick : Nat) : Prop :=
  SameLap (2 ^ 32) (t.opened + effectiveCalculationPeriodLengthMs.toNat) tick ∨
    t.opened + effectiveCalculationPeriodLengthMs.toNat < tick ∧
      (t.opened + effectiveCalculationPeriodLengthMs.toNat) % 2 ^ 32 < tick % 2 ^ 32

/-- Every record of the run meets `P` in the state it finds, at the tick read for
it. -/
def EveryRecord (roundSqrt : UInt64 → UInt16) (P : TimedTask → Nat → Prop) (bootTick : Nat)
    (events : List TimedEvent) : Prop :=
  ∀ past record tick closeTick later t, events = past ++ .record record tick closeTick :: later →
    runFrom (step roundSqrt) (.initial bootTick) past = some t → P t tick

/-- The real ticks never go back. -/
def NonDecreasing (bootTick : Nat) (events : List TimedEvent) : Prop :=
  (bootTick :: events.flatMap TimedEvent.ticks).Pairwise (· ≤ ·)

instance (bootTick : Nat) (events : List TimedEvent) : Decidable (NonDecreasing bootTick events) :=
  inferInstanceAs (Decidable (List.Pairwise _ _))

variable {roundSqrt : UInt64 → UInt16} {bootTick : Nat}

theorem step_eq_some {t t' : TimedTask} {e : TimedEvent} (h : t.step roundSqrt e = some t') :
    t.task.step roundSqrt e.read = some t'.task ∧ t'.opened = t.reopened e := by
  rw [step, Option.bind_eq_bind, Option.bind_eq_some_iff] at h
  obtain ⟨task, htask, h⟩ := h
  cases h
  exact ⟨htask, rfl⟩

/-- The start of the window is kept as the reading of its real tick, which is one
of the run. -/
theorem opened_of_run {past : List TimedEvent} {t : TimedTask}
    (hrun : runFrom (step roundSqrt) (.initial bootTick) past = some t) :
    t.task.effectiveCalculationPeriodStartMs = UInt32.ofNat t.opened ∧
      t.opened ∈ bootTick :: past.flatMap TimedEvent.ticks := by
  refine runFrom_invariant
    (fun past (t : TimedTask) =>
      t.task.effectiveCalculationPeriodStartMs = UInt32.ofNat t.opened ∧
        t.opened ∈ bootTick :: past.flatMap TimedEvent.ticks)
    ⟨rfl, List.mem_cons_self⟩ ?_ hrun
  intro past before e after ⟨hstart, hmem⟩ hstep
  obtain ⟨htask, hopened⟩ := step_eq_some hstep
  have hearlier : before.opened ∈ bootTick :: (past ++ [e]).flatMap TimedEvent.ticks := by
    rw [List.flatMap_append, ← List.cons_append]
    exact List.mem_append_left _ hmem
  rw [hopened]
  cases e with
  | record record tick closeTick =>
      rw [TimedEvent.read, AdcTask.step] at htask
      unfold reopened
      dsimp only
      obtain ⟨hopen, hafter⟩ | ⟨hover, hafter⟩ := AdcTask.evaluateRecord_cases htask
      · rw [AdcTask.addRecord_periodOver] at hopen
        rw [hafter, hopen, AdcTask.addRecord_effectiveCalculationPeriodStartMs]
        exact ⟨hstart, hearlier⟩
      · rw [AdcTask.addRecord_periodOver] at hover
        rw [hafter, hover]
        refine ⟨rfl, ?_⟩
        rw [List.flatMap_append, ← List.cons_append]
        exact List.mem_append_right _ (by simp [TimedEvent.ticks])
  | getCurrentsMax =>
      rw [← Option.some.inj htask]
      exact ⟨hstart, hearlier⟩
  | getVoltagesMax =>
      rw [← Option.some.inj htask]
      exact ⟨hstart, hearlier⟩

/-- A record is on time exactly in the lap in which the averaging period ends. -/
theorem onTime_iff_inLap {t : TimedTask} {tick : Nat}
    (hstart : t.task.effectiveCalculationPeriodStartMs = UInt32.ofNat t.opened)
    (hle : t.opened ≤ tick) : t.OnTime tick ↔ t.InLap tick := by
  have hperiod : effectiveCalculationPeriodLengthMs.toNat = 1000 := rfl
  have hover : t.task.periodOver (UInt32.ofNat tick) = true ↔
      (t.opened + 1000) % 2 ^ 32 < tick % 2 ^ 32 := by
    rw [AdcTask.periodOver, hstart, decide_eq_true_iff, UInt32.lt_iff_toNat_lt, UInt32.toNat_add,
      UInt32.toNat_ofNat', UInt32.toNat_ofNat', hperiod]
    omega
  unfold OnTime InLap
  rw [hover, hperiod]
  rcases Decidable.em (SameLap (2 ^ 32) (t.opened + 1000) tick) with hlap | hlap
  · exact iff_of_true hlap.mod_lt_mod_iff (Or.inl hlap)
  · rcases Nat.lt_or_ge (t.opened + 1000) tick with hlate | hearly
    · simp only [hlate, hlap, true_and, false_or, iff_true]
    · have hcut := mod_lt_mod_of_not_sameLap (fun h => hlap h.symm) hearly (by omega)
      refine iff_of_false ?_ ?_
      · intro h
        have := h.mp hcut
        omega
      · rintro (h | ⟨h, _⟩)
        · exact hlap h
        · omega

/-- In a run over real ticks every window is closed on time exactly if no record
comes in another lap of the tick counter than the end of its averaging period. -/
theorem onTime_iff {events : List TimedEvent} (hticks : NonDecreasing bootTick events) :
    EveryRecord roundSqrt OnTime bootTick events ↔ EveryRecord roundSqrt InLap bootTick events := by
  have hpointwise : ∀ past record tick closeTick later t,
      events = past ++ .record record tick closeTick :: later →
      runFrom (step roundSqrt) (.initial bootTick) past = some t →
      (t.OnTime tick ↔ t.InLap tick) := by
    intro past record tick closeTick later t hsplit hrun
    obtain ⟨hstart, hmem⟩ := opened_of_run hrun
    refine onTime_iff_inLap hstart ?_
    rw [NonDecreasing, hsplit, List.flatMap_append, ← List.cons_append,
      List.pairwise_append] at hticks
    exact hticks.2.2 _ hmem tick (by simp [TimedEvent.ticks])
  constructor
  · intro h past record tick closeTick later t hsplit hrun
    exact (hpointwise past record tick closeTick later t hsplit hrun).mp
      (h past record tick closeTick later t hsplit hrun)
  · intro h past record tick closeTick later t hsplit hrun
    exact (hpointwise past record tick closeTick later t hsplit hrun).mpr
      (h past record tick closeTick later t hsplit hrun)

/-- Two records of a task that began with the tick counter at 0. -/
theorem onTime_iff_two :
    EveryRecord (fun _ => 0) OnTime 0
        [.record (fun _ => 0) 500 500, .record (fun _ => 0) 1001 1002] ↔
      EveryRecord (fun _ => 0) InLap 0
        [.record (fun _ => 0) 500 500, .record (fun _ => 0) 1001 1002] :=
  onTime_iff (by decide)

/-- A window opened one tick before the counter wraps is closed by a record that
comes at once. -/
theorem not_onTime_at_wrap :
    NonDecreasing 4294967295 [.record (fun _ => 0) 4294967295 4294967295] ∧
      ¬EveryRecord (fun _ => 0) OnTime 4294967295
        [.record (fun _ => 0) 4294967295 4294967295] := by
  refine ⟨by decide, ?_⟩
  intro h
  have hfirst := h [] (fun _ => 0) 4294967295 4294967295 [] _ rfl rfl
  have helapsed := hfirst.mp (by decide)
  exact absurd helapsed (by decide)

end TimedTask

end WindradLogger.Adc
