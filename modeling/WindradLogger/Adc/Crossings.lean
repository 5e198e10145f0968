import Mathlib.Data.List.DropRight
import WindradLogger.Adc.Window
import WindradLogger.Lib.Hysteresis

set_option autoImplicit false

/-!
# The measurement of the period (`task_external_adc.c`)

`taskExternalADC` counts a falling crossing of `volt_l21`, and no other until the
voltage has risen above half the maximum of the previous window.  The records
since the previous crossing are added to `period_length_avging`, and a close
publishes the mean.  The counter goes on over closes, the sum and the number of
crossings do not; what they hold is told here by the evaluations of the run.
-/

namespace WindradLogger.Adc

open WindradLogger.Lib

/-! ## The detection of one record -/

namespace AdcTask

/-- The comparison for a falling crossing. -/
def falls (s : AdcTask) (record : Record) : Bool :=
  (record .voltL21).toInt32 < -s.valueVoltL21OldMaxAbs / 2

/-- The comparison that ends the hysteresis. -/
def rises (s : AdcTask) (record : Record) : Bool :=
  (record .voltL21).toInt32 > s.valueVoltL21OldMaxAbs / 2

/-- The record is counted as a falling crossing. -/
def countsCrossing (s : AdcTask) (record : Record) : Bool :=
  s.periodLengthHisteresisRising && s.falls record

/-- A crossing is counted, or the counter goes on. -/
theorem detectCrossing_eq (s : AdcTask) (record : Record) :
    s.detectCrossing record = { s with
      periodLengthHisteresisRising :=
        if s.countsCrossing record then false
        else s.periodLengthHisteresisRising || s.rises record
      periodLengthAvging :=
        if s.countsCrossing record then
          s.periodLengthAvging + int64OfUInt32 (s.periodLengthCounter + 1)
        else s.periodLengthAvging
      periodLengthCounter :=
        if s.countsCrossing record then 0 else s.periodLengthCounter + 1
      periodAvgCyclesN :=
        if s.countsCrossing record then s.periodAvgCyclesN + 1 else s.periodAvgCyclesN } := by
  unfold detectCrossing countsCrossing falls rises
  dsimp only
  split
  · rename_i hrising
    split
    · rename_i hfalls
      simp [hrising, hfalls]
    · rename_i hfalls
      simp [hrising, hfalls]
  · rename_i hrising
    split
    · rename_i hrises
      simp [hrising, hrises]
    · rename_i hrises
      simp [hrising, hrises]

/-- An evaluation passes the assertion that guards the accumulators. -/
theorem evaluateRecord_guard {roundSqrt : UInt64 → UInt16} {s s' : AdcTask} {record : Record}
    {tick closeTick : UInt32} (h : s.evaluateRecord roundSqrt record tick closeTick = some s') :
    (s.addRecord record).effectivingTestPossibleOverflow < (1 : UInt64) <<< 63 := by
  unfold evaluateRecord at h
  dsimp only at h
  split at h
  · rename_i hguard
    exact hguard
  · cases h

end AdcTask

/-! ## The evaluations of a run -/

/-- The evaluation of a record: the state it begins in, and the ticks read. -/
structure Evaluation where
  before : AdcTask
  record : Record
  tick : UInt32
  closeTick : UInt32

namespace Evaluation

/-- A crossing is counted. -/
def counts (e : Evaluation) : Bool :=
  (e.before.detectCrossing e.record).periodAvgCyclesN ≠ e.before.periodAvgCyclesN

/-- What is added to `period_length_avging`. -/
def amount (e : Evaluation) : Int :=
  ((e.before.detectCrossing e.record).periodLengthAvging - e.before.periodLengthAvging).toInt

/-- `volt_l21` exceeds half of `value_volt_l21_old_max_abs`. -/
def exceeds (e : Evaluation) : Bool :=
  value .voltL21 e.record > e.before.valueVoltL21OldMaxAbs.toInt.tdiv 2

/-- The averaging period is over, so the window is closed. -/
def closes (e : Evaluation) : Bool := e.before.periodOver e.tick

/-- The evaluation, if the event is a record. -/
def ofStep : AdcTask × AdcTask.Event → Option Evaluation
  | (before, .record record tick closeTick) => some ⟨before, record, tick, closeTick⟩
  | (_, .getCurrentsMax) => none
  | (_, .getVoltagesMax) => none

/-- The evaluations of a run, in order. -/
def ofRun (roundSqrt : UInt64 → UInt16) (bootTick : UInt32) (events : List AdcTask.Event) :
    List Evaluation :=
  (stepsFrom (AdcTask.step roundSqrt) (.initial bootTick) events).filterMap ofStep

/-- The number of evaluations behind the last counted crossing, or behind the
start of the task if there is none. -/
def sinceCounted (evaluations : List Evaluation) : Nat :=
  (evaluations.rtakeWhile fun e => !e.counts).length

/-- The evaluations behind the last close. -/
def window (evaluations : List Evaluation) : List Evaluation :=
  evaluations.rtakeWhile fun e => !e.closes

/-- The amounts added for the crossings that were counted. -/
def amounts (evaluations : List Evaluation) : List Int :=
  (evaluations.filter counts).map amount

theorem counts_eq (e : Evaluation) : e.counts = e.before.countsCrossing e.record := by
  unfold counts
  rw [AdcTask.detectCrossing_eq]
  dsimp only
  cases e.before.countsCrossing e.record with
  | true => simp
  | false => simp

theorem exceeds_eq (e : Evaluation) : e.exceeds = e.before.rises e.record := by
  have hne : (2 : Int32) ≠ -1 := by decide
  refine decide_eq_decide.mpr ?_
  rw [gt_iff_lt, gt_iff_lt, Int32.lt_iff_toInt_lt, Int32.toInt_div_of_ne_right _ _ hne,
    Int16.toInt_toInt32]
  rfl

/-- The amount is the content of the counter. -/
theorem amount_of_counts {e : Evaluation} (h : e.counts = true) :
    e.amount = (e.before.periodLengthCounter + 1).toNat := by
  unfold amount
  rw [AdcTask.detectCrossing_eq, ← counts_eq, h]
  dsimp only
  rw [if_pos rfl, Int64.add_comm, Int64.add_sub_cancel, toInt_int64OfUInt32]

theorem sinceCounted_concat (evaluations : List Evaluation) (e : Evaluation) :
    sinceCounted (evaluations ++ [e]) = if e.counts then 0 else sinceCounted evaluations + 1 := by
  unfold sinceCounted
  rw [List.rtakeWhile_concat]
  cases e.counts with
  | true => rfl
  | false => simp

theorem window_concat (evaluations : List Evaluation) (e : Evaluation) :
    window (evaluations ++ [e]) = if e.closes then [] else window evaluations ++ [e] := by
  unfold window
  rw [List.rtakeWhile_concat]
  cases e.closes with
  | true => rfl
  | false => simp

theorem amounts_concat (evaluations : List Evaluation) (e : Evaluation) :
    amounts (evaluations ++ [e]) = amounts evaluations ++ if e.counts then [e.amount] else [] := by
  unfold amounts
  rw [List.filter_append, List.map_append, List.filter_cons]
  cases e.counts with
  | true => rfl
  | false => rfl

/-- The run of events ends in the state that every evaluation of it begins in. -/
theorem ofRun_concat {roundSqrt : UInt64 → UInt16} {bootTick : UInt32}
    {past : List AdcTask.Event} {s : AdcTask}
    (hpast : runFrom (AdcTask.step roundSqrt) (.initial bootTick) past = some s)
    (event : AdcTask.Event) :
    ofRun roundSqrt bootTick (past ++ [event]) =
      ofRun roundSqrt bootTick past ++ (ofStep (s, event)).toList := by
  unfold ofRun
  rw [stepsFrom_concat hpast, List.filterMap_append, List.filterMap_cons, List.filterMap_nil]
  cases ofStep (s, event) with
  | none => rfl
  | some e => rfl

end Evaluation

open Evaluation

/-! ## What the state holds of the evaluations so far -/

/-- The trigger that `period_length_histeresis_rising` is the state of. -/
def crossingTrigger : Hysteresis Evaluation := { falls := counts, rises := exceeds }

/-- The state of the period measurement, told by the evaluations before it. -/
structure Measured (evaluations : List Evaluation) (s : AdcTask) : Prop where
  rising : s.periodLengthHisteresisRising = crossingTrigger.armed evaluations
  counter : s.periodLengthCounter = UInt32.ofNat (sinceCounted evaluations)
  sum : s.periodLengthAvging = Int64.ofInt (amounts (window evaluations)).sum
  cycles : s.periodAvgCyclesN = UInt32.ofNat (amounts (window evaluations)).length
  guard : s.effectivingTestPossibleOverflow =
    UInt64.ofNat (4096 * 4096 * (window evaluations).length)
  short : (window evaluations).length < 2 ^ 39
  nonneg : 0 ≤ (amounts (window evaluations)).sum
  bounded : amounts (window evaluations) ≠ [] →
    (amounts (window evaluations)).sum + sinceCounted evaluations ≤
      2 ^ 32 + (window evaluations).length

namespace Measured

theorem initial (tick : UInt32) : Measured [] (.initial tick) where
  rising := rfl
  counter := rfl
  sum := rfl
  cycles := rfl
  guard := rfl
  short := by decide
  nonneg := by decide
  bounded := fun h => absurd rfl h

variable {evaluations : List Evaluation} {e : Evaluation}

/-- The trigger and the counter do not see the closes. -/
theorem rising_concat (inv : Measured evaluations e.before) :
    (e.before.detectCrossing e.record).periodLengthHisteresisRising =
      crossingTrigger.armed (evaluations ++ [e]) := by
  rw [Hysteresis.armed_concat, ← inv.rising, AdcTask.detectCrossing_eq, ← counts_eq, ← exceeds_eq]
  rfl

theorem counter_concat (inv : Measured evaluations e.before) :
    (e.before.detectCrossing e.record).periodLengthCounter =
      UInt32.ofNat (sinceCounted (evaluations ++ [e])) := by
  rw [sinceCounted_concat, AdcTask.detectCrossing_eq, ← counts_eq, inv.counter]
  cases e.counts with
  | true => rfl
  | false => exact (UInt32.ofNat_add _ 1).symm

/-- The sum over the window with the evaluation. -/
theorem sum_concat (inv : Measured evaluations e.before) :
    (e.before.detectCrossing e.record).periodLengthAvging =
      Int64.ofInt (amounts (window evaluations ++ [e])).sum := by
  rw [amounts_concat, AdcTask.detectCrossing_eq, ← counts_eq, inv.sum]
  dsimp only
  cases hcounts : e.counts with
  | true =>
      have hamount : Int64.ofInt e.amount = int64OfUInt32 (e.before.periodLengthCounter + 1) := by
        rw [amount_of_counts hcounts, ← toInt_int64OfUInt32, Int64.ofInt_toInt]
      rw [if_pos rfl, if_pos rfl, List.sum_append, List.sum_singleton, Int64.ofInt_add, hamount]
  | false =>
      rw [if_neg Bool.false_ne_true, if_neg Bool.false_ne_true, List.append_nil]

theorem cycles_concat (inv : Measured evaluations e.before) :
    (e.before.detectCrossing e.record).periodAvgCyclesN =
      UInt32.ofNat (amounts (window evaluations ++ [e])).length := by
  rw [amounts_concat, AdcTask.detectCrossing_eq, ← counts_eq, inv.cycles, List.length_append]
  cases e.counts with
  | true => exact (UInt32.ofNat_add _ 1).symm
  | false => rfl

/-- An amount is a content of the counter, and no larger than what it counts. -/
theorem amount_bounds (inv : Measured evaluations e.before) (h : e.counts = true) :
    e.amount = ((sinceCounted evaluations + 1) % 2 ^ 32 : Nat) := by
  rw [amount_of_counts h, inv.counter, UInt32.toNat_add, UInt32.toNat_ofNat']
  change (((sinceCounted evaluations % 2 ^ 32 + 1) % 2 ^ 32 : Nat) : Int) = _
  omega

/-- The sum over the window is no larger than the records it counts: those of the
window, and those that an amount counts from windows before. -/
theorem bounds_concat (inv : Measured evaluations e.before) :
    0 ≤ (amounts (window evaluations ++ [e])).sum ∧
      (amounts (window evaluations ++ [e]) ≠ [] →
        (amounts (window evaluations ++ [e])).sum + sinceCounted (evaluations ++ [e]) ≤
          2 ^ 32 + ((window evaluations).length + 1)) := by
  have hnonneg := inv.nonneg
  have hbounded := inv.bounded
  rw [amounts_concat, sinceCounted_concat]
  cases hcounts : e.counts with
  | true =>
      have hamount := inv.amount_bounds hcounts
      rw [if_pos rfl, if_pos rfl, List.sum_append, List.sum_singleton]
      refine ⟨by omega, fun _ => ?_⟩
      rcases eq_or_ne (amounts (window evaluations)) [] with hnone | hsome
      · rw [hnone, List.sum_nil]
        omega
      · have := hbounded hsome
        omega
  | false =>
      rw [if_neg Bool.false_ne_true, if_neg Bool.false_ne_true, List.append_nil]
      refine ⟨hnonneg, fun hsome => ?_⟩
      have := hbounded hsome
      omega

/-- The assertion keeps the window shorter than `2 ^ 39` records. -/
theorem short_concat (inv : Measured evaluations e.before)
    (h : (e.before.addRecord e.record).effectivingTestPossibleOverflow < (1 : UInt64) <<< 63) :
    (window evaluations).length + 1 < 2 ^ 39 ∧
      (e.before.addRecord e.record).effectivingTestPossibleOverflow =
        UInt64.ofNat (4096 * 4096 * ((window evaluations).length + 1)) := by
  have hshort := inv.short
  have hguard : (e.before.addRecord e.record).effectivingTestPossibleOverflow =
      UInt64.ofNat (4096 * 4096 * ((window evaluations).length + 1)) := by
    rw [AdcTask.addRecord_effectivingTestPossibleOverflow, inv.guard, Nat.mul_add, UInt64.ofNat_add]
    rfl
  refine ⟨?_, hguard⟩
  rw [hguard, UInt64.lt_iff_toNat_lt, UInt64.toNat_ofNat'] at h
  change 4096 * 4096 * ((window evaluations).length + 1) % 2 ^ 64 < 2 ^ 63 at h
  omega

/-- An evaluation keeps what the state holds. -/
theorem evaluate (inv : Measured evaluations e.before) {roundSqrt : UInt64 → UInt16}
    {s' : AdcTask}
    (h : e.before.evaluateRecord roundSqrt e.record e.tick e.closeTick = some s') :
    Measured (evaluations ++ [e]) s' := by
  obtain ⟨hshort, hguard⟩ := inv.short_concat (AdcTask.evaluateRecord_guard h)
  obtain ⟨hnonneg, hbounded⟩ := inv.bounds_concat
  obtain ⟨hopen, rfl⟩ | ⟨hover, rfl⟩ := AdcTask.evaluateRecord_cases h
  · rw [AdcTask.addRecord_periodOver] at hopen
    have hwindow : window (evaluations ++ [e]) = window evaluations ++ [e] := by
      rw [window_concat, closes, hopen]
      rfl
    have hlength : (window (evaluations ++ [e])).length = (window evaluations).length + 1 := by
      rw [hwindow, List.length_append, List.length_singleton]
    refine ⟨inv.rising_concat, inv.counter_concat, ?_, ?_, ?_, ?_, ?_, ?_⟩
    · rw [hwindow]
      exact inv.sum_concat
    · rw [hwindow]
      exact inv.cycles_concat
    · rw [hlength]
      exact hguard
    · rw [hlength]
      exact hshort
    · rw [hwindow]
      exact hnonneg
    · rw [hlength, hwindow]
      exact hbounded
  · rw [AdcTask.addRecord_periodOver] at hover
    have hwindow : window (evaluations ++ [e]) = [] := by
      rw [window_concat, closes, hover]
      rfl
    refine ⟨inv.rising_concat, inv.counter_concat, ?_, ?_, ?_, ?_, ?_, ?_⟩
    · rw [hwindow]
      rfl
    · rw [hwindow]
      rfl
    · rw [hwindow]
      rfl
    · rw [hwindow]
      decide
    · rw [hwindow]
      decide
    · rw [hwindow]
      exact fun hsome => absurd rfl hsome

/-- A close publishes the sum divided by the number of crossings, each as far as
its variable can hold it. -/
theorem periodLength_of_closes (inv : Measured evaluations e.before)
    {roundSqrt : UInt64 → UInt16} {s' : AdcTask} (hcloses : e.closes = true)
    (h : e.before.evaluateRecord roundSqrt e.record e.tick e.closeTick = some s') :
    s'.periodLength.toInt = ((amounts (window evaluations ++ [e])).sum.tdiv
      ((amounts (window evaluations ++ [e])).length % 2 ^ 32 : Nat)).bmod (2 ^ 32) := by
  obtain ⟨hshort, _⟩ := inv.short_concat (AdcTask.evaluateRecord_guard h)
  obtain ⟨hnonneg, hbounded⟩ := inv.bounds_concat
  have hexact : (Int64.ofInt (amounts (window evaluations ++ [e])).sum).toInt =
      (amounts (window evaluations ++ [e])).sum := by
    rcases eq_or_ne (amounts (window evaluations ++ [e])) [] with hnone | hsome
    · rw [hnone]
      rfl
    · have := hbounded hsome
      exact Int64.toInt_ofInt_of_le (by omega) (by omega)
  obtain ⟨hopen, _⟩ | ⟨_, rfl⟩ := AdcTask.evaluateRecord_cases h
  · rw [AdcTask.addRecord_periodOver] at hopen
    rw [closes, hopen] at hcloses
    cases hcloses
  · change ((e.before.detectCrossing e.record).periodLengthAvging /
      int64OfUInt32 (e.before.detectCrossing e.record).periodAvgCyclesN).toInt32.toInt = _
    rw [inv.sum_concat, inv.cycles_concat, Int64.toInt_toInt32, toInt_div_int64OfUInt32, hexact,
      UInt32.toNat_ofNat']

/-- In every run the state of the measurement is that of the evaluations. -/
theorem of_run {roundSqrt : UInt64 → UInt16} {bootTick : UInt32} {events : List AdcTask.Event}
    {s : AdcTask} (hrun : runFrom (AdcTask.step roundSqrt) (.initial bootTick) events = some s) :
    Measured (ofRun roundSqrt bootTick events) s := by
  refine runFrom_induction (fun past s => Measured (ofRun roundSqrt bootTick past) s)
    (initial bootTick) ?_ hrun
  intro past before event after hpast inv hstep
  rw [ofRun_concat hpast]
  cases event with
  | record record tick closeTick =>
      rw [AdcTask.step] at hstep
      rw [ofStep, Option.toList_some]
      exact Measured.evaluate (e := ⟨before, record, tick, closeTick⟩) inv hstep
  | getCurrentsMax =>
      cases hstep
      rw [ofStep, Option.toList_none, List.append_nil]
      exact ⟨inv.rising, inv.counter, inv.sum, inv.cycles, inv.guard, inv.short, inv.nonneg,
        inv.bounded⟩
  | getVoltagesMax =>
      cases hstep
      rw [ofStep, Option.toList_none, List.append_nil]
      exact ⟨inv.rising, inv.counter, inv.sum, inv.cycles, inv.guard, inv.short, inv.nonneg,
        inv.bounded⟩

/-- The state before an evaluation is that of the evaluations before it. -/
theorem of_split {roundSqrt : UInt64 → UInt16} {bootTick : UInt32} {events : List AdcTask.Event}
    {s : AdcTask} (hrun : runFrom (AdcTask.step roundSqrt) (.initial bootTick) events = some s)
    {before : List Evaluation} {e : Evaluation} {later : List Evaluation}
    (hsplit : ofRun roundSqrt bootTick events = before ++ e :: later) :
    Measured before e.before := by
  induction events using List.reverseRecOn generalizing s later with
  | nil => simp [ofRun, stepsFrom] at hsplit
  | append_singleton past event ih =>
      obtain ⟨s, hpast, _⟩ := runFrom_concat_eq_some.mp hrun
      rw [ofRun_concat hpast] at hsplit
      cases hevent : ofStep (s, event) with
      | none =>
          rw [hevent, Option.toList_none, List.append_nil] at hsplit
          exact ih hpast hsplit
      | some last =>
          rw [hevent, Option.toList_some] at hsplit
          obtain ⟨_, rfl, rfl⟩ | ⟨later', _, hearlier⟩ := concat_eq_append_cons hsplit
          · have hbefore : last.before = s := by
              cases event with
              | record record tick closeTick =>
                  cases hevent
                  rfl
              | getCurrentsMax => cases hevent
              | getVoltagesMax => cases hevent
            rw [hbefore]
            exact of_run hpast
          · exact ih hpast hearlier

end Measured

/-- The period is measured without gaps and without counting one twice.  A record counts
as a crossing exactly when the trigger is armed and the voltage is below minus half of
`value_volt_l21_old_max_abs`.  For each counted crossing the records since the previous
one are added, modulo `2 ^ 32` and whatever windows were closed in between; between two
counted crossings the voltage has exceeded half of `value_volt_l21_old_max_abs`; and a
close that ends a window with at least one and fewer than `2 ^ 32` crossings publishes
the truncated mean of the amounts added in it, narrowed to an `int32_t`. -/
theorem period_measured {roundSqrt : UInt64 → UInt16} {bootTick : UInt32}
    {events : List AdcTask.Event} {s : AdcTask}
    (hrun : runFrom (AdcTask.step roundSqrt) (.initial bootTick) events = some s) :
    (∀ e ∈ ofRun roundSqrt bootTick events, e.counts = e.before.countsCrossing e.record) ∧
    (∀ before (e : Evaluation) later, ofRun roundSqrt bootTick events = before ++ e :: later →
      e.counts = true → e.amount = ((sinceCounted before + 1) % 2 ^ 32 : Nat)) ∧
    (∀ before (first : Evaluation) between (second : Evaluation) later,
      ofRun roundSqrt bootTick events = before ++ first :: between ++ second :: later →
      first.counts = true → second.counts = true → ∃ e ∈ between, e.exceeds = true) ∧
    ∀ before (e : Evaluation) later s', ofRun roundSqrt bootTick events = before ++ e :: later →
      e.closes = true → e.before.evaluateRecord roundSqrt e.record e.tick e.closeTick = some s' →
      amounts (window before ++ [e]) ≠ [] →
      (amounts (window before ++ [e])).length < 2 ^ 32 →
      s'.periodLength.toInt = (truncatedMean (amounts (window before ++ [e]))).bmod (2 ^ 32) := by
  refine ⟨fun e _ => counts_eq e, ?_, ?_, ?_⟩
  · intro before e later hsplit hcounts
    exact (Measured.of_split hrun hsplit).amount_bounds hcounts
  · intro before first between second later hsplit hfirst hsecond
    have inv := Measured.of_split hrun hsplit
    have hcrosses : crossingTrigger.crosses (before ++ first :: between) second = true := by
      rw [Hysteresis.crosses, ← inv.rising, Bool.and_eq_true]
      refine ⟨?_, hsecond⟩
      rw [counts_eq, AdcTask.countsCrossing, Bool.and_eq_true] at hsecond
      exact hsecond.1
    exact crossingTrigger.exists_rises_between hfirst hcrosses
  · intro before e later s' hsplit hcloses hstep _ hfew
    have inv := Measured.of_split hrun hsplit
    rw [inv.periodLength_of_closes hcloses hstep, Nat.mod_eq_of_lt hfew, truncatedMean]

/-! ## A window with very many crossings -/

/-- A record in which only `volt_l21` differs from 0. -/
def voltRecord (v : Int16) : Record := fun channel => if channel = .voltL21 then v else 0

/-- A voltage that swings up and down, `k` times, while the tick counter stands
still. -/
def swings : Nat → List AdcTask.Event
  | 0 => []
  | k + 1 => swings k ++ [.record (voltRecord 100) 0 0] ++ [.record (voltRecord (-100)) 0 0]

namespace AdcTask

/-- A record in a window that is not over is only counted. -/
theorem evaluateRecord_open {roundSqrt : UInt64 → UInt16} {s : AdcTask} {record : Record}
    {tick closeTick : UInt32}
    (hguard : (s.addRecord record).effectivingTestPossibleOverflow < (1 : UInt64) <<< 63)
    (hopen : s.periodOver tick = false) :
    s.evaluateRecord roundSqrt record tick closeTick = some (s.addRecord record) := by
  rw [← s.addRecord_periodOver record tick] at hopen
  unfold evaluateRecord
  unfold addRecord at hguard hopen ⊢
  dsimp only at hguard hopen ⊢
  rw [if_pos hguard, hopen]
  rfl

end AdcTask

/-- The first window of a task that began at tick 0, after `n` records with
`count` crossings that add up to `sum`. -/
structure InFirstWindow (events : List AdcTask.Event) (s : AdcTask) (n count since : Nat)
    (sum : Int) : Prop where
  run : runFrom (AdcTask.step fun _ => 0) (.initial 0) events = some s
  oldMaxAbs : s.valueVoltL21OldMaxAbs = 0
  start : s.effectiveCalculationPeriodStartMs = 0
  effectivingN : s.effectivingN = UInt32.ofNat n
  length : (window (ofRun (fun _ => 0) 0 events)).length = n
  count : (amounts (window (ofRun (fun _ => 0) 0 events))).length = count
  sum : (amounts (window (ofRun (fun _ => 0) 0 events))).sum = sum
  since : sinceCounted (ofRun (fun _ => 0) 0 events) = since

namespace InFirstWindow

variable {events : List AdcTask.Event} {s : AdcTask} {n count since : Nat} {sum : Int}

theorem guard (h : InFirstWindow events s n count since sum) (hn : n + 1 < 2 ^ 39)
    (record : Record) :
    (s.addRecord record).effectivingTestPossibleOverflow < (1 : UInt64) <<< 63 := by
  rw [AdcTask.addRecord_effectivingTestPossibleOverflow, (Measured.of_run h.run).guard, h.length,
    UInt64.lt_iff_toNat_lt, UInt64.toNat_add, UInt64.toNat_ofNat']
  change (4096 * 4096 * n % 2 ^ 64 + 4096 * 4096) % 2 ^ 64 < 2 ^ 63
  omega

theorem nil : InFirstWindow [] (.initial 0) 0 0 0 0 where
  run := rfl
  oldMaxAbs := rfl
  start := rfl
  effectivingN := rfl
  length := rfl
  count := rfl
  sum := rfl
  since := rfl

/-- One more record in the window. -/
theorem record (h : InFirstWindow events s n count since sum) (hn : n + 1 < 2 ^ 39)
    (record : Record) :
    InFirstWindow (events ++ [.record record 0 0]) (s.addRecord record) (n + 1)
      (if s.countsCrossing record then count + 1 else count)
      (if s.countsCrossing record then 0 else since + 1)
      (if s.countsCrossing record then sum + ((since + 1) % 2 ^ 32 : Nat) else sum) := by
  have hopen : s.periodOver 0 = false := by
    rw [AdcTask.periodOver, h.start]
    decide
  have hstep : s.step (fun _ => 0) (.record record 0 0) = some (s.addRecord record) := by
    rw [AdcTask.step]
    exact AdcTask.evaluateRecord_open (h.guard hn record) hopen
  have hevaluations : ofRun (fun _ => 0) 0 (events ++ [.record record 0 0]) =
      ofRun (fun _ => 0) 0 events ++ [⟨s, record, 0, 0⟩] := ofRun_concat h.run _
  have hcounts : (⟨s, record, 0, 0⟩ : Evaluation).counts = s.countsCrossing record := counts_eq _
  have hwindow : window (ofRun (fun _ => 0) 0 events ++ [⟨s, record, 0, 0⟩]) =
      window (ofRun (fun _ => 0) 0 events) ++ [⟨s, record, 0, 0⟩] := by
    rw [window_concat, closes, hopen]
    rfl
  refine ⟨runFrom_concat_eq_some.mpr ⟨s, h.run, hstep⟩, ?_, ?_, ?_, ?_, ?_, ?_, ?_⟩
  · obtain ⟨_, _, _, _, hframe⟩ := s.detectCrossing_frame record
    rw [AdcTask.addRecord, hframe]
    exact h.oldMaxAbs
  · rw [AdcTask.addRecord_effectiveCalculationPeriodStartMs]
    exact h.start
  · rw [AdcTask.addRecord_effectivingN, h.effectivingN, UInt32.ofNat_add]
    rfl
  · rw [hevaluations, hwindow, List.length_append, h.length, List.length_singleton]
  · rw [hevaluations, hwindow, amounts_concat, List.length_append, h.count, hcounts]
    cases s.countsCrossing record with
    | true => rfl
    | false => rfl
  · rw [hevaluations, hwindow, amounts_concat, List.sum_append, h.sum, hcounts]
    cases hcounted : s.countsCrossing record with
    | true =>
        rw [hcounted] at hcounts
        have hamount := (Measured.of_run h.run).amount_bounds (e := ⟨s, record, 0, 0⟩) hcounts
        rw [h.since] at hamount
        rw [if_pos rfl, if_pos rfl, List.sum_singleton, hamount]
    | false => simp
  · rw [hevaluations, sinceCounted_concat, h.since, hcounts]

/-- A swing up is not counted, and arms the trigger. -/
theorem up (h : InFirstWindow events s n count 0 sum) (hn : n + 1 < 2 ^ 39) :
    InFirstWindow (events ++ [.record (voltRecord 100) 0 0]) (s.addRecord (voltRecord 100)) (n + 1)
        count 1 sum ∧
      (s.addRecord (voltRecord 100)).periodLengthHisteresisRising = true := by
  have hfalls : s.falls (voltRecord 100) = false := by
    rw [AdcTask.falls, h.oldMaxAbs]
    decide
  have hrises : s.rises (voltRecord 100) = true := by
    rw [AdcTask.rises, h.oldMaxAbs]
    decide
  have hnot : s.countsCrossing (voltRecord 100) = false := by
    rw [AdcTask.countsCrossing, hfalls, Bool.and_false]
  refine ⟨?_, ?_⟩
  · have hrecord := h.record hn (voltRecord 100)
    rw [hnot] at hrecord
    exact hrecord
  · change (s.detectCrossing (voltRecord 100)).periodLengthHisteresisRising = true
    rw [AdcTask.detectCrossing_eq, hnot, hrises]
    exact Bool.or_true _

/-- A swing down of an armed trigger is counted. -/
theorem down (h : InFirstWindow events s n count 1 sum) (hn : n + 1 < 2 ^ 39)
    (hrising : s.periodLengthHisteresisRising = true) :
    InFirstWindow (events ++ [.record (voltRecord (-100)) 0 0]) (s.addRecord (voltRecord (-100)))
        (n + 1) (count + 1) 0 (sum + 2) ∧
      s.countsCrossing (voltRecord (-100)) = true := by
  have hfalls : s.falls (voltRecord (-100)) = true := by
    rw [AdcTask.falls, h.oldMaxAbs]
    decide
  have hcounted : s.countsCrossing (voltRecord (-100)) = true := by
    rw [AdcTask.countsCrossing, hrising, hfalls]
    rfl
  have hrecord := h.record hn (voltRecord (-100))
  rw [hcounted] at hrecord
  exact ⟨hrecord, hcounted⟩

/-- Every swing is a crossing after two records. -/
theorem swings (k : Nat) (hk : 2 * k < 2 ^ 39) :
    ∃ s, InFirstWindow (Adc.swings k) s (2 * k) k 0 (2 * k) := by
  induction k with
  | zero => exact ⟨.initial 0, nil⟩
  | succ k ih =>
      obtain ⟨s, h⟩ := ih (by omega)
      obtain ⟨hup, hrising⟩ := h.up (by omega)
      obtain ⟨hdown, _⟩ := hup.down (by omega) hrising
      have hsum : (2 * k + 2 : Int) = 2 * (k + 1 : Nat) := by omega
      rw [hsum] at hdown
      exact ⟨_, hdown⟩

end InFirstWindow

/-- The close at a swing down of an armed trigger. -/
theorem InFirstWindow.close {events : List AdcTask.Event} {s : AdcTask} {n count : Nat} {sum : Int}
    (h : InFirstWindow events s n count 1 sum) (hn : n + 1 < 2 ^ 39)
    (hne : (n + 1) % 2 ^ 32 ≠ 0) (hrising : s.periodLengthHisteresisRising = true) :
    let before := ofRun (fun _ => 0) 0 events
    let e : Evaluation := ⟨s, voltRecord (-100), 1001, 1001⟩
    ∃ s', ofRun (fun _ => 0) 0 (events ++ [.record (voltRecord (-100)) 1001 1001]) =
        before ++ [e] ∧
      e.counts = true ∧ e.closes = true ∧
      runFrom (AdcTask.step fun _ => 0) (.initial 0)
        (events ++ [.record (voltRecord (-100)) 1001 1001]) = some s' ∧
      e.before.evaluateRecord (fun _ => 0) e.record e.tick e.closeTick = some s' ∧
      (amounts (window before ++ [e])).length = count + 1 ∧
      (amounts (window before ++ [e])).sum = sum + 2 ∧
      s'.periodLength.toInt =
        ((sum + 2).tdiv ((count + 1) % 2 ^ 32 : Nat)).bmod (2 ^ 32) := by
  intro before e
  obtain ⟨_, hcounted⟩ := h.down hn hrising
  have inv := Measured.of_run h.run
  have hcounts : (⟨s, voltRecord (-100), 1001, 1001⟩ : Evaluation).counts = true := by
    rw [counts_eq]
    exact hcounted
  have hamount := inv.amount_bounds (e := ⟨s, voltRecord (-100), 1001, 1001⟩) hcounts
  rw [h.since] at hamount
  have hlength : (amounts (window (ofRun (fun _ => 0) 0 events) ++
      [⟨s, voltRecord (-100), 1001, 1001⟩])).length = count + 1 := by
    rw [amounts_concat, hcounts, if_pos rfl, List.length_append, h.count, List.length_singleton]
  have hsum : (amounts (window (ofRun (fun _ => 0) 0 events) ++
      [⟨s, voltRecord (-100), 1001, 1001⟩])).sum = sum + 2 := by
    rw [amounts_concat, hcounts, if_pos rfl, List.sum_append, h.sum, List.sum_singleton, hamount]
    rfl
  have hover : s.periodOver 1001 = true := by
    rw [AdcTask.periodOver, h.start]
    decide
  have hpositive : (s.addRecord (voltRecord (-100))).effectivingN ≠ 0 := by
    intro hzero
    rw [AdcTask.addRecord_effectivingN, h.effectivingN] at hzero
    have hnat := congrArg UInt32.toNat hzero
    rw [UInt32.toNat_add, UInt32.toNat_ofNat'] at hnat
    change (n % 2 ^ 32 + 1) % 2 ^ 32 = 0 at hnat
    omega
  have hstep : s.evaluateRecord (fun _ => 0) (voltRecord (-100)) 1001 1001 =
      some ((s.addRecord (voltRecord (-100))).closeWindow (fun _ => 0) 1001) := by
    rw [AdcTask.evaluateRecord_of_counts (h.guard hn (voltRecord (-100))) hpositive, if_pos hover]
  have hperiod := inv.periodLength_of_closes (e := ⟨s, voltRecord (-100), 1001, 1001⟩) hover hstep
  rw [hlength, hsum] at hperiod
  have hrun : runFrom (AdcTask.step fun _ => 0) (.initial 0)
      (events ++ [.record (voltRecord (-100)) 1001 1001]) =
        some ((s.addRecord (voltRecord (-100))).closeWindow (fun _ => 0) 1001) := by
    refine runFrom_concat_eq_some.mpr ⟨s, h.run, ?_⟩
    rw [AdcTask.step]
    exact hstep
  exact ⟨_, ofRun_concat h.run _, hcounts, hover, hrun, hstep, hlength, hsum, hperiod⟩

/-- With `2 ^ 32 + 4` crossings of 2 records each in one window the count has
wrapped to 4, and what is published is not 2. -/
theorem period_measured_wrapped : ∃ s before e later s',
    runFrom (AdcTask.step fun _ => 0) (.initial 0)
      (swings (2 ^ 32 + 3) ++ [.record (voltRecord 100) 0 0] ++
        [.record (voltRecord (-100)) 1001 1001]) = some s ∧
    ofRun (fun _ => 0) 0 (swings (2 ^ 32 + 3) ++ [.record (voltRecord 100) 0 0] ++
      [.record (voltRecord (-100)) 1001 1001]) = before ++ e :: later ∧
    e.closes = true ∧
    e.before.evaluateRecord (fun _ => 0) e.record e.tick e.closeTick = some s' ∧
    amounts (window before ++ [e]) ≠ [] ∧
    s'.periodLength.toInt ≠ (truncatedMean (amounts (window before ++ [e]))).bmod (2 ^ 32) := by
  obtain ⟨s, h⟩ := InFirstWindow.swings (2 ^ 32 + 3) (by decide)
  obtain ⟨hup, hrising⟩ := h.up (by decide)
  obtain ⟨s', hsplit, -, hcloses, hrun, hstep, hlength, hsum, hperiod⟩ :=
    hup.close (by decide) (by decide) hrising
  refine ⟨s', _, _, [], s', hrun, hsplit, hcloses, hstep, ?_, ?_⟩
  · intro hnone
    rw [hnone] at hlength
    cases hlength
  · rw [hperiod, truncatedMean, hsum, hlength]
    decide

/-- Two swings, the second of which closes the window: the crossing that closes is
counted with two records, and the mean of the window is published. -/
theorem period_measured_swings : ∃ s before e,
    runFrom (AdcTask.step fun _ => 0) (.initial 0)
      (swings 1 ++ [.record (voltRecord 100) 0 0] ++ [.record (voltRecord (-100)) 1001 1001]) =
        some s ∧
    ofRun (fun _ => 0) 0 (swings 1 ++ [.record (voltRecord 100) 0 0] ++
      [.record (voltRecord (-100)) 1001 1001]) = before ++ [e] ∧
    e.before.countsCrossing e.record = true ∧ e.closes = true ∧ e.amount = 2 ∧
    s.periodLength = 2 := by
  obtain ⟨s, h⟩ := InFirstWindow.swings 1 (by decide)
  obtain ⟨hup, hrising⟩ := h.up (by decide)
  obtain ⟨s', hsplit, hcounts, hcloses, hrun, hstep, hlength, hsum, -⟩ :=
    hup.close (by decide) (by decide) hrising
  obtain ⟨hcrossing, hamount, -, hmean⟩ := period_measured hrun
  have hlast := hcrossing _ (hsplit ▸ List.mem_append_right _ List.mem_cons_self)
  refine ⟨s', _, _, hrun, hsplit, hlast.symm.trans hcounts, hcloses, ?_, ?_⟩
  · rw [hamount _ _ [] hsplit hcounts, hup.since]
    rfl
  · have hperiod := hmean _ _ [] s' hsplit hcloses hstep
      (fun hnone => by
        rw [hnone] at hlength
        cases hlength)
      (by
        rw [hlength]
        decide)
    rw [truncatedMean, hsum, hlength] at hperiod
    exact Int32.toInt_inj.mp hperiod

end WindradLogger.Adc
