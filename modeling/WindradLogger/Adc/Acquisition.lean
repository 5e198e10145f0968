import WindradLogger.Adc.SampleData
import WindradLogger.Adc.Peaks

set_option autoImplicit false

/-!
# The acquisition task as a whole (`task_external_adc.c`)

`taskExternalADC` evaluates every record it completes and then keeps it as sample
data; the other tasks call the functions of both parts in any order.  A run of
the whole is, seen from either part, a run of that part, so the invariants of
both parts hold together.
-/

namespace WindradLogger.Adc

open WindradLogger.Lib

/-- Both parts of the task's state. -/
structure Acquisition where
  samples : SampleData
  task : AdcTask

namespace Acquisition

/-- The loop of `taskExternalADC` begins at tick `tick`. -/
def initial (tick : UInt32) : Acquisition := { samples := .initial, task := .initial tick }

/-- `taskExternalADC`, what is done with a completed and calibrated record. -/
def processRecord (roundSqrt : UInt64 → UInt16) (a : Acquisition) (record : Record)
    (tick closeTick : UInt32) : Option Acquisition := do
  let task ← a.task.evaluateRecord roundSqrt record tick closeTick
  let samples ← a.samples.completeRecord record
  return { samples := samples, task := task }

/-- A completed record with the ticks read while it is processed, or a call by
another task. -/
inductive Event where
  | record (record : Record) (tick closeTick : UInt32)
  | startAcquireSampleData
  | resetSampleDataReadpointer
  | getSampleData (channel : ExtAdcValue)
  | isSampleDataComplete
  | getCurrentsMax
  | getVoltagesMax

/-- One event. -/
def step (roundSqrt : UInt64 → UInt16) (a : Acquisition) : Event → Option Acquisition
  | .record record tick closeTick => a.processRecord roundSqrt record tick closeTick
  | .startAcquireSampleData => some { a with samples := a.samples.extadcStartAcquireSampleData }
  | .resetSampleDataReadpointer =>
      some { a with samples := a.samples.extadcResetSampleDataReadpointer }
  | .getSampleData channel => some { a with samples := (a.samples.extadcGetSampleData channel).2 }
  | .isSampleDataComplete => some a
  | .getCurrentsMax => some { a with task := a.task.extadcGetCurrentsMax.2 }
  | .getVoltagesMax => some { a with task := a.task.extadcGetVoltagesMax.2 }

/-- The event as the sample data sees it. -/
def samplesEvent : Event → Option SampleData.Event
  | .record record _ _ => some (.record record)
  | .startAcquireSampleData => some .start
  | .resetSampleDataReadpointer => some .reset
  | .getSampleData channel => some (.get channel)
  | .isSampleDataComplete => some .isComplete
  | .getCurrentsMax => none
  | .getVoltagesMax => none

/-- The event as the evaluation sees it. -/
def taskEvent : Event → Option AdcTask.Event
  | .record record tick closeTick => some (.record record tick closeTick)
  | .getCurrentsMax => some .getCurrentsMax
  | .getVoltagesMax => some .getVoltagesMax
  | .startAcquireSampleData => none
  | .resetSampleDataReadpointer => none
  | .getSampleData _ => none
  | .isSampleDataComplete => none

/-- A processed record was evaluated and kept. -/
theorem processRecord_eq_some {roundSqrt : UInt64 → UInt16} {a a' : Acquisition} {record : Record}
    {tick closeTick : UInt32} :
    a.processRecord roundSqrt record tick closeTick = some a' ↔
      a.task.evaluateRecord roundSqrt record tick closeTick = some a'.task ∧
      a.samples.completeRecord record = some a'.samples := by
  obtain ⟨samples', task'⟩ := a'
  unfold processRecord
  cases a.task.evaluateRecord roundSqrt record tick closeTick with
  | none => simp
  | some task =>
      cases a.samples.completeRecord record with
      | none => simp
      | some samples =>
          simp only [Option.bind_eq_bind, Option.bind_some, Option.pure_def, Option.some.injEq,
            mk.injEq]
          exact and_comm

/-- A run of the whole is a run of the sample data. -/
theorem run_samples {roundSqrt : UInt64 → UInt16} {bootTick : UInt32} {events : List Event}
    {a : Acquisition} (hrun : runFrom (step roundSqrt) (initial bootTick) events = some a) :
    SampleData.after (events.filterMap samplesEvent) = some a.samples := by
  refine runFrom_part samples samplesEvent ?_ hrun
  intro before e after hstep
  cases e with
  | record record tick closeTick => exact (processRecord_eq_some.mp hstep).2
  | startAcquireSampleData =>
      cases hstep
      rfl
  | resetSampleDataReadpointer =>
      cases hstep
      rfl
  | getSampleData channel =>
      cases hstep
      rfl
  | isSampleDataComplete =>
      cases hstep
      rfl
  | getCurrentsMax =>
      cases hstep
      rfl
  | getVoltagesMax =>
      cases hstep
      rfl

/-- A run of the whole is a run of the evaluation. -/
theorem run_task {roundSqrt : UInt64 → UInt16} {bootTick : UInt32} {events : List Event}
    {a : Acquisition} (hrun : runFrom (step roundSqrt) (initial bootTick) events = some a) :
    runFrom (AdcTask.step roundSqrt) (.initial bootTick) (events.filterMap taskEvent) =
      some a.task := by
  refine runFrom_part task taskEvent ?_ hrun
  intro before e after hstep
  cases e with
  | record record tick closeTick => exact (processRecord_eq_some.mp hstep).1
  | startAcquireSampleData =>
      cases hstep
      rfl
  | resetSampleDataReadpointer =>
      cases hstep
      rfl
  | getSampleData channel =>
      cases hstep
      rfl
  | isSampleDataComplete =>
      cases hstep
      rfl
  | getCurrentsMax =>
      cases hstep
      rfl
  | getVoltagesMax =>
      cases hstep
      rfl

/-- In every run of the task and of calls by others the sample data is what the
recording says, and sums and maxima are those of the windows. -/
theorem run_invariants {roundSqrt : UInt64 → UInt16} {bootTick : UInt32} {events : List Event}
    {a : Acquisition} (hrun : runFrom (step roundSqrt) (initial bootTick) events = some a) :
    SampleData.Recorded (.of (events.filterMap samplesEvent)) a.samples ∧
      Summed (.of bootTick (events.filterMap taskEvent)) a.task ∧
      Peaked (.of bootTick (events.filterMap taskEvent)) a.task := by
  obtain ⟨samples, hafter, hrecorded⟩ :=
    SampleData.recorded_after (events.filterMap samplesEvent)
  obtain rfl : a.samples = samples := Option.some.inj ((run_samples hrun).symm.trans hafter)
  exact ⟨hrecorded, Summed.of_run (run_task hrun), Peaked.of_run (run_task hrun)⟩

/-- Fewer than `2 ^ 32` records in a window never stop the task. -/
theorem processRecord_of_short {roundSqrt : UInt64 → UInt16} {bootTick : UInt32}
    {events : List Event} {a : Acquisition}
    (hrun : runFrom (step roundSqrt) (initial bootTick) events = some a)
    (hlength : (Windows.of bootTick (events.filterMap taskEvent)).current.length + 1 < 2 ^ 32)
    (record : Record) (tick closeTick : UInt32) :
    ∃ a', a.step roundSqrt (.record record tick closeTick) = some a' := by
  obtain ⟨hrecorded, hsummed, _⟩ := run_invariants hrun
  obtain ⟨samples, hsamples, _⟩ := hrecorded.record record
  have hevaluated := hsummed.evaluateRecord roundSqrt record tick closeTick hlength
  obtain ⟨task, htask⟩ : ∃ task,
      a.task.evaluateRecord roundSqrt record tick closeTick = some task := by
    rw [hevaluated]
    split
    · exact ⟨_, rfl⟩
    · exact ⟨_, rfl⟩
  exact ⟨{ samples := samples, task := task }, processRecord_eq_some.mpr ⟨htask, hsamples⟩⟩

end Acquisition

end WindradLogger.Adc
