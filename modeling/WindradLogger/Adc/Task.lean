import WindradLogger.Adc.Record

set_option autoImplicit false

/-!
# The evaluation of a record (`task_external_adc.c`)

For every completed record `taskExternalADC` adds to its accumulators, and once
the tick counter is past the averaging period it closes the window: it publishes
the averages, effective values and maxima and resets the accumulators.  Integers
have the widths of the C variables; an operand that C promotes to `int` or to the
wider operand's type is converted explicitly.
-/

namespace WindradLogger.Adc

/-- The locals of `taskExternalADC` that a record changes, then the static
variables it publishes its results in. -/
structure AdcTask where
  temperaturesAvging : TemperatureIndex → Int64
  powerAvging : Int64
  currentsAvging : CurrentIndex → Int64
  voltagesAvging : VoltageIndex → Int64
  periodLengthAvging : Int64
  currentsEffectiving : CurrentIndex → UInt64
  voltagesEffectiving : VoltageIndex → UInt64
  currentsMaxAbs : CurrentIndex → UInt16
  voltagesMaxAbs : VoltageIndex → UInt32
  valueVoltL21OldMaxAbs : Int32
  effectivingTestPossibleOverflow : UInt64
  periodLengthHisteresisRising : Bool
  periodAvgCyclesN : UInt32
  periodLengthCounter : UInt32
  effectivingN : UInt32
  effectiveCalculationPeriodStartMs : UInt32
  powerCurrentsAverage : CurrentIndex → Int16
  powerCurrentsEffective : CurrentIndex → UInt16
  powerCurrentsMax : CurrentIndex → Int16
  powerVoltagesAverage : VoltageIndex → Int16
  powerVoltagesEffective : VoltageIndex → UInt16
  powerVoltagesMax : VoltageIndex → UInt16
  powerPower : Int32
  periodLength : Int32
  temparaturesAverage : TemperatureIndex → UInt16

/-- `EFFECTIVE_CALCULATION_PERIOD_LENGTH_ms`, with a tick of one millisecond. -/
def effectiveCalculationPeriodLengthMs : UInt32 := 1000

/-- `abs_i16` -/
def absI16 (val : Int16) : UInt16 :=
  if val < 0 then (-val.toInt32).toUInt32.toUInt16 else val.toUInt16

/-- A `uint32_t` as an operand of arithmetic in `int64_t`. -/
def int64OfUInt32 (n : UInt32) : Int64 := n.toUInt64.toInt64

namespace AdcTask

/-- The task when its loop begins, at tick `tick`. -/
def initial (tick : UInt32) : AdcTask :=
  { temperaturesAvging := fun _ => 0
    powerAvging := 0
    currentsAvging := fun _ => 0
    voltagesAvging := fun _ => 0
    periodLengthAvging := 0
    currentsEffectiving := fun _ => 0
    voltagesEffectiving := fun _ => 0
    currentsMaxAbs := fun _ => 0
    voltagesMaxAbs := fun _ => 0
    valueVoltL21OldMaxAbs := 0
    effectivingTestPossibleOverflow := 0
    periodLengthHisteresisRising := true
    periodAvgCyclesN := 0
    periodLengthCounter := 0
    effectivingN := 0
    effectiveCalculationPeriodStartMs := tick
    powerCurrentsAverage := fun _ => 0
    powerCurrentsEffective := fun _ => 0
    powerCurrentsMax := fun _ => 0
    powerVoltagesAverage := fun _ => 0
    powerVoltagesEffective := fun _ => 0
    powerVoltagesMax := fun _ => 0
    powerPower := 0
    periodLength := 0
    temparaturesAverage := fun _ => 0 }

/-- The detection of a falling crossing of `volt_l21`, with a hysteresis of half
the maximum of the previous window. -/
def detectCrossing (s : AdcTask) (record : Record) : AdcTask :=
  let s := { s with periodLengthCounter := s.periodLengthCounter + 1 }
  if s.periodLengthHisteresisRising then
    if (record .voltL21).toInt32 < -s.valueVoltL21OldMaxAbs / 2 then
      { s with
        periodLengthHisteresisRising := false
        periodLengthAvging := s.periodLengthAvging + int64OfUInt32 s.periodLengthCounter
        periodLengthCounter := 0
        periodAvgCyclesN := s.periodAvgCyclesN + 1 }
    else s
  else
    if (record .voltL21).toInt32 > s.valueVoltL21OldMaxAbs / 2 then
      { s with periodLengthHisteresisRising := true }
    else s

/-- `p3` of the two-wattmeter method. -/
def p3 (record : Record) : Int64 :=
  ((record .voltL32).toInt32 * (record .currL3).toInt32).toInt64

/-- `p2` of the two-wattmeter method. -/
def p2 (record : Record) : Int64 :=
  (-(record .voltL21).toInt32 * (record .currL1).toInt32).toInt64

/-- The square of a value, computed in `int` and added to a `uint64_t`. -/
def square (value : Int16) : UInt64 := (value.toInt32 * value.toInt32).toInt64.toUInt64

/-- The accumulation of one record.  `u_aux` has no effective value. -/
def accumulate (s : AdcTask) (record : Record) : AdcTask :=
  { s with
    powerAvging := s.powerAvging + (p3 record + p2 record)
    temperaturesAvging := fun i => s.temperaturesAvging i + (record i.channel).toInt64
    currentsAvging := fun i => s.currentsAvging i + (record i.channel).toInt64
    currentsMaxAbs := fun i =>
      if s.currentsMaxAbs i < absI16 (record i.channel) then absI16 (record i.channel)
      else s.currentsMaxAbs i
    voltagesMaxAbs := fun i =>
      if s.voltagesMaxAbs i < (absI16 (record i.channel)).toUInt32 then
        (absI16 (record i.channel)).toUInt32
      else s.voltagesMaxAbs i
    voltagesAvging := fun i => s.voltagesAvging i + (record i.channel).toInt64
    currentsEffectiving := fun i => s.currentsEffectiving i + square (record i.channel)
    voltagesEffectiving := fun i =>
      if i = .aux then s.voltagesEffectiving i
      else s.voltagesEffectiving i + square (record i.channel)
    effectivingTestPossibleOverflow := s.effectivingTestPossibleOverflow + 4096 * 4096 }

/-- The test whether the averaging period is over. -/
def periodOver (s : AdcTask) (tick : UInt32) : Bool :=
  s.effectiveCalculationPeriodStartMs + effectiveCalculationPeriodLengthMs < tick

/-- The close of a window.  `roundSqrt` is `round(sqrt(..))` as stored in a
`uint16_t`.  The quotient for `period_length` is taken as 0 where C leaves it
undefined, that is for `period_avg_cycles_n = 0`. -/
def closeWindow (roundSqrt : UInt64 → UInt16) (s : AdcTask) (closeTick : UInt32) : AdcTask :=
  { s with
    powerCurrentsEffective := fun i =>
      roundSqrt (s.currentsEffectiving i / s.effectivingN.toUInt64)
    currentsEffectiving := fun _ => 0
    powerVoltagesEffective := fun i =>
      if i = .aux then s.powerVoltagesEffective i
      else roundSqrt (s.voltagesEffectiving i / s.effectivingN.toUInt64)
    voltagesEffectiving := fun i => if i = .aux then s.voltagesEffectiving i else 0
    temparaturesAverage := fun i =>
      (s.temperaturesAvging i / int64OfUInt32 s.effectivingN).toUInt64.toUInt16
    temperaturesAvging := fun _ => 0
    powerCurrentsAverage := fun i => (s.currentsAvging i / int64OfUInt32 s.effectivingN).toInt16
    currentsAvging := fun _ => 0
    powerVoltagesAverage := fun i => (s.voltagesAvging i / int64OfUInt32 s.effectivingN).toInt16
    voltagesAvging := fun _ => 0
    powerCurrentsMax := fun i =>
      if (s.currentsMaxAbs i).toUInt32.toInt32 > (s.powerCurrentsMax i).toInt32 then
        (s.currentsMaxAbs i).toInt16
      else s.powerCurrentsMax i
    currentsMaxAbs := fun _ => 0
    valueVoltL21OldMaxAbs := (s.voltagesMaxAbs .l21).toInt32
    powerVoltagesMax := fun i =>
      if s.voltagesMaxAbs i > (s.powerVoltagesMax i).toUInt32 then
        (s.voltagesMaxAbs i).toUInt16
      else s.powerVoltagesMax i
    voltagesMaxAbs := fun _ => 0
    periodLength := (s.periodLengthAvging / int64OfUInt32 s.periodAvgCyclesN).toInt32
    periodLengthAvging := 0
    periodAvgCyclesN := 0
    powerPower := (s.powerAvging / int64OfUInt32 s.effectivingN).toInt32
    powerAvging := 0
    effectivingTestPossibleOverflow := 0
    effectiveCalculationPeriodStartMs := closeTick
    effectivingN := 0 }

/-- `taskExternalADC`, the evaluation of one record.  `tick` and `closeTick` are
the values of the two calls of `xTaskGetTickCount`, the second of which is made
when a window is closed.  `none` is a failed `assert`. -/
def evaluateRecord (roundSqrt : UInt64 → UInt16) (s : AdcTask) (record : Record)
    (tick closeTick : UInt32) : Option AdcTask :=
  let s := (s.detectCrossing record).accumulate record
  if s.effectivingTestPossibleOverflow < (1 : UInt64) <<< 63 then
    let s := { s with effectivingN := s.effectivingN + 1 }
    if s.periodOver tick then
      if s.effectivingN ≠ 0 then some (s.closeWindow roundSqrt closeTick) else none
    else some s
  else none

/-- `extadc_get_currents_max` -/
def extadcGetCurrentsMax (s : AdcTask) : (CurrentIndex → UInt16) × AdcTask :=
  (fun i => (s.powerCurrentsMax i).toUInt16, { s with powerCurrentsMax := fun _ => 0 })

/-- `extadc_get_voltages_max` -/
def extadcGetVoltagesMax (s : AdcTask) : (VoltageIndex → UInt16) × AdcTask :=
  (s.powerVoltagesMax, { s with powerVoltagesMax := fun _ => 0 })

/-- A completed record with the ticks read while it is evaluated, or a call by
another task. -/
inductive Event where
  | record (record : Record) (tick closeTick : UInt32)
  | getCurrentsMax
  | getVoltagesMax

/-- One event. -/
def step (roundSqrt : UInt64 → UInt16) (s : AdcTask) : Event → Option AdcTask
  | .record record tick closeTick => s.evaluateRecord roundSqrt record tick closeTick
  | .getCurrentsMax => some s.extadcGetCurrentsMax.2
  | .getVoltagesMax => some s.extadcGetVoltagesMax.2

/-! ## What a record changes -/

/-- A record is counted: what `evaluateRecord` does before it looks at the tick
counter. -/
def addRecord (s : AdcTask) (record : Record) : AdcTask :=
  let s := (s.detectCrossing record).accumulate record
  { s with effectivingN := s.effectivingN + 1 }

/-- The detection of crossings only touches the state of the period measurement. -/
theorem detectCrossing_frame (s : AdcTask) (record : Record) :
    ∃ rising lengthAvging cyclesN counter, s.detectCrossing record = { s with
      periodLengthHisteresisRising := rising
      periodLengthAvging := lengthAvging
      periodAvgCyclesN := cyclesN
      periodLengthCounter := counter } := by
  unfold detectCrossing
  dsimp only
  split
  · split
    · exact ⟨_, _, _, _, rfl⟩
    · exact ⟨_, _, _, _, rfl⟩
  · split
    · exact ⟨_, _, _, _, rfl⟩
    · exact ⟨_, _, _, _, rfl⟩

/-- An evaluated record is counted, and it closes the window exactly when the
averaging period is over. -/
theorem evaluateRecord_cases {roundSqrt : UInt64 → UInt16} {s s' : AdcTask} {record : Record}
    {tick closeTick : UInt32}
    (h : s.evaluateRecord roundSqrt record tick closeTick = some s') :
    (s.addRecord record).periodOver tick = false ∧ s' = s.addRecord record ∨
    (s.addRecord record).periodOver tick = true ∧
      s' = (s.addRecord record).closeWindow roundSqrt closeTick := by
  unfold evaluateRecord at h
  dsimp only at h
  split at h
  · split at h
    · rename_i hover
      split at h
      · cases h
        exact Or.inr ⟨hover, rfl⟩
      · cases h
    · rename_i hover
      cases h
      exact Or.inl ⟨Bool.eq_false_iff.mpr hover, rfl⟩
  · cases h

section AddRecord

variable (s : AdcTask) (record : Record)

@[simp] theorem addRecord_powerAvging :
    (s.addRecord record).powerAvging = s.powerAvging + (p3 record + p2 record) := by
  obtain ⟨_, _, _, _, h⟩ := s.detectCrossing_frame record
  rw [addRecord, h, accumulate]

@[simp] theorem addRecord_currentsAvging (i : CurrentIndex) :
    (s.addRecord record).currentsAvging i = s.currentsAvging i + (record i.channel).toInt64 := by
  obtain ⟨_, _, _, _, h⟩ := s.detectCrossing_frame record
  rw [addRecord, h, accumulate]

@[simp] theorem addRecord_voltagesAvging (i : VoltageIndex) :
    (s.addRecord record).voltagesAvging i = s.voltagesAvging i + (record i.channel).toInt64 := by
  obtain ⟨_, _, _, _, h⟩ := s.detectCrossing_frame record
  rw [addRecord, h, accumulate]

@[simp] theorem addRecord_currentsMaxAbs (i : CurrentIndex) :
    (s.addRecord record).currentsMaxAbs i =
      if s.currentsMaxAbs i < absI16 (record i.channel) then absI16 (record i.channel)
      else s.currentsMaxAbs i := by
  obtain ⟨_, _, _, _, h⟩ := s.detectCrossing_frame record
  rw [addRecord, h, accumulate]

@[simp] theorem addRecord_voltagesMaxAbs (i : VoltageIndex) :
    (s.addRecord record).voltagesMaxAbs i =
      if s.voltagesMaxAbs i < (absI16 (record i.channel)).toUInt32 then
        (absI16 (record i.channel)).toUInt32
      else s.voltagesMaxAbs i := by
  obtain ⟨_, _, _, _, h⟩ := s.detectCrossing_frame record
  rw [addRecord, h, accumulate]

@[simp] theorem addRecord_effectivingN :
    (s.addRecord record).effectivingN = s.effectivingN + 1 := by
  obtain ⟨_, _, _, _, h⟩ := s.detectCrossing_frame record
  rw [addRecord, h, accumulate]

@[simp] theorem addRecord_effectivingTestPossibleOverflow :
    (s.addRecord record).effectivingTestPossibleOverflow =
      s.effectivingTestPossibleOverflow + 4096 * 4096 := by
  obtain ⟨_, _, _, _, h⟩ := s.detectCrossing_frame record
  rw [addRecord, h, accumulate]

@[simp] theorem addRecord_effectiveCalculationPeriodStartMs :
    (s.addRecord record).effectiveCalculationPeriodStartMs =
      s.effectiveCalculationPeriodStartMs := by
  obtain ⟨_, _, _, _, h⟩ := s.detectCrossing_frame record
  rw [addRecord, h, accumulate]

@[simp] theorem addRecord_powerCurrentsMax :
    (s.addRecord record).powerCurrentsMax = s.powerCurrentsMax := by
  obtain ⟨_, _, _, _, h⟩ := s.detectCrossing_frame record
  rw [addRecord, h, accumulate]

@[simp] theorem addRecord_powerVoltagesMax :
    (s.addRecord record).powerVoltagesMax = s.powerVoltagesMax := by
  obtain ⟨_, _, _, _, h⟩ := s.detectCrossing_frame record
  rw [addRecord, h, accumulate]

/-- The window that a record belongs to is over or not whatever the record is. -/
@[simp] theorem addRecord_periodOver (tick : UInt32) :
    (s.addRecord record).periodOver tick = s.periodOver tick := by
  unfold periodOver
  rw [addRecord_effectiveCalculationPeriodStartMs]

end AddRecord

/-- A record is evaluated when the two assertions hold of the counts. -/
theorem evaluateRecord_of_counts {roundSqrt : UInt64 → UInt16} {s : AdcTask} {record : Record}
    {tick closeTick : UInt32}
    (hoverflow : (s.addRecord record).effectivingTestPossibleOverflow < (1 : UInt64) <<< 63)
    (hn : (s.addRecord record).effectivingN ≠ 0) :
    s.evaluateRecord roundSqrt record tick closeTick =
      if s.periodOver tick then some ((s.addRecord record).closeWindow roundSqrt closeTick)
      else some (s.addRecord record) := by
  rw [← s.addRecord_periodOver record tick]
  unfold evaluateRecord
  unfold addRecord at hoverflow hn ⊢
  dsimp only at hoverflow hn ⊢
  rw [if_pos hoverflow, if_pos hn]

end AdcTask

end WindradLogger.Adc
