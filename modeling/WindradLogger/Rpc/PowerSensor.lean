import WindradLogger.Adc.Frequency
import WindradLogger.Adc.Published
import WindradLogger.McuAdc.Values

set_option autoImplicit false

/-!
# The measured values (`rpc_func_freertos.c`, `task_external_adc.c`)

A client reads the measured values with `get_power_sensor_data`, which copies what
the ADC task publishes group by group.  Each copy is a critical section, but between
two of them the ADC task, which has the higher priority, may evaluate any number of
records and close windows.
-/

namespace WindradLogger.Rpc

open WindradLogger.Adc WindradLogger.Lib WindradLogger.McuAdc

/-- `sub_unix_time_t`, without the fraction -/
structure SubUnixTime where
  unixTime : Int64
  subseconds : UInt16

/-- `power_sensor_data_t`; the last four fields are those of `McuSensorData`. -/
structure PowerSensorData extends McuSensorData where
  unixTime : UInt32
  subSeconds : UInt16
  currentL1Avg : Int16
  currentL2Avg : Int16
  currentL3Avg : Int16
  currentL1Eff : UInt16
  currentL2Eff : UInt16
  currentL3Eff : UInt16
  currentL1Max : Int16
  currentL2Max : Int16
  currentL3Max : Int16
  voltageL21Avg : Int16
  voltageL32Avg : Int16
  voltageL13Avg : Int16
  voltageL21Eff : UInt16
  voltageL32Eff : UInt16
  voltageL13Eff : UInt16
  voltageL21Max : UInt16
  voltageL32Max : UInt16
  voltageL13Max : UInt16
  temperatureL1 : UInt16
  temperatureL2 : UInt16
  temperatureL3 : UInt16
  voltageAux : Int16
  frequencyHz : UInt16
  power : UInt32

/-- What a call of `get_power_sensor_data` finds: the time, the configuration of the
I2S peripheral, the published values of the MCU's ADC and their calibration, and the
records that the ADC task evaluates before each of the nine copies, with their ticks. -/
structure Surroundings where
  time : SubUnixTime
  i2s : I2sConfiguration
  calibration : Storage.Calibration
  filter : Filter
  records : Nat → List (Record × UInt32 × UInt32)

namespace Surroundings

/-- What the ADC task does before the copy with this number. -/
def evaluated (env : Surroundings) (copy : Nat) : List AdcTask.Event :=
  (env.records copy).map fun (record, tick, closeTick) => .record record tick closeTick

/-- What a copy does besides reading: two of them clear the maxima. -/
def effect (copy : Nat) : List AdcTask.Event :=
  match copy with
  | 2 => [.getVoltagesMax]
  | 4 => [.getCurrentsMax]
  | _ => []

/-- The events of a call before a copy. -/
def before (env : Surroundings) : Nat → List AdcTask.Event
  | 0 => env.evaluated 0
  | copy + 1 => env.before copy ++ (effect copy ++ env.evaluated (copy + 1))

end Surroundings

/-- `get_power_sensor_data`; `none` is an assertion that fails in the ADC task, or a
division by zero in `extadc_get_frequency`. -/
def getPowerSensorData (roundSqrt : UInt64 → UInt16) (env : Surroundings) (s : AdcTask) :
    Option (PowerSensorData × AdcTask) := do
  let adcTask := runFrom (AdcTask.step roundSqrt)
  let s ← adcTask s (env.evaluated 0)
  let voltagesAvg := s.powerVoltagesAverage
  let s ← adcTask s (env.evaluated 1)
  let voltagesEffective := s.powerVoltagesEffective
  let s ← adcTask s (env.evaluated 2)
  let (voltagesMax, s) := s.extadcGetVoltagesMax
  let s ← adcTask s (env.evaluated 3)
  let currentsAvg := s.powerCurrentsAverage
  let s ← adcTask s (env.evaluated 4)
  let (currentsMax, s) := s.extadcGetCurrentsMax
  let s ← adcTask s (env.evaluated 5)
  let currentsEffective := s.powerCurrentsEffective
  let s ← adcTask s (env.evaluated 6)
  let temperatures := s.temparaturesAverage
  let s ← adcTask s (env.evaluated 7)
  let power := s.powerPower
  let s ← adcTask s (env.evaluated 8)
  let frequency ← extadcGetFrequency env.i2s s.periodLength
  return ({
    toMcuSensorData := getMcuSensorData env.calibration env.filter
    unixTime := env.time.unixTime.toUInt64.toUInt32
    subSeconds := env.time.subseconds
    currentL1Avg := currentsAvg .l1
    currentL2Avg := currentsAvg .l2
    currentL3Avg := currentsAvg .l3
    currentL1Eff := currentsEffective .l1
    currentL2Eff := currentsEffective .l2
    currentL3Eff := currentsEffective .l3
    currentL1Max := (currentsMax .l1).toInt16
    currentL2Max := (currentsMax .l2).toInt16
    currentL3Max := (currentsMax .l3).toInt16
    voltageL21Avg := voltagesAvg .l21
    voltageL32Avg := voltagesAvg .l32
    voltageL13Avg := voltagesAvg .l13
    voltageL21Eff := voltagesEffective .l21
    voltageL32Eff := voltagesEffective .l32
    voltageL13Eff := voltagesEffective .l13
    voltageL21Max := voltagesMax .l21
    voltageL32Max := voltagesMax .l32
    voltageL13Max := voltagesMax .l13
    temperatureL1 := temperatures .l1
    temperatureL2 := temperatures .l2
    temperatureL3 := temperatures .l3
    voltageAux := voltagesAvg .aux
    frequencyHz := frequency
    power := power.toUInt32 }, s)

namespace PowerSensorData

variable (r : PowerSensorData)

/-- The averages of the currents. -/
def currentAvg : CurrentIndex → Int16
  | .l1 => r.currentL1Avg
  | .l2 => r.currentL2Avg
  | .l3 => r.currentL3Avg

/-- The effective values of the currents. -/
def currentEff : CurrentIndex → UInt16
  | .l1 => r.currentL1Eff
  | .l2 => r.currentL2Eff
  | .l3 => r.currentL3Eff

/-- The maxima of the currents. -/
def currentMax : CurrentIndex → Int16
  | .l1 => r.currentL1Max
  | .l2 => r.currentL2Max
  | .l3 => r.currentL3Max

/-- The averages of the voltages. -/
def voltageAvg : VoltageIndex → Int16
  | .l21 => r.voltageL21Avg
  | .l32 => r.voltageL32Avg
  | .l13 => r.voltageL13Avg
  | .aux => r.voltageAux

/-- The effective values of the voltages; there is none of `u_aux`. -/
def voltageEff : VoltageIndex → Option UInt16
  | .l21 => some r.voltageL21Eff
  | .l32 => some r.voltageL32Eff
  | .l13 => some r.voltageL13Eff
  | .aux => none

/-- The maxima of the voltages; there is none of `u_aux`. -/
def voltageMax : VoltageIndex → Option UInt16
  | .l21 => some r.voltageL21Max
  | .l32 => some r.voltageL32Max
  | .l13 => some r.voltageL13Max
  | .aux => none

/-- The temperatures. -/
def temperature : TemperatureIndex → UInt16
  | .l1 => r.temperatureL1
  | .l2 => r.temperatureL2
  | .l3 => r.temperatureL3

end PowerSensorData

/-! ## The copies of a call -/

/-- The groups of an answer are copies from the states in which they are made. -/
structure Copies (i2s : I2sConfiguration) (states : Nat → AdcTask) (r : PowerSensorData) :
    Prop where
  voltageAvg : ∀ i, r.voltageAvg i = (states 0).powerVoltagesAverage i
  voltageEff : ∀ i, i ≠ .aux → r.voltageEff i = some ((states 1).powerVoltagesEffective i)
  voltageMax : ∀ i, i ≠ .aux → r.voltageMax i = some ((states 2).powerVoltagesMax i)
  currentAvg : ∀ i, r.currentAvg i = (states 3).powerCurrentsAverage i
  currentMax : ∀ i, r.currentMax i = (states 4).powerCurrentsMax i
  currentEff : ∀ i, r.currentEff i = (states 5).powerCurrentsEffective i
  temperature : ∀ i, r.temperature i = (states 6).temparaturesAverage i
  power : r.power.toInt32 = (states 7).powerPower
  frequency : extadcGetFrequency i2s (states 8).periodLength = some r.frequencyHz

section Call

variable {roundSqrt : UInt64 → UInt16} {env : Surroundings} {s s' : AdcTask}
  {r : PowerSensorData}

theorem run_before_succ (copy : Nat) {a b c : AdcTask}
    (hbefore : runFrom (AdcTask.step roundSqrt) s (env.before copy) = some a)
    (heffect : runFrom (AdcTask.step roundSqrt) a (Surroundings.effect copy) = some b)
    (hevaluated : runFrom (AdcTask.step roundSqrt) b (env.evaluated (copy + 1)) = some c) :
    runFrom (AdcTask.step roundSqrt) s (env.before (copy + 1)) = some c :=
  runFrom_append_eq_some.mpr ⟨a, hbefore, runFrom_append_eq_some.mpr ⟨b, heffect, hevaluated⟩⟩

/-- A call that returns has come through all its copies, one after the other. -/
theorem copies_of_call (hcall : getPowerSensorData roundSqrt env s = some (r, s')) :
    ∃ states : Nat → AdcTask,
      (∀ copy ≤ 8, runFrom (AdcTask.step roundSqrt) s (env.before copy) = some (states copy)) ∧
      Copies env.i2s states r ∧ s' = states 8 := by
  unfold getPowerSensorData at hcall
  simp only [Option.bind_eq_bind, Option.bind_eq_some_iff, Option.pure_def] at hcall
  obtain ⟨s0, h0, s1, h1, s2, h2, s3, h3, s4, h4, s5, h5, s6, h6, s7, h7, s8, h8, frequency,
    hfrequency, hanswer⟩ := hcall
  cases hanswer
  refine ⟨fun copy => match copy with
    | 0 => s0 | 1 => s1 | 2 => s2 | 3 => s3 | 4 => s4 | 5 => s5 | 6 => s6 | 7 => s7 | _ => s',
    ?_, ?_, rfl⟩
  · have hbefore1 := run_before_succ 0 h0 rfl h1
    have hbefore2 := run_before_succ 1 hbefore1 rfl h2
    have hbefore3 := run_before_succ 2 hbefore2 rfl h3
    have hbefore4 := run_before_succ 3 hbefore3 rfl h4
    have hbefore5 := run_before_succ 4 hbefore4 rfl h5
    have hbefore6 := run_before_succ 5 hbefore5 rfl h6
    have hbefore7 := run_before_succ 6 hbefore6 rfl h7
    have hbefore8 := run_before_succ 7 hbefore7 rfl h8
    intro copy hcopy
    match copy with
    | 0 => exact h0
    | 1 => exact hbefore1
    | 2 => exact hbefore2
    | 3 => exact hbefore3
    | 4 => exact hbefore4
    | 5 => exact hbefore5
    | 6 => exact hbefore6
    | 7 => exact hbefore7
    | 8 => exact hbefore8
    | _ + 9 => omega
  · refine ⟨?_, ?_, ?_, ?_, ?_, ?_, ?_, ?_, hfrequency⟩
    · intro i
      cases i <;> rfl
    · intro i line
      cases i <;> first | rfl | contradiction
    · intro i line
      cases i <;> first | rfl | contradiction
    · intro i
      cases i <;> rfl
    · intro i
      cases i <;> rfl
    · intro i
      cases i <;> rfl
    · intro i
      cases i <;> rfl
    · rfl

end Call

/-! ## The windows of an answer -/

/-- The windows that a call finds at a copy, after the events of a run. -/
def windowsAt (bootTick : UInt32) (events : List AdcTask.Event) (env : Surroundings)
    (copy : Nat) : Windows :=
  Windows.of bootTick (events ++ env.before copy)

/-- From one copy to a later one windows are only added. -/
theorem closed_windowsAt (bootTick : UInt32) (events : List AdcTask.Event) (env : Surroundings)
    {copy later : Nat} (h : copy ≤ later) :
    (windowsAt bootTick events env copy).closed <+:
      (windowsAt bootTick events env later).closed := by
  induction h with
  | refl => exact List.prefix_rfl
  | step _ ih =>
      refine ih.trans ?_
      unfold windowsAt
      rw [Surroundings.before, ← List.append_assoc]
      exact Windows.closed_append bootTick _ _

/-- The groups of an answer are of the window closed last before each copy; the maxima
are those of the windows closed since the previous call. -/
structure AnswerOf (roundSqrt : UInt64 → UInt16) (w : Nat → Windows) (r : PowerSensorData) :
    Prop where
  voltageAvg : ∀ i, (r.voltageAvg i).toInt = truncatedMean ((w 0).last.map (value i.channel))
  voltageEff : ∀ i, i ≠ .aux →
    r.voltageEff i = some (effectiveValue roundSqrt i.channel (w 1).last)
  voltageMax : ∀ i, i ≠ .aux → (r.voltageMax i).map UInt16.toNat =
    some (windowPeak i.channel (w 2).unreadVoltages.flatten)
  currentAvg : ∀ i, (r.currentAvg i).toInt = truncatedMean ((w 3).last.map (value i.channel))
  currentMax : ∀ i,
    (r.currentMax i).toInt = storedMax ((w 4).unreadCurrents.map (windowPeak i.channel))
  currentEff : ∀ i, r.currentEff i = effectiveValue roundSqrt i.channel (w 5).last
  temperature : ∀ i,
    (r.temperature i).toInt16.toInt = truncatedMean ((w 6).last.map (value i.channel))
  power : r.power.toInt32.toInt = truncatedMean ((w 7).last.map power)

/-- In every run, with any records evaluated between its copies: each group of values
of a call that returns is of one window, the last that was closed before the copy, and
from copy to copy the windows only go on.  If none is closed during the call, all
groups are of the same window.  A call does not return while `period_length` is 0, by
which `extadc_get_frequency` divides. -/
theorem answer_of_windows {roundSqrt : UInt64 → UInt16} {bootTick : UInt32}
    {events : List AdcTask.Event} {env : Surroundings} {s s' : AdcTask} {r : PowerSensorData}
    (hrun : runFrom (AdcTask.step roundSqrt) (.initial bootTick) events = some s)
    (hcall : getPowerSensorData roundSqrt env s = some (r, s'))
    (hshort : (windowsAt bootTick events env 8).Short) :
    let w := windowsAt bootTick events env
    AnswerOf roundSqrt w r ∧
    (∀ copy later, copy ≤ later → (w copy).closed <+: (w later).closed) ∧
    ((w 8).closed = (w 0).closed → ∀ copy ≤ 8, (w copy).last = (w 0).last) := by
  intro w
  obtain ⟨states, hstates, hcopies, -⟩ := copies_of_call hcall
  have honward : ∀ copy later, copy ≤ later → (w copy).closed <+: (w later).closed :=
    fun copy later => closed_windowsAt bootTick events env
  have hreach : ∀ copy ≤ 8, runFrom (AdcTask.step roundSqrt) (.initial bootTick)
      (events ++ env.before copy) = some (states copy) :=
    fun copy hcopy => runFrom_append_eq_some.mpr ⟨s, hrun, hstates copy hcopy⟩
  have hpublished : ∀ copy ≤ 8, Published roundSqrt (w copy) (states copy) :=
    fun copy hcopy => .of_run (hreach copy hcopy) (hshort.of_prefix (honward copy 8 hcopy))
  have hpeaked : ∀ copy ≤ 8, Peaked (w copy) (states copy) :=
    fun copy hcopy => .of_run (hreach copy hcopy)
  refine ⟨?_, honward, ?_⟩
  · refine ⟨?_, ?_, ?_, ?_, ?_, ?_, ?_, ?_⟩
    · intro i
      rw [hcopies.voltageAvg]
      exact (hpublished 0 (by omega)).means.voltages i
    · intro i line
      rw [hcopies.voltageEff i line, (hpublished 1 (by omega)).voltagesEffective i line]
    · intro i line
      rw [hcopies.voltageMax i line, Option.map_some, windowPeak_flatten]
      exact congrArg some ((hpeaked 2 (by omega)).storedVoltages i)
    · intro i
      rw [hcopies.currentAvg]
      exact (hpublished 3 (by omega)).means.currents i
    · intro i
      rw [hcopies.currentMax]
      exact (hpeaked 4 (by omega)).storedCurrents i
    · intro i
      rw [hcopies.currentEff, (hpublished 5 (by omega)).currentsEffective i]
    · intro i
      rw [hcopies.temperature]
      exact (hpublished 6 (by omega)).temperatures i
    · rw [hcopies.power]
      exact (hpublished 7 (by omega)).means.power
  · intro hsame copy hcopy
    have hclosed : (w copy).closed = (w 0).closed := by
      refine List.IsPrefix.eq_of_length_le ?_ ?_
      · exact hsame ▸ honward copy 8 hcopy
      · exact (honward 0 copy (Nat.zero_le copy)).length_le
    rw [Windows.last, hclosed, Windows.last]

/-- A call at a sample clock of 25 Hz, during which a window of two records is closed
between the maxima of the voltages and the averages of the currents. -/
def closingCall : Surroundings :=
  { time := ⟨1700000000, 0⟩
    i2s := ⟨44800, 1, 0⟩
    calibration := Storage.defaultCalibration
    filter := .initial
    records := fun copy =>
      if copy = 3 then [(phaseRecord 70 100, 1003, 1003), (phaseRecord 10 (-100), 2004, 2005)]
      else [] }

/-- A window of two records, the second of which is a crossing and closes it. -/
def openingWindow : List AdcTask.Event :=
  [.record (phaseRecord 10 100) 0 0, .record (phaseRecord 20 (-40)) 1001 1002]

/-- `round(sqrt())` of a mean square. -/
def roundedRoot (x : UInt64) : UInt16 :=
  let root := Nat.sqrt x.toNat
  UInt16.ofNat (if root * root + root < x.toNat then root + 1 else root)

/-- One window is closed before the call, and one during it: the voltages are of the
first, the averages and effective values of the currents of the second, and the
maximum is that of both. -/
theorem answer_of_windows_closing : ∃ r s',
    (runFrom (AdcTask.step roundedRoot) (.initial 0) openingWindow).bind
      (getPowerSensorData roundedRoot closingCall) = some (r, s') ∧
    r.voltageL21Avg = 30 ∧ r.currentL1Avg = 40 ∧ r.currentL1Eff = 50 ∧ r.currentL1Max = 70 := by
  obtain ⟨s, hrun⟩ : ∃ s, runFrom (AdcTask.step roundedRoot) (.initial 0) openingWindow =
      some s := ⟨_, rfl⟩
  obtain ⟨⟨r, s'⟩, hcall⟩ : ∃ answer, getPowerSensorData roundedRoot closingCall s =
      some answer := by
    cases hrun
    exact Option.isSome_iff_exists.mp (by decide)
  have hshort : (windowsAt 0 openingWindow closingCall 8).Short :=
    (by decide : ∀ window ∈ (windowsAt 0 openingWindow closingCall 8).closed,
      window.length < 2 ^ 32)
  have hanswer := (answer_of_windows hrun hcall hshort).1
  have heffective : effectiveValue roundedRoot .currL1
      (windowsAt 0 openingWindow closingCall 5).last = roundedRoot 2500 := rfl
  have hroot : roundedRoot 2500 = 50 := by
    have hfifty : 50 = Nat.sqrt (UInt64.toNat 2500) := Nat.eq_sqrt'.mpr (by decide)
    rw [roundedRoot, ← hfifty]
    rfl
  have hmax : storedMax ((windowsAt 0 openingWindow closingCall 4).unreadCurrents.map
      (windowPeak .currL1)) = 70 := by decide
  refine ⟨r, s', ?_, ?_, ?_, ?_, ?_⟩
  · rw [hrun, Option.bind_some, hcall]
  · exact Int16.toInt_inj.mp (hanswer.voltageAvg .l21)
  · exact Int16.toInt_inj.mp (hanswer.currentAvg .l1)
  · exact (hanswer.currentEff .l1).trans (heffective.trans hroot)
  · exact Int16.toInt_inj.mp ((hanswer.currentMax .l1).trans hmax)

/-! ## The maxima of all answers -/

/-- The two groups of maxima, which a call reads and clears. -/
inductive Maxima where
  | voltages | currents
  deriving DecidableEq, Repr

/-- The windows closed since the maxima were read. -/
def Maxima.unread : Maxima → Windows → List (List Record)
  | .voltages, w => w.unreadVoltages
  | .currents, w => w.unreadCurrents

/-- The call that reads the maxima. -/
def Maxima.event : Maxima → AdcTask.Event
  | .voltages => .getVoltagesMax
  | .currents => .getCurrentsMax

/-- The copy that reads the maxima. -/
def Maxima.copy : Maxima → Nat
  | .voltages => 2
  | .currents => 4

namespace Maxima

variable (m : Maxima)

/-- What the maxima read last go back to: the windows `reported` before, and those
that are still unread, are all the windows closed. -/
def Cover (reported : List (List Record)) (w : Windows) : Prop :=
  reported ++ m.unread w = w.closed

variable {m} {reported : List (List Record)} {w : Windows}

/-- Every other event adds the windows it closes to those not read. -/
theorem Cover.observe (h : m.Cover reported w) {e : AdcTask.Event} (he : e ≠ m.event) :
    m.Cover reported (w.observe e) := by
  unfold Cover at h ⊢
  cases e with
  | record record tick closeTick =>
      unfold Windows.observe
      dsimp only
      split
      · cases m <;> (rw [Windows.close, ← h, List.append_assoc]; rfl)
      · cases m <;> exact h
  | getCurrentsMax =>
      cases m with
      | voltages => exact h
      | currents => exact absurd rfl he
  | getVoltagesMax =>
      cases m with
      | voltages => exact absurd rfl he
      | currents => exact h

theorem Cover.foldl (h : m.Cover reported w) {events : List AdcTask.Event}
    (hevents : m.event ∉ events) : m.Cover reported (events.foldl Windows.observe w) := by
  induction events generalizing w with
  | nil => exact h
  | cons e rest ih =>
      rw [List.mem_cons, not_or] at hevents
      exact ih (h.observe (Ne.symm hevents.1)) hevents.2

/-- Reading the maxima reports the windows that were not read. -/
theorem Cover.read (h : m.Cover reported w) :
    m.Cover (reported ++ m.unread w) (w.observe m.event) := by
  unfold Cover at h ⊢
  rw [h]
  cases m <;> exact List.append_nil _

theorem event_notMem_evaluated (env : Surroundings) (copy : Nat) :
    m.event ∉ env.evaluated copy := by
  intro h
  obtain ⟨⟨record, tick, closeTick⟩, -, heq⟩ := List.mem_map.mp h
  cases m <;> cases heq

theorem event_mem_effect {copy : Nat} : m.event ∈ Surroundings.effect copy ↔ copy = m.copy := by
  unfold Surroundings.effect
  split
  · cases m <;> simp [event, Maxima.copy]
  · cases m <;> simp [event, Maxima.copy]
  · rename_i hvoltages hcurrents
    refine iff_of_false List.not_mem_nil ?_
    cases m with
    | voltages => exact hvoltages
    | currents => exact hcurrents

theorem effect_copy (m : Maxima) : Surroundings.effect m.copy = [m.event] := by
  cases m <;> rfl

theorem event_notMem_before (env : Surroundings) {copy : Nat} (h : copy ≤ m.copy) :
    m.event ∉ env.before copy := by
  induction copy with
  | zero => exact event_notMem_evaluated env 0
  | succ copy ih =>
      rw [Surroundings.before, List.mem_append, List.mem_append, not_or, not_or]
      refine ⟨ih (by omega), ?_, event_notMem_evaluated env _⟩
      rw [event_mem_effect]
      omega

/-- A call reads the maxima once. -/
theorem before_eq (env : Surroundings) {copy : Nat} (h : m.copy < copy) :
    ∃ rest, env.before copy = env.before m.copy ++ m.event :: rest ∧ m.event ∉ rest := by
  induction copy, h using Nat.le_induction with
  | base =>
      refine ⟨env.evaluated (m.copy + 1), ?_, event_notMem_evaluated env _⟩
      rw [Surroundings.before, effect_copy]
      rfl
  | succ copy h ih =>
      obtain ⟨rest, hbefore, hrest⟩ := ih
      refine ⟨rest ++ (Surroundings.effect copy ++ env.evaluated (copy + 1)), ?_, ?_⟩
      · rw [Surroundings.before, hbefore, List.append_assoc, List.cons_append]
      · rw [List.mem_append, List.mem_append, not_or, not_or]
        refine ⟨hrest, ?_, event_notMem_evaluated env _⟩
        rw [event_mem_effect]
        omega

/-- A call reports the windows that its copy finds unread. -/
theorem Cover.call {bootTick : UInt32} {events : List AdcTask.Event}
    (h : m.Cover reported (.of bootTick events)) (env : Surroundings) :
    m.Cover (reported ++ m.unread (windowsAt bootTick events env m.copy))
      (windowsAt bootTick events env 8) := by
  have hlast : m.copy < 8 := by cases m <;> decide
  obtain ⟨rest, hbefore, hrest⟩ := before_eq env hlast
  have hcopy : m.Cover reported (windowsAt bootTick events env m.copy) := by
    rw [windowsAt, Windows.of, List.foldl_append]
    exact h.foldl (event_notMem_before env (Nat.le_refl _))
  have hsplit : windowsAt bootTick events env 8 =
      rest.foldl Windows.observe ((windowsAt bootTick events env m.copy).observe m.event) := by
    rw [windowsAt, windowsAt, Windows.of, Windows.of, hbefore, ← List.append_assoc,
      List.foldl_append, List.foldl_cons]
  rw [hsplit]
  exact hcopy.read.foldl hrest

/-- An answer has the maxima of some windows. -/
def Reports (m : Maxima) (windows : List (List Record)) (r : PowerSensorData) : Prop :=
  match m with
  | .voltages => ∀ i, i ≠ .aux →
      (r.voltageMax i).map UInt16.toNat = some (windowPeak i.channel windows.flatten)
  | .currents => ∀ i, (r.currentMax i).toInt = storedMax (windows.map (windowPeak i.channel))

end Maxima

/-- The ADC task, and the answers given so far. -/
structure PowerSensor where
  adcTask : AdcTask
  answers : List PowerSensorData

/-- A record between two calls, or a call. -/
inductive PowerSensor.Event where
  | record (record : Record) (tick closeTick : UInt32)
  | call (env : Surroundings)

namespace PowerSensor

/-- One event. -/
def step (roundSqrt : UInt64 → UInt16) (p : PowerSensor) : Event → Option PowerSensor
  | .record record tick closeTick => do
      let adcTask ← p.adcTask.step roundSqrt (.record record tick closeTick)
      return { p with adcTask := adcTask }
  | .call env => do
      let (answer, adcTask) ← getPowerSensorData roundSqrt env p.adcTask
      return { adcTask := adcTask, answers := p.answers ++ [answer] }

/-- What happens in the ADC task. -/
def Event.adcEvents : Event → List AdcTask.Event
  | .record values tick closeTick => [.record values tick closeTick]
  | .call env => env.before 8

/-- What is reported of the windows of a run, and by which answers. -/
structure Reported (roundSqrt : UInt64 → UInt16) (bootTick : UInt32) (m : Maxima)
    (events : List AdcTask.Event) (p : PowerSensor) : Prop where
  adcTask : runFrom (AdcTask.step roundSqrt) (.initial bootTick) events = some p.adcTask
  answers : ∃ reports : List (List (List Record)),
    List.Forall₂ m.Reports reports p.answers ∧ m.Cover reports.flatten (.of bootTick events)

/-- In every run of calls that return, at any time and with any records evaluated in
between and during them: the windows closed are reported in order, each by the maxima
of exactly one answer, and those that are not reported yet are kept for the next. -/
theorem maxima_cover_windows {roundSqrt : UInt64 → UInt16} {bootTick : UInt32}
    {events : List Event} {p : PowerSensor}
    (hrun : runFrom (step roundSqrt) ⟨.initial bootTick, []⟩ events = some p) (m : Maxima) :
    ∃ reports : List (List (List Record)), List.Forall₂ m.Reports reports p.answers ∧
      reports.flatten ++ m.unread (.of bootTick (events.flatMap Event.adcEvents)) =
        (Windows.of bootTick (events.flatMap Event.adcEvents)).closed := by
  suffices hreported : Reported roundSqrt bootTick m (events.flatMap Event.adcEvents) p from
    hreported.answers
  refine runFrom_invariant
    (fun past p => Reported roundSqrt bootTick m (past.flatMap Event.adcEvents) p) ?_ ?_ hrun
  · refine ⟨rfl, [], .nil, ?_⟩
    cases m <;> rfl
  · intro past before e after ⟨hadcTask, reports, hreports, hcover⟩ hstep
    rw [List.flatMap_append, List.flatMap_singleton]
    cases e with
    | record record tick closeTick =>
        simp only [step, Option.bind_eq_bind, Option.bind_eq_some_iff, Option.pure_def] at hstep
        obtain ⟨adcTask, hrecord, hafter⟩ := hstep
        cases hafter
        refine ⟨runFrom_concat_eq_some.mpr ⟨_, hadcTask, hrecord⟩, reports, hreports, ?_⟩
        rw [Event.adcEvents, Windows.of_concat]
        refine hcover.observe ?_
        cases m <;> nofun
    | call env =>
        simp only [step, Option.bind_eq_bind, Option.bind_eq_some_iff, Option.pure_def] at hstep
        obtain ⟨⟨answer, adcTask⟩, hcall, hafter⟩ := hstep
        cases hafter
        obtain ⟨states, hstates, hcopies, rfl⟩ := copies_of_call hcall
        have hreach : ∀ copy ≤ 8, runFrom (AdcTask.step roundSqrt) (.initial bootTick)
            (past.flatMap Event.adcEvents ++ env.before copy) = some (states copy) :=
          fun copy hcopy => runFrom_append_eq_some.mpr ⟨_, hadcTask, hstates copy hcopy⟩
        refine ⟨hreach 8 (Nat.le_refl 8),
          reports ++ [m.unread (windowsAt bootTick (past.flatMap Event.adcEvents) env m.copy)],
          ?_, ?_⟩
        · refine List.rel_append hreports (.cons ?_ .nil)
          cases m with
          | voltages =>
              intro i line
              have hpeaked := Peaked.of_run (hreach 2 (by omega))
              rw [hcopies.voltageMax i line, Option.map_some, windowPeak_flatten]
              exact congrArg some (hpeaked.storedVoltages i)
          | currents =>
              intro i
              have hpeaked := Peaked.of_run (hreach 4 (by omega))
              rw [hcopies.currentMax]
              exact hpeaked.storedCurrents i
        · rw [List.flatten_append, List.flatten_singleton]
          exact hcover.call env

/-- A window is closed before the first of two calls, one during it, and one after the
second: the first two are reported, the third is kept. -/
theorem maxima_cover_windows_closing : ∃ p,
    runFrom (step roundedRoot) ⟨.initial 0, []⟩
      [.record (phaseRecord 10 100) 0 0, .record (phaseRecord 20 (-40)) 1001 1002,
        .call closingCall, .call { closingCall with records := fun _ => [] },
        .record (phaseRecord 30 (-60)) 3006 3007] = some p ∧
    ∀ m : Maxima, ∃ reports : List (List (List Record)),
      List.Forall₂ m.Reports reports p.answers ∧
        reports.flatten ++ [[phaseRecord 30 (-60)]] =
          [[phaseRecord 10 100, phaseRecord 20 (-40)],
            [phaseRecord 70 100, phaseRecord 10 (-100)], [phaseRecord 30 (-60)]] := by
  obtain ⟨p, hrun⟩ : ∃ p, runFrom (step roundedRoot) ⟨.initial 0, []⟩
      [.record (phaseRecord 10 100) 0 0, .record (phaseRecord 20 (-40)) 1001 1002,
        .call closingCall, .call { closingCall with records := fun _ => [] },
        .record (phaseRecord 30 (-60)) 3006 3007] = some p :=
    Option.isSome_iff_exists.mp (by decide)
  refine ⟨p, hrun, fun m => ?_⟩
  cases m with
  | voltages => exact maxima_cover_windows hrun .voltages
  | currents => exact maxima_cover_windows hrun .currents

end PowerSensor

end WindradLogger.Rpc
