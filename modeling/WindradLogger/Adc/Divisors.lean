import WindradLogger.Adc.Crossings
import WindradLogger.Adc.Loop

set_option autoImplicit false

/-!
# The divisors of a close (`task_external_adc.c`)

A close divides by the number of records of the window and by the number of
crossings counted in it.  The first is at least one; how large the second is
depends on the voltage: it is the number of crossings that a trigger counts in the
window whose thresholds are half the peak of the window before.
-/

namespace WindradLogger.Adc

open WindradLogger.Lib WindradLogger.Storage

/-! ## Crossings, told by the records alone -/

/-- A record with the peak of `volt_l21` in the window before its own. -/
structure Sample where
  record : Record
  oldPeak : Nat

/-- The crossings of `volt_l21` with a hysteresis of half the previous peak. -/
def voltageTrigger : Hysteresis Sample where
  falls x := value .voltL21 x.record < -(x.oldPeak / 2 : Nat)
  rises x := value .voltL21 x.record > (x.oldPeak / 2 : Nat)

/-- The peak of the last of the windows, `oldPeak` if there is none. -/
def lastPeak (oldPeak : Nat) (windows : List (List Record)) : Nat :=
  windows.foldl (fun _ window => windowPeak .voltL21 window) oldPeak

/-- The samples of consecutive windows. -/
def samplesOf (oldPeak : Nat) : List (List Record) → List Sample
  | [] => []
  | window :: later =>
      window.map (Sample.mk · oldPeak) ++ samplesOf (windowPeak .voltL21 window) later

namespace Windows

/-- The peak of the window before the one in progress, 0 in the first window. -/
def oldPeak (w : Windows) : Nat := lastPeak 0 w.closed

/-- The samples of the windows closed. -/
def past (w : Windows) : List Sample := samplesOf 0 w.closed

/-- The samples of the window in progress. -/
def inWindow (w : Windows) : List Sample := w.current.map (Sample.mk · w.oldPeak)

/-- The number of crossings in the window in progress. -/
def crossings (w : Windows) : Nat := voltageTrigger.crossings w.past w.inWindow

end Windows

theorem lastPeak_concat (oldPeak : Nat) (windows : List (List Record)) (window : List Record) :
    lastPeak oldPeak (windows ++ [window]) = windowPeak .voltL21 window := by
  simp [lastPeak]

theorem lastPeak_le {oldPeak : Nat} (h : oldPeak ≤ 2 ^ 15) (windows : List (List Record)) :
    lastPeak oldPeak windows ≤ 2 ^ 15 := by
  induction windows generalizing oldPeak with
  | nil => exact h
  | cons window later ih => exact ih (windowPeak_le .voltL21 window)

theorem samplesOf_concat (oldPeak : Nat) (windows : List (List Record)) (window : List Record) :
    samplesOf oldPeak (windows ++ [window]) =
      samplesOf oldPeak windows ++ window.map (Sample.mk · (lastPeak oldPeak windows)) := by
  induction windows generalizing oldPeak with
  | nil => simp [samplesOf, lastPeak]
  | cons first later ih =>
      rw [List.cons_append, samplesOf, samplesOf, ih, List.append_assoc]
      rfl

/-- A voltage cannot be below the one threshold and above the other. -/
theorem not_rises_of_falls {x : Sample} (h : voltageTrigger.falls x = true) :
    voltageTrigger.rises x = false := by
  have hfalls : value .voltL21 x.record < -(x.oldPeak / 2 : Nat) := of_decide_eq_true h
  refine decide_eq_false ?_
  omega

/-! ## The measurement counts these crossings -/

/-- The state of the measurement, told by the windows. -/
structure Crossed (w : Windows) (s : AdcTask) : Prop where
  oldMaxAbs : s.valueVoltL21OldMaxAbs.toInt = w.oldPeak
  rising : s.periodLengthHisteresisRising = voltageTrigger.armed (w.past ++ w.inWindow)
  cycles : s.periodAvgCyclesN = UInt32.ofNat w.crossings

namespace Crossed

theorem initial (tick : UInt32) : Crossed (.begin tick) (.initial tick) where
  oldMaxAbs := rfl
  rising := rfl
  cycles := rfl

variable {w : Windows} {s : AdcTask}

/-- The comparisons of the task are those of the trigger. -/
theorem falls_eq (inv : Crossed w s) (record : Record) :
    s.falls record = voltageTrigger.falls ⟨record, w.oldPeak⟩ := by
  have hpeak : w.oldPeak ≤ 2 ^ 15 := lastPeak_le (Nat.zero_le _) w.closed
  have hne : (2 : Int32) ≠ -1 := by decide
  have hneg : (-s.valueVoltL21OldMaxAbs).toInt = -w.oldPeak := by
    rw [Int32.toInt_neg, inv.oldMaxAbs]
    exact Int.bmod_eq_of_le (by omega) (by omega)
  have hhalf : (-s.valueVoltL21OldMaxAbs / 2).toInt = -(w.oldPeak / 2 : Nat) := by
    rw [Int32.toInt_div_of_ne_right _ _ hne, hneg, Int.neg_tdiv]
    rfl
  refine decide_eq_decide.mpr ?_
  rw [Int32.lt_iff_toInt_lt, hhalf, Int16.toInt_toInt32]
  rfl

theorem rises_eq (inv : Crossed w s) (record : Record) :
    s.rises record = voltageTrigger.rises ⟨record, w.oldPeak⟩ := by
  have hne : (2 : Int32) ≠ -1 := by decide
  have hhalf : (s.valueVoltL21OldMaxAbs / 2).toInt = (w.oldPeak / 2 : Nat) := by
    rw [Int32.toInt_div_of_ne_right _ _ hne, inv.oldMaxAbs]
    rfl
  refine decide_eq_decide.mpr ?_
  rw [gt_iff_lt, gt_iff_lt, Int32.lt_iff_toInt_lt, hhalf, Int16.toInt_toInt32]
  rfl

theorem countsCrossing_eq (inv : Crossed w s) (record : Record) :
    s.countsCrossing record =
      voltageTrigger.crosses (w.past ++ w.inWindow) ⟨record, w.oldPeak⟩ := by
  rw [AdcTask.countsCrossing, Hysteresis.crosses, inv.rising, inv.falls_eq]

theorem inWindow_concat (w : Windows) (record : Record) :
    Windows.inWindow { w with current := w.current ++ [record] } =
      w.inWindow ++ [⟨record, w.oldPeak⟩] := by
  simp [Windows.inWindow, Windows.oldPeak]

theorem crossings_concat (w : Windows) (record : Record) :
    Windows.crossings { w with current := w.current ++ [record] } =
      w.crossings +
        if voltageTrigger.crosses (w.past ++ w.inWindow) ⟨record, w.oldPeak⟩ then 1 else 0 := by
  rw [Windows.crossings, inWindow_concat]
  exact voltageTrigger.crossings_concat w.past w.inWindow ⟨record, w.oldPeak⟩

/-- A record is counted as the trigger counts it. -/
theorem addRecord (inv : Crossed w s) (record : Record) :
    Crossed { w with current := w.current ++ [record] } (s.addRecord record) where
  oldMaxAbs := by
    obtain ⟨_, _, _, _, hframe⟩ := s.detectCrossing_frame record
    rw [AdcTask.addRecord, hframe]
    exact inv.oldMaxAbs
  rising := by
    change (s.detectCrossing record).periodLengthHisteresisRising = _
    rw [AdcTask.detectCrossing_eq, inWindow_concat, ← List.append_assoc, Hysteresis.armed_concat]
    dsimp only
    rw [AdcTask.countsCrossing, inv.rises_eq, inv.falls_eq, inv.rising]
    change _ = if _ then false else voltageTrigger.armed (w.past ++ w.inWindow) || _
    cases hfalls : voltageTrigger.falls ⟨record, w.oldPeak⟩ with
    | true =>
        rw [not_rises_of_falls hfalls]
        cases voltageTrigger.armed (w.past ++ w.inWindow) with
        | true => rfl
        | false => rfl
    | false => rw [Bool.and_false]
  cycles := by
    change (s.detectCrossing record).periodAvgCyclesN = _
    rw [AdcTask.detectCrossing_eq, crossings_concat, inv.countsCrossing_eq]
    dsimp only
    split
    · rw [inv.cycles, UInt32.ofNat_add]
      rfl
    · exact inv.cycles

/-- A close sets the thresholds for the next window and begins to count anew. -/
theorem closeWindow (inv : Crossed w s) (peaks : Peaked w s) (roundSqrt : UInt64 → UInt16)
    (closeTick : UInt32) : Crossed (w.close closeTick) (s.closeWindow roundSqrt closeTick) where
  oldMaxAbs := by
    have hpeak := windowPeak_le .voltL21 w.current
    have hmax : (s.voltagesMaxAbs .l21).toNat = windowPeak .voltL21 w.current := peaks.voltages .l21
    change (s.voltagesMaxAbs .l21).toInt32.toInt = lastPeak 0 (w.closed ++ [w.current])
    rw [lastPeak_concat, toInt_toInt32, hmax]
    exact Int.bmod_eq_of_le (by omega) (by omega)
  rising := by
    change s.periodLengthHisteresisRising =
      voltageTrigger.armed (samplesOf 0 (w.closed ++ [w.current]) ++ [])
    rw [samplesOf_concat, List.append_nil]
    exact inv.rising
  cycles := rfl

/-- Every event keeps the state of the measurement that of the windows. -/
theorem step {roundSqrt : UInt64 → UInt16} {e : AdcTask.Event} {s' : AdcTask} (inv : Crossed w s)
    (sums : Summed w s) (peaks : Peaked w s) (h : s.step roundSqrt e = some s') :
    Crossed (w.observe e) s' := by
  cases e with
  | record record tick closeTick =>
      obtain ⟨hwindows, rfl⟩ | ⟨hwindows, rfl⟩ := sums.record_cases h
      · rw [hwindows]
        exact inv.addRecord record
      · rw [hwindows]
        exact (inv.addRecord record).closeWindow (peaks.addRecord record) roundSqrt closeTick
  | getCurrentsMax =>
      cases h
      exact ⟨inv.oldMaxAbs, inv.rising, inv.cycles⟩
  | getVoltagesMax =>
      cases h
      exact ⟨inv.oldMaxAbs, inv.rising, inv.cycles⟩

/-- In every run the crossings counted are those of the window in progress. -/
theorem of_run {roundSqrt : UInt64 → UInt16} {tick : UInt32} {events : List AdcTask.Event}
    (hrun : runFrom (AdcTask.step roundSqrt) (.initial tick) events = some s) :
    Crossed (.of tick events) s := by
  refine runFrom_induction (fun past s => Crossed (.of tick past) s) (initial tick) ?_ hrun
  intro past before e after hpast inv hstep
  rw [Windows.of_concat]
  exact inv.step (Summed.of_run hpast) (Peaked.of_run hpast) hstep

end Crossed

namespace AdcTask

/-- A close that is reached divides by a number of records other than 0: that is
asserted. -/
theorem effectivingN_ne_zero_of_over {roundSqrt : UInt64 → UInt16} {s s' : AdcTask}
    {record : Record} {tick closeTick : UInt32} (hover : s.periodOver tick = true)
    (h : s.evaluateRecord roundSqrt record tick closeTick = some s') :
    (s.addRecord record).effectivingN ≠ 0 := by
  rw [← s.addRecord_periodOver record tick] at hover
  unfold evaluateRecord at h
  dsimp only at h
  split at h
  · split at h
    · split at h
      · rename_i hne
        exact hne
      · cases h
    · rename_i hopen
      exact absurd hover hopen
  · cases h

end AdcTask

/-- The close of a window, in a run over the words of the ADC: word `w` completes
`record`, and the task finds the averaging period over. -/
structure ClosesWindow (roundSqrt : UInt64 → UInt16) (calibrationData : Calibration)
    (t : TaskExternalAdc) (w : WordRead) (record : Record) : Prop where
  completes : ∃ dataRecord, storeWord t.dataRecord w.adcWord = some (dataRecord, some record)
  elapsed : t.acquisition.task.periodOver w.tick = true
  reached : ∃ t', t.processWord roundSqrt calibrationData w = some t'

/-- The task when it divides. -/
def atClose (calibrationData : Calibration) (t : TaskExternalAdc) (record : Record) : AdcTask :=
  t.acquisition.task.addRecord (calibrate calibrationData record)

/-- The windows of a run over words, with the record that ends the last one. -/
def windowsAtClose (calibrationData : Calibration) (bootTick : UInt32) (words : List WordRead)
    (record : Record) : Windows :=
  let w := Windows.of bootTick
    (TaskExternalAdc.recordEvents calibrationData (TaskExternalAdc.initial bootTick).dataRecord
      words)
  { w with current := w.current ++ [calibrate calibrationData record] }

/-- A close divides by zero exactly if no falling crossing of `volt_l21`, or a
multiple of `2 ^ 32` of them, lies in the window. -/
theorem divisors_ne_zero_iff {roundSqrt : UInt64 → UInt16} {calibrationData : Calibration}
    {bootTick : UInt32} {words : List WordRead} {t : TaskExternalAdc} {w : WordRead}
    {record : Record}
    (hrun : runFrom (TaskExternalAdc.processWord roundSqrt calibrationData) (.initial bootTick)
      words = some t)
    (hclose : ClosesWindow roundSqrt calibrationData t w record) :
    (atClose calibrationData t record).effectivingN ≠ 0 ∧
        (atClose calibrationData t record).periodAvgCyclesN ≠ 0 ↔
      (windowsAtClose calibrationData bootTick words record).crossings % 2 ^ 32 ≠ 0 := by
  obtain ⟨⟨dataRecord, hstore⟩, hover, t', hword⟩ := hclose
  have inv := (Crossed.of_run (TaskExternalAdc.run_task hrun)).addRecord
    (calibrate calibrationData record)
  have hcount : (atClose calibrationData t record).effectivingN ≠ 0 := by
    obtain ⟨hnone, _⟩ | ⟨record', hstore', hprocess⟩ := TaskExternalAdc.processWord_cases hword
    · rw [hnone] at hstore
      cases hstore
    · rw [hstore] at hstore'
      cases hstore'
      exact AdcTask.effectivingN_ne_zero_of_over hover
        (Acquisition.processRecord_eq_some.mp hprocess).1
  have hcycles : (atClose calibrationData t record).periodAvgCyclesN =
      UInt32.ofNat (windowsAtClose calibrationData bootTick words record).crossings := inv.cycles
  rw [and_iff_right hcount, hcycles, not_iff_not, ← UInt32.toNat_inj, UInt32.toNat_ofNat']
  rfl

/-- The first word of a standing turbine, more than a second after the task has
begun. -/
def standingWord : WordRead := ⟨adcWord .auxVolt 0, 1001, 1001⟩

theorem closesWindow_standing : ClosesWindow (fun _ => 0) defaultCalibration (.initial 0)
    standingWord (takeRecord fun _ => 0) where
  completes := by
    refine ⟨fun _ => 0, ?_⟩
    have hstored : Function.update (fun _ => (0 : Int16)) RawChannel.auxVolt.number (sample 0) =
        fun _ => 0 := Function.update_eq_self _ _
    rw [standingWord, TaskExternalAdc.initial, storeWord_adcWord, hstored]
    rfl
  elapsed := rfl
  reached := ⟨_, rfl⟩

/-- Without a voltage the first close divides by zero. -/
theorem divisors_zero_standing :
    runFrom (TaskExternalAdc.processWord (fun _ => 0) defaultCalibration) (.initial 0) [] =
      some (.initial 0) ∧
    ClosesWindow (fun _ => 0) defaultCalibration (.initial 0) standingWord
      (takeRecord fun _ => 0) ∧
    ¬((atClose defaultCalibration (.initial 0) (takeRecord fun _ => 0)).effectivingN ≠ 0 ∧
      (atClose defaultCalibration (.initial 0) (takeRecord fun _ => 0)).periodAvgCyclesN ≠ 0) := by
  refine ⟨rfl, closesWindow_standing, ?_⟩
  rintro ⟨_, hcycles⟩
  exact hcycles rfl

/-- A word of the reference voltage, before the last channel arrives. -/
def referenceWord : WordRead := ⟨adcWord .vref 100, 0, 0⟩

/-- The task behind `referenceWord`. -/
def afterReference : TaskExternalAdc :=
  { dataRecord := Function.update (fun _ => 0) RawChannel.vref.number (sample 100)
    acquisition := .initial 0 }

/-- The record that a word of 0 completes then. -/
def turningRecord : Record :=
  takeRecord (Function.update afterReference.dataRecord RawChannel.auxVolt.number (sample 0))

/-- A voltage below the reference in the first window is a crossing. -/
theorem divisors_ne_zero_turning :
    (atClose defaultCalibration afterReference turningRecord).effectivingN ≠ 0 ∧
      (atClose defaultCalibration afterReference turningRecord).periodAvgCyclesN ≠ 0 := by
  have hrun : runFrom (TaskExternalAdc.processWord (fun _ => 0) defaultCalibration) (.initial 0)
      [referenceWord] = some afterReference := by
    refine runFrom_cons_eq_some.mpr ⟨afterReference, ?_, rfl⟩
    rw [TaskExternalAdc.processWord, referenceWord, TaskExternalAdc.initial, storeWord_adcWord]
    rfl
  have hclose : ClosesWindow (fun _ => 0) defaultCalibration afterReference standingWord
      turningRecord :=
    ⟨⟨_, storeWord_adcWord _ _ _⟩, rfl, ⟨_, rfl⟩⟩
  exact (divisors_ne_zero_iff hrun hclose).mpr (by decide)

end WindradLogger.Adc
