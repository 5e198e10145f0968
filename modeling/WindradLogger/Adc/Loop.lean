import WindradLogger.Adc.Acquisition
import WindradLogger.Adc.RawWords
import WindradLogger.Storage.Calibration

set_option autoImplicit false

/-!
# The loop over the words (`task_external_adc.c`)

For every word `taskExternalADC` updates `data_record`; a word that completes a
record has it calibrated, evaluated and kept as sample data.  A run over words
is, for the evaluation, a run over the calibrated records that the words complete.
-/

namespace WindradLogger.Adc

open WindradLogger.Lib WindradLogger.Storage

/-- The number of the channel in `ext_adc_value_channel_t`. -/
def ExtAdcValue.index : ExtAdcValue → Fin adcExternalValueCount
  | .currL1 => ⟨0, by decide⟩
  | .currL2 => ⟨1, by decide⟩
  | .currL3 => ⟨2, by decide⟩
  | .vref => ⟨3, by decide⟩
  | .voltL21 => ⟨4, by decide⟩
  | .voltL32 => ⟨5, by decide⟩
  | .voltL13 => ⟨6, by decide⟩
  | .auxVolt => ⟨7, by decide⟩
  | .tempL1 => ⟨8, by decide⟩
  | .tempL2 => ⟨9, by decide⟩
  | .tempL3 => ⟨10, by decide⟩

/-- `apply_calibration` -/
def applyCalibration (inValue : Int32) (calibration : Calibration) (channel : ExtAdcValue) :
    Int32 :=
  let result : Int64 :=
    if inValue > 0 then
      (calibApplyCalibration inValue (calibration.channelPos.get channel.index)).toInt64
    else (calibApplyCalibration inValue (calibration.channelNeg.get channel.index)).toInt64
  result.toInt32

/-- The calibration of a record. -/
def calibrate (calibrationData : Calibration) (record : Record) : Record := fun channel =>
  (applyCalibration (record channel).toInt32 calibrationData channel).toInt16

/-- `data_record` and the rest of the state of `taskExternalADC`. -/
structure TaskExternalAdc where
  dataRecord : Nat → Int16
  acquisition : Acquisition

/-- A word of the input buffer, with the ticks read while it is processed. -/
structure WordRead where
  adcWord : UInt32
  tick : UInt32
  closeTick : UInt32

namespace TaskExternalAdc

/-- The loop begins at tick `tick`. -/
def initial (tick : UInt32) : TaskExternalAdc :=
  { dataRecord := fun _ => 0, acquisition := .initial tick }

/-- `taskExternalADC`, one word. -/
def processWord (roundSqrt : UInt64 → UInt16) (calibrationData : Calibration)
    (t : TaskExternalAdc) (w : WordRead) : Option TaskExternalAdc := do
  let (dataRecord, completed) ← storeWord t.dataRecord w.adcWord
  match completed with
  | none => return { t with dataRecord := dataRecord }
  | some record =>
      let acquisition ← t.acquisition.processRecord roundSqrt
        (calibrate calibrationData record) w.tick w.closeTick
      return { dataRecord := dataRecord, acquisition := acquisition }

/-- The records that words complete, calibrated, with the ticks read. -/
def recordEvents (calibrationData : Calibration) (dataRecord : Nat → Int16) :
    List WordRead → List AdcTask.Event
  | [] => []
  | w :: rest =>
      match storeWord dataRecord w.adcWord with
      | none => []
      | some (dataRecord, none) => recordEvents calibrationData dataRecord rest
      | some (dataRecord, some record) =>
          .record (calibrate calibrationData record) w.tick w.closeTick ::
            recordEvents calibrationData dataRecord rest

variable {roundSqrt : UInt64 → UInt16} {calibrationData : Calibration}

/-- A word completes nothing, or a record that is processed. -/
theorem processWord_cases {t t' : TaskExternalAdc} {w : WordRead}
    (h : t.processWord roundSqrt calibrationData w = some t') :
    (storeWord t.dataRecord w.adcWord = some (t'.dataRecord, none) ∧
      t'.acquisition = t.acquisition) ∨
    ∃ record, storeWord t.dataRecord w.adcWord = some (t'.dataRecord, some record) ∧
      t.acquisition.processRecord roundSqrt (calibrate calibrationData record) w.tick w.closeTick =
        some t'.acquisition := by
  rw [processWord, Option.bind_eq_bind, Option.bind_eq_some_iff] at h
  obtain ⟨⟨dataRecord, completed⟩, hstore, h⟩ := h
  cases completed with
  | none =>
      cases h
      exact Or.inl ⟨hstore, rfl⟩
  | some record =>
      dsimp only at h
      rw [Option.bind_eq_bind, Option.bind_eq_some_iff] at h
      obtain ⟨acquisition, hprocess, h⟩ := h
      cases h
      exact Or.inr ⟨record, hstore, hprocess⟩

/-- For `data_record` a run over words is what storing the words makes of it. -/
theorem run_dataRecord {words : List WordRead} {t t' : TaskExternalAdc}
    (hrun : runFrom (processWord roundSqrt calibrationData) t words = some t') :
    ∃ completed, transduce storeWord t.dataRecord (words.map WordRead.adcWord) =
      some (t'.dataRecord, completed) := by
  induction words generalizing t with
  | nil =>
      cases hrun
      exact ⟨[], rfl⟩
  | cons w rest ih =>
      obtain ⟨after, hword, hrest⟩ := runFrom_cons_eq_some.mp hrun
      obtain ⟨completed, hlater⟩ := ih hrest
      obtain ⟨hstore, _⟩ | ⟨record, hstore, _⟩ := processWord_cases hword
      · exact ⟨none :: completed, transduce_cons hstore hlater⟩
      · exact ⟨some record :: completed, transduce_cons hstore hlater⟩

/-- For the evaluation a run over words is a run over the records they complete. -/
theorem run_task {words : List WordRead} {t t' : TaskExternalAdc}
    (hrun : runFrom (processWord roundSqrt calibrationData) t words = some t') :
    runFrom (AdcTask.step roundSqrt) t.acquisition.task
      (recordEvents calibrationData t.dataRecord words) = some t'.acquisition.task := by
  induction words generalizing t with
  | nil =>
      cases hrun
      rfl
  | cons w rest ih =>
      obtain ⟨after, hword, hrest⟩ := runFrom_cons_eq_some.mp hrun
      obtain ⟨hstore, hsame⟩ | ⟨record, hstore, hprocess⟩ := processWord_cases hword
      · rw [recordEvents, hstore, ← hsame]
        exact ih hrest
      · rw [recordEvents, hstore]
        exact runFrom_cons_eq_some.mpr
          ⟨after.acquisition.task, (Acquisition.processRecord_eq_some.mp hprocess).1, ih hrest⟩

end TaskExternalAdc

end WindradLogger.Adc
