import WindradLogger.McuAdc.Smoothing
import WindradLogger.Storage.Fallback

set_option autoImplicit false

/-!
# The values of the MCU's ADC (`task_adc.c`, `rpc_func_freertos.c`)

`adc_get_values` copies the published values and calibrates the first three of them.
The calibrated value is stored back in 16 bits without sign; the temperature goes
from there to a field of eight bits with a sign.
-/

namespace WindradLogger.McuAdc

open WindradLogger.Lib WindradLogger.Storage

/-- The place of an index in `cpu_channels`, if `adc_get_values` calibrates it. -/
def AdcSequenceIndex.calibrated : AdcSequenceIndex → Option (Fin adcMcuValueCount)
  | temperature => some ⟨0, by decide⟩
  | currExt => some ⟨1, by decide⟩
  | supplySensse => some ⟨2, by decide⟩
  | coinCell => none
  | ref => none

/-- `adc_get_values` -/
def adcGetValues (calibration : Calibration) (f : Filter) : AdcSequenceIndex → UInt16 :=
  fun index =>
    match index.calibrated with
    | some channel =>
        (calibApplyCalibration (f.smoothed index).toUInt32.toInt32
          (calibration.cpuChannels.get channel)).toUInt32.toUInt16
    | none => f.smoothed index

/-- The fields of `power_sensor_data_t` that come from `adc_get_values`. -/
structure McuSensorData where
  externalCurrentSensor : UInt16
  supplyVoltage : UInt16
  cpuTemperature : Int8
  coinCellMv : UInt16
  deriving DecidableEq, Repr

/-- The part of `get_power_sensor_data` that reads the ADC of the MCU. -/
def getMcuSensorData (calibration : Calibration) (f : Filter) : McuSensorData :=
  let values := adcGetValues calibration f
  { externalCurrentSensor := values .currExt
    supplyVoltage := values .supplySensse
    cpuTemperature := (values .temperature).toInt16.toInt8
    coinCellMv := values .coinCell }

/-- A calibrated value is the exact one modulo `2^16`, the others are as published. -/
theorem adcGetValues_congruent (calibration : Calibration) (f : Filter)
    (index : AdcSequenceIndex) :
    match index.calibrated with
    | some channel => (adcGetValues calibration f index).toNat ≡
        (calibration.cpuChannels.get channel).calibrated (f.smoothed index).toNat [ZMOD 2 ^ 16]
    | none => adcGetValues calibration f index = f.smoothed index := by
  unfold adcGetValues
  split
  · rename_i channel hchannel
    obtain ⟨-, hvalue⟩ := calibApplyRecorded_computes (calibration.cpuChannels.get channel)
      (natAbs_uint16_le (f.smoothed index))
    rw [value_calibApplyRecorded, toInt_toInt32_toUInt32] at hvalue
    generalize (calibration.cpuChannels.get channel).calibrated _ = exact at hvalue ⊢
    have hread := toNat_toUInt32 (calibApplyCalibration (f.smoothed index).toUInt32.toInt32
      (calibration.cpuChannels.get channel))
    have hwrap : exact.bmod (2 ^ 32) % 2 ^ 32 = exact % 2 ^ 32 := Int.bmod_emod
    rw [hvalue, hwrap] at hread
    change _ % _ = _ % _
    rw [UInt32.toNat_toUInt16]
    omega
  · rfl

/-- With the default calibration the values are those published. -/
theorem adcGetValues_default (f : Filter) : adcGetValues defaultCalibration f = f.smoothed := by
  funext index
  unfold adcGetValues
  split
  · rename_i channel hchannel
    have hcpu : defaultCalibration.cpuChannels.get channel = unitCoefficients :=
      Vector.getElem_replicate channel.isLt
    rw [hcpu, calibApplyCalibration_unitCoefficients]
    simp
  · rfl

/-- A client of the RPC interface then reads a steady temperature from zero degrees on
as it is, once it has settled. -/
theorem cpuTemperature_settled {t : Int32} (hlower : 0 ≤ t.toInt) (hupper : t.toInt ≤ 85)
    {cycles : List PhysicalUnits} (h : Filter.Steady t cycles)
    (hlength : 15 * t.toInt.toNat + 1 ≤ cycles.length) :
    (getMcuSensorData defaultCalibration (Filter.after cycles)).cpuTemperature.toInt =
      t.toInt := by
  have hsettled := Filter.publishedTemperature_settled hlower hupper h hlength
  rw [getMcuSensorData, adcGetValues_default, Int16.toInt_toInt8]
  change (Filter.publishedTemperature cycles).bmod (2 ^ 8) = _
  rw [hsettled]
  exact Int.bmod_eq_of_le (by omega) (by omega)

end WindradLogger.McuAdc
