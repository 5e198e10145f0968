import WindradLogger.Adc.Loop
import WindradLogger.Storage.Arithmetic
import WindradLogger.Storage.Fallback

set_option autoImplicit false

/-!
# Calibrated samples (`task_external_adc.c`)

A raw value of twelve bits and a sign is calibrated with the coefficients for its
sign.  The result comes as an `int32_t` and is kept in an `int16_t`.  Any client of
the RPC interface can set the coefficients, and they decide whether it fits.  The
calibration that `calib_init` falls back to leaves all values as they are.
-/

namespace WindradLogger.Adc

open WindradLogger.Flash WindradLogger.Eeprom WindradLogger.Lib WindradLogger.Storage

/-- The coefficients that `apply_calibration` takes for a value. -/
def coefficientsFor (calibrationData : Calibration) (channel : ExtAdcValue) (x : Int) :
    CalibrationCoefficients :=
  if 0 < x then calibrationData.channelPos.get channel.index
  else calibrationData.channelNeg.get channel.index

/-- The calibrated value of a channel over the integers. -/
def calibratedValue (calibrationData : Calibration) (channel : ExtAdcValue) (x : Int) : Int :=
  (coefficientsFor calibrationData channel x).calibrated x

/-- On its way to `adc_channels` the calibrated value of a channel is not changed:
not when `calib_apply_calibration` returns it, not by `apply_calibration`, and not
when it is stored. -/
def StoredExactly (calibrationData : Calibration) (record : Record) (channel : ExtAdcValue) :
    Prop :=
  let exact := calibratedValue calibrationData channel (record channel).toInt
  (calibApplyCalibration (record channel).toInt32
      (coefficientsFor calibrationData channel (record channel).toInt)).toInt = exact ∧
    (applyCalibration (record channel).toInt32 calibrationData channel).toInt = exact ∧
    (calibrate calibrationData record channel).toInt = exact

/-- `apply_calibration` passes on what `calib_apply_calibration` returns. -/
theorem applyCalibration_eq (value : Int16) (calibrationData : Calibration)
    (channel : ExtAdcValue) :
    applyCalibration value.toInt32 calibrationData channel =
      calibApplyCalibration value.toInt32
        (coefficientsFor calibrationData channel value.toInt) := by
  have hpositive : value.toInt32 > 0 ↔ 0 < value.toInt := by
    rw [gt_iff_lt, Int32.lt_iff_toInt_lt, Int16.toInt_toInt32]
    rfl
  unfold applyCalibration coefficientsFor
  rcases Int.lt_or_le 0 value.toInt with hlt | hge
  · rw [if_pos (hpositive.mpr hlt), if_pos hlt]
    exact Int32.toInt32_toInt64 _
  · have hnot : ¬ 0 < value.toInt := Int.not_lt.mpr hge
    rw [if_neg fun h => hnot (hpositive.mp h), if_neg hnot]
    exact Int32.toInt32_toInt64 _

/-- Nothing is lost on the way exactly when the calibrated value fits into the
`int16_t` at its end. -/
theorem storedExactly_iff_fits (calibrationData : Calibration) (record : Record)
    (channel : ExtAdcValue) :
    StoredExactly calibrationData record channel ↔
      -2 ^ 15 ≤ calibratedValue calibrationData channel (record channel).toInt ∧
        calibratedValue calibrationData channel (record channel).toInt < 2 ^ 15 := by
  obtain ⟨-, hreturned⟩ := calibApplyRecorded_computes
    (coefficientsFor calibrationData channel (record channel).toInt)
    (natAbs_int16_le (record channel))
  rw [value_calibApplyRecorded, Int16.toInt_toInt32] at hreturned
  change _ = (calibratedValue calibrationData channel (record channel).toInt).bmod (2 ^ 32)
    at hreturned
  unfold StoredExactly calibrate
  rw [applyCalibration_eq]
  generalize calibratedValue calibrationData channel (record channel).toInt = exact at *
  generalize calibApplyCalibration (record channel).toInt32 _ = returned at *
  constructor
  · rintro ⟨-, -, hstored⟩
    rw [← hstored]
    exact ⟨returned.toInt16.le_toInt, returned.toInt16.toInt_lt⟩
  · rintro ⟨hlower, hupper⟩
    have hsame : returned.toInt = exact := by
      rw [hreturned]
      exact Int.bmod_eq_of_le (by omega) (by omega)
    refine ⟨hsame, hsame, ?_⟩
    rw [← hsame, toInt_toInt16_eq_iff, hsame]
    exact ⟨hlower, hupper⟩

/-- A raw value is stored as its calibrated value exactly when `c0 + c1*x + c2*x*x`
does not reach the multiples of 65536 that an `int16_t` has no room for. -/
theorem storedExactly_iff (calibrationData : Calibration) (record : Record)
    (channel : ExtAdcValue) :
    StoredExactly calibrationData record channel ↔
      -(2 ^ 31 + 65536) <
          (coefficientsFor calibrationData channel (record channel).toInt).polynomial
            (record channel).toInt ∧
        (coefficientsFor calibrationData channel (record channel).toInt).polynomial
            (record channel).toInt < 2 ^ 31 := by
  rw [storedExactly_iff_fits, calibratedValue, CalibrationCoefficients.calibrated]
  generalize CalibrationCoefficients.polynomial _ _ = total
  have hrange : (-2 ^ 15 ≤ total.tdiv 65536 ∧ total.tdiv 65536 ≤ 2 ^ 15 - 1) ↔
      (-2 ^ 15 - 1) * 65536 < total ∧ total < (2 ^ 15 - 1 + 1) * 65536 :=
    tdiv_mem_iff (by decide) (by decide) (by decide)
  omega

/-- The calibration that multiplies every channel by nine. -/
def nineFold : Calibration :=
  { defaultCalibration with
    channelPos := Vector.replicate adcExternalValueCount
      { unitCoefficients with c1Over65536 := BitVec.ofNat 32 (9 * 65536) } }

/-- The largest raw value becomes negative. -/
theorem not_storedExactly_nineFold :
    ¬ StoredExactly nineFold (fun _ => 4095) .voltL21 ∧
      (calibrate nineFold (fun _ => 4095) .voltL21).toInt = -28681 ∧
      calibratedValue nineFold .voltL21 4095 = 36855 := by
  refine ⟨?_, by decide, by decide⟩
  rintro ⟨-, -, hstored⟩
  exact absurd hstored (by decide)

/-! ## After `calib_init` -/

/-- A calibration that changes no value of any channel. -/
def IsIdentity (calibrationData : Calibration) : Prop :=
  (∀ (inValue : Int32) (channel : ExtAdcValue),
      applyCalibration inValue calibrationData channel = inValue) ∧
    ∀ (inValue : Int32) (channel : Fin adcMcuValueCount),
      calibApplyCalibration inValue (calibrationData.cpuChannels.get channel) = inValue

theorem isIdentity_defaultCalibration : IsIdentity defaultCalibration := by
  refine ⟨?_, ?_⟩
  · intro inValue channel
    have hpos : defaultCalibration.channelPos.get channel.index = unitCoefficients :=
      Vector.getElem_replicate channel.index.isLt
    have hneg : defaultCalibration.channelNeg.get channel.index = unitCoefficients :=
      Vector.getElem_replicate channel.index.isLt
    unfold applyCalibration
    rw [hpos, hneg, ite_self, calibApplyCalibration_unitCoefficients]
    exact Int32.toInt32_toInt64 inValue
  · intro inValue channel
    have hcpu : defaultCalibration.cpuChannels.get channel = unitCoefficients :=
      Vector.getElem_replicate channel.isLt
    rw [hcpu]
    exact calibApplyCalibration_unitCoefficients inValue

/-- How `calib_init` ends on a device `d`, when reading the EEPROM returned `status`
and filled the buffer with `buffer`. -/
def EndsUsable (d d' : Device) (status : HalStatus) (buffer : List HalfWord) : Prop :=
  if status = .ok ∧ (CalibrationStorage.ofHalfWords buffer).checkCrc = true then
    ∃ loaded, calibInit.run d = .ok () loaded ∧
      calibGet loaded = Calibration.ofHalfWords buffer ∧ loaded.world = d.world
  else
    ∃ image : CalibrationStorage, image.buffer.length = calibrationLengthInHalfWord ∧
      calibInit.run d = (eepromWriteBuffer calibrationStart image.buffer).run
        { d' with calibrationStorage := image } ∧
      (∀ written, calibInit.run d = .ok () written → IsIdentity (calibGet written)) ∧
      ∀ next next', (eepromReadBuffer calibrationStart emptyBuffer).run next =
          .ok (.ok, image.buffer) next' →
        calibInit.run next = .ok () (loadedWith next' image.buffer) ∧
          calibGet (loadedWith next' image.buffer) = defaultCalibration

/-- `calib_init` ends with a usable calibration, whatever the read returned: that
of the image when it was read and its CRC matches, and else the identity, which it
writes as an image that the next `calib_init` accepts. -/
theorem endsUsable_of_read {d d' : Device} {status : HalStatus} {buffer : List HalfWord}
    (hread : (eepromReadBuffer calibrationStart emptyBuffer).run d = .ok (status, buffer) d') :
    EndsUsable d d' status buffer := by
  unfold EndsUsable
  split
  · rename_i haccept
    have hworld : d'.world = d.world := Moves.of_run moves_eepromReadBuffer hread
    refine ⟨loadedWith d' buffer, ?_, rfl, hworld⟩
    rw [run_calibInit_of_status hread, if_pos ⟨haccept.2, haccept.1⟩]
  · rename_i hreject
    have hinit := run_calibInit_of_rejected hread hreject
    refine ⟨fallbackImage buffer, CalibrationStorage.buffer_length _, hinit, ?_, ?_⟩
    · intro written hwritten
      rw [hinit] at hwritten
      have hsame : written.calibrationStorage = fallbackImage buffer :=
        Moves.of_run (moves_eepromWriteBuffer _ _) hwritten
      rw [calibGet, hsame]
      exact isIdentity_defaultCalibration
    · intro next next' hnext
      exact accepts_fallbackImage buffer hnext

/-- On the device whose first slot is used nothing is stored yet: reading fails, and
`calib_init` returns with the identity. -/
theorem endsUsable_secondSlotNext :
    ∃ d' buffer written, (eepromReadBuffer calibrationStart emptyBuffer).run
        (initialised secondSlotNext) = .ok (.error, buffer) d' ∧
      calibInit.run (initialised secondSlotNext) = .ok () written ∧
      IsIdentity (calibGet written) := by
  obtain ⟨-, hready, -⟩ := run_eepromInit secondSlotNext
  have hstart := initialised_of_inOrder inOrder_secondSlotNext
  have hnone : stored (initialised secondSlotNext).world.flash 0#16 = none := by
    rw [hstart]
    exact inOrder_secondSlotNext.stored_eq_none (Nat.le_refl 1) (by decide)
  obtain ⟨d', buffer, hread⟩ := read_of_missing hready hnone
  -- Storing the default then finds room.
  obtain ⟨hroom, -⟩ := inOrder_afterBoot inOrder_secondSlotNext Nat.one_pos (by decide)
  rcases run_boot secondSlotNext with ⟨-, hboot, -⟩ | ⟨hno, -⟩
  · have hcalib := (run_boot_eq secondSlotNext).symm.trans hboot
    have hends := endsUsable_of_read hread
    rw [EndsUsable, if_neg fun h => HalStatus.noConfusion h.1] at hends
    obtain ⟨image, -, -, hidentity, -⟩ := hends
    exact ⟨d', buffer, afterBoot secondSlotNext, hread, hcalib, hidentity _ hcalib⟩
  · exact absurd ((bootMeets_returnsOk_iff secondSlotNext).mpr hroom) hno

end WindradLogger.Adc
