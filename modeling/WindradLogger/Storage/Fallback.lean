import WindradLogger.Lib.Effects
import WindradLogger.Storage.Arithmetic
import WindradLogger.Storage.Corruption
import WindradLogger.Storage.Overlaps

set_option autoImplicit false

/-!
# The calibration in RAM (`storage_calibration.c`)

Whatever happens in the EEPROM, the calibration in RAM is the one that was stored
or loaded last.  After a read that failed or an image whose CRC does not match it
is the default, and the default is the identity.
-/

namespace WindradLogger.Storage

open WindradLogger.Flash WindradLogger.Eeprom WindradLogger.Lib

/-! ## What does not touch it -/

/-- `check_for_overlaps` changes no more than the list of the accesses so far. -/
theorem moves_checkForOverlaps {R : Device → Device → Prop} [Std.Refl R]
    (h : ∀ d chunks, R d { d with foundStorageChunks := chunks }) (startAddress size : HalfWord) :
    Moves R (checkForOverlaps startAddress size) := by
  intro d
  rw [run_checkForOverlaps_eq]
  split
  · exact refl d
  · split
    · exact h d _
    · exact h d _

/-- `calibration_storage` is as it was. -/
def SameStorage (d d' : Device) : Prop := d'.calibrationStorage = d.calibrationStorage

instance : Std.Refl SameStorage := ⟨fun _ => rfl⟩

instance : IsTrans Device SameStorage := ⟨fun _ _ _ h h' => Eq.trans h' h⟩

theorem moves_onWorld {α : Type} (m : Mcu α) : Moves SameStorage (onWorld m) := by
  intro d
  simp only [EStateM.run, onWorld]
  split
  · rfl
  · rfl

/-- `eeprom_write_buffer` does not change it, whether it succeeds or not. -/
theorem moves_eepromWriteBuffer (address : HalfWord) (data : List HalfWord) :
    Moves SameStorage (eepromWriteBuffer address data) := by
  refine Moves.bind ?_ fun _ => moves_onWorld _
  exact moves_checkForOverlaps (fun _ _ => rfl) _ _

/-! ## What does not write -/

/-- Flash and HAL are as they were. -/
def SameWorld (d d' : Device) : Prop := d'.world = d.world

instance : Std.Refl SameWorld := ⟨fun _ => rfl⟩

instance : IsTrans Device SameWorld := ⟨fun _ _ _ h h' => Eq.trans h' h⟩

/-- Reading the calibration writes nothing. -/
theorem moves_eepromReadBuffer :
    Moves SameWorld (eepromReadBuffer calibrationStart emptyBuffer) := by
  refine Moves.bind ?_ fun _ => ?_
  · exact moves_checkForOverlaps (fun _ _ => rfl) _ _
  · intro d
    obtain ⟨found, hloop⟩ := run_readBufferLoop emptyBuffer d.world emptyBuffer_range
    rw [run_onWorld_ok hloop]
    rfl

/-- When its first variable is missing, reading it fails. -/
theorem read_of_missing {d : Device} (h : Ready d) (hnone : stored d.world.flash 0#16 = none) :
    ∃ d' buffer, (eepromReadBuffer calibrationStart emptyBuffer).run d =
      .ok (.error, buffer) d' := by
  have hpos : 0 < emptyBuffer.length := by
    rw [emptyBuffer_length]
    decide
  have haddress : BitVec.ofNat 16 (calibrationStart.toNat + 0) = 0#16 := rfl
  rw [← haddress] at hnone
  obtain ⟨chunks, -, hread⟩ := run_eepromReadBuffer h.chunks emptyBuffer_length
  obtain ⟨buffer, hloop⟩ :=
    run_readBufferLoop_of_missing emptyBuffer h.started emptyBuffer_range hpos hnone
  have hok := run_onWorld_ok (d := { d with foundStorageChunks := chunks }) hloop
  rw [← hread] at hok
  exact ⟨_, buffer, hok⟩

/-! ## Storing -/

/-- `set_calibration_data` -/
def setCalibrationData (calibrationDataIn : Calibration) : Dev Unit := do
  onWorld (assert (adcExternalValueCount * sizeofCalibrationCoefficients =
    extAdcValueCount * sizeofCalibrationCoefficients))
  calibStore calibrationDataIn

theorem run_calibStore_eq (d : Device) (c : Calibration) :
    (calibStore c).run d = (eepromWriteBuffer calibrationStart (storedImage d c).buffer).run
      { d with calibrationStorage := storedImage d c } := rfl

/-- What is stored is in RAM afterwards, also when the EEPROM refuses it. -/
theorem calibGet_calibStore (d : Device) (c : Calibration) :
    calibGet (finalState ((calibStore c).run d)) = c := by
  rw [run_calibStore_eq, calibGet, moves_eepromWriteBuffer _ _ _]
  rfl

/-- A client can set any coefficients. -/
theorem calibGet_setCalibrationData (d : Device) (c : Calibration) :
    calibGet (finalState ((setCalibrationData c).run d)) = c := by
  have hassert : (onWorld (assert (adcExternalValueCount * sizeofCalibrationCoefficients =
      extAdcValueCount * sizeofCalibrationCoefficients))).run d = .ok () d :=
    run_onWorld_ok (run_assert_true d.world)
  rw [setCalibrationData, EStateM.run_bind, hassert]
  exact calibGet_calibStore d c

/-! ## The default -/

/-- The default coefficients leave every value as it is. -/
theorem calibApplyCalibration_unitCoefficients (inValue : Int32) :
    calibApplyCalibration inValue unitCoefficients = inValue := by
  have hlower := inValue.le_toInt
  have hupper := inValue.toInt_lt
  have hproduct : ((65536 : Int64) * inValue.toInt64).toInt = 65536 * inValue.toInt := by
    have hfactor : (65536 : Int64).toInt = 65536 := rfl
    rw [Int64.toInt_mul, Int32.toInt_toInt64, hfactor]
    exact Int.bmod_eq_of_le (by omega) (by omega)
  have hsum : (0 : Int64) + 65536 * inValue.toInt64 + 0 * inValue.toInt64 * inValue.toInt64 =
      65536 * inValue.toInt64 := by
    rw [Int64.zero_mul, Int64.zero_mul, Int64.zero_add, Int64.add_zero]
  have hquotient : ((65536 * inValue.toInt64) / 65536).toInt = inValue.toInt := by
    rw [Int64.toInt_div, hproduct]
    exact (congrArg (Int.bmod · (2 ^ 64)) (Int.mul_tdiv_cancel_left _ (by decide))).trans
      (Int.bmod_eq_of_le (by omega) (by omega))
  change (((0 : Int64) + 65536 * inValue.toInt64 + 0 * inValue.toInt64 * inValue.toInt64) /
    65536).toInt32 = inValue
  rw [hsum, ← Int32.toInt_inj, Int64.toInt_toInt32, hquotient]
  exact Int.bmod_eq_of_le (by omega) (by omega)

/-- `calibration_storage` after `calib_load_default`, when `buffer` was read. -/
def fallbackImage (buffer : List HalfWord) : CalibrationStorage :=
  ({ CalibrationStorage.ofHalfWords buffer with calibrationData := defaultCalibration } :
    CalibrationStorage).setCrc

/-- When the image is not accepted, `calib_init` goes on to write the default. -/
theorem run_calibInit_of_rejected {d d' : Device} {status : HalStatus} {buffer : List HalfWord}
    (hread : (eepromReadBuffer calibrationStart emptyBuffer).run d = .ok (status, buffer) d')
    (hreject : ¬ (status = .ok ∧ (CalibrationStorage.ofHalfWords buffer).checkCrc = true)) :
    calibInit.run d =
      (eepromWriteBuffer calibrationStart (fallbackImage buffer).buffer).run
        { d' with calibrationStorage := fallbackImage buffer } := by
  rw [run_calibInit_of_status hread, if_neg fun h => hreject ⟨h.2, h.1⟩]
  exact run_calibStore_eq (loadedWith d' buffer) defaultCalibration

/-- The image that is written then is accepted when it is read. -/
theorem accepts_fallbackImage (buffer : List HalfWord) {d d' : Device}
    (hread : (eepromReadBuffer calibrationStart emptyBuffer).run d =
      .ok (.ok, (fallbackImage buffer).buffer) d') :
    Accepts d d' (fallbackImage buffer).buffer defaultCalibration := by
  have hcrc : (CalibrationStorage.ofHalfWords (fallbackImage buffer).buffer).checkCrc = true := by
    rw [CalibrationStorage.ofHalfWords_buffer]
    exact checkCrc_setCrc _
  refine ⟨?_, ?_⟩
  · rw [run_calibInit_of_read hread, if_pos hcrc]
  · rw [calibGet, loadedWith, CalibrationStorage.ofHalfWords_buffer]
    rfl

end WindradLogger.Storage
