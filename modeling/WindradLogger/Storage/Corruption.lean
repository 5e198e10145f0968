import WindradLogger.Storage.Crc
import WindradLogger.Storage.Reboot

set_option autoImplicit false

/-!
# Damaged images (`storage_calibration.c`)

The image is 158 half-words of `calibration_storage` and two of filler.  The CRC
covers the calibration and the padding; its own field is compared with the
result, and the filler is not looked at.  A loaded image with one wrong half-word
is therefore rejected, unless the half-word belongs to the filler, and then the
calibration is the one that was stored.
-/

namespace WindradLogger.Storage

open WindradLogger.Flash WindradLogger.Eeprom WindradLogger.Lib

/-! ## Checking the CRC -/

/-- `calib_check_crc`, which clears the CRC field while it computes -/
def calibCheckCrc : StateM CalibrationStorage Bool := do
  let takenCrc := (← get).crc16
  modify fun s => { s with crc16 := 0#16 }
  let buffer := (← get).buffer
  let calcedCrc := calcCrc (bytesOf buffer) sizeofCalibrationStorage
  modify fun s => { s with crc16 := takenCrc }
  return calcedCrc = takenCrc

/-- The check leaves `calibration_storage` as it was. -/
theorem run_calibCheckCrc (s : CalibrationStorage) : calibCheckCrc.run s = (s.checkCrc, s) := rfl

/-- The half-words that the CRC covers, as they stand in an image. -/
def checkedHalfWords (buffer : List HalfWord) : List HalfWord :=
  buffer.take 156 ++ [0#16, buffer.getD 157 0#16]

/-- The CRC of an image that was loaded. -/
theorem calcedCrc_ofHalfWords {buffer : List HalfWord} (h : 156 ≤ buffer.length) :
    (CalibrationStorage.ofHalfWords buffer).calcedCrc =
      (bytesOf (checkedHalfWords buffer)).foldl crcStep 0x1021#16 := by
  have hbuffer : ({ CalibrationStorage.ofHalfWords buffer with crc16 := 0#16 } :
      CalibrationStorage).buffer = checkedHalfWords buffer ++ List.replicate 2 0#16 := by
    simp only [CalibrationStorage.buffer, CalibrationStorage.halfWords,
      CalibrationStorage.ofHalfWords, Calibration.halfWords_ofHalfWords h, checkedHalfWords]
    rfl
  have hlen : (bytesOf (checkedHalfWords buffer)).length = sizeofCalibrationStorage := by
    rw [bytesOf_length, checkedHalfWords, List.length_append, List.length_take, Nat.min_eq_left h]
    rfl
  rw [CalibrationStorage.calcedCrc, hbuffer, calcCrc, bytesOf_append, ← hlen, List.take_left]

/-- An image passes the check exactly when its CRC field holds the CRC of the
rest. -/
theorem checkCrc_ofHalfWords_iff {buffer : List HalfWord} (h : 156 ≤ buffer.length) :
    (CalibrationStorage.ofHalfWords buffer).checkCrc = true ↔
      (bytesOf (checkedHalfWords buffer)).foldl crcStep 0x1021#16 = buffer.getD 156 0#16 := by
  rw [CalibrationStorage.checkCrc, decide_eq_true_iff, calcedCrc_ofHalfWords h]
  rfl

/-- A changed half-word of the checked part gives the rest another CRC. -/
theorem crc_set_ne {data : List HalfWord} {i : Nat} (hi : i < data.length) {value : HalfWord}
    (hne : value ≠ data[i]) (crc : HalfWord) :
    (bytesOf (data.set i value)).foldl crcStep crc ≠ (bytesOf data).foldl crcStep crc := by
  have hold : data = data.take i ++ ([data[i]] ++ data.drop (i + 1)) := by
    rw [List.singleton_append, ← List.drop_eq_getElem_cons hi, List.take_append_drop]
  have hnew : data.set i value = data.take i ++ ([value] ++ data.drop (i + 1)) := by
    rw [List.set_eq_take_append_cons_drop, if_pos hi, List.singleton_append]
  rw [hnew]
  conv_rhs => rw [hold]
  exact foldl_crcStep_ne crc _ _ hne

/-! ## One wrong half-word -/

/-- Damage outside the CRC field changes the checked half-words. -/
theorem crc_checkedHalfWords_set_ne {buffer : List HalfWord} (hlen : 158 ≤ buffer.length) {i : Nat}
    (hi : i < 158) (hfield : i ≠ 156) {value : HalfWord} (hne : value ≠ buffer[i])
    (crc : HalfWord) :
    (bytesOf (checkedHalfWords (buffer.set i value))).foldl crcStep crc ≠
      (bytesOf (checkedHalfWords buffer)).foldl crcStep crc := by
  have hchecked : (checkedHalfWords buffer).length = 158 := by
    rw [checkedHalfWords, List.length_append, List.length_take, Nat.min_eq_left (by omega)]
    rfl
  have hset : checkedHalfWords (buffer.set i value) = (checkedHalfWords buffer).set i value := by
    unfold checkedHalfWords
    rcases Nat.lt_or_ge i 156 with hdata | hpadding
    · have hother : i ≠ 157 := by omega
      have htake : i < (buffer.take 156).length := by
        rw [List.length_take]
        omega
      rw [List.take_set, List.getD_eq_getElem?_getD, List.getElem?_set_ne hother,
        List.set_append_left i value htake, List.getD_eq_getElem?_getD]
    · have hlast : i = 157 := by omega
      subst hlast
      have htake : (buffer.take 156).length = 156 := by
        rw [List.length_take, Nat.min_eq_left (by omega)]
      rw [List.take_set, List.set_eq_of_length_le (by rw [htake]; decide),
        List.getD_eq_getElem?_getD, List.getElem?_set_self (by omega),
        List.set_append_right 157 value (by rw [htake]; decide), htake]
      rfl
  have helem : (checkedHalfWords buffer)[i] = buffer[i] := by
    unfold checkedHalfWords
    rcases Nat.lt_or_ge i 156 with hdata | hpadding
    · rw [List.getElem_append_left (by rw [List.length_take]; omega), List.getElem_take]
    · have hlast : i = 157 := by omega
      subst hlast
      have htake : (buffer.take 156).length = 156 := by
        rw [List.length_take, Nat.min_eq_left (by omega)]
      have hlt : 157 < buffer.length := by omega
      rw [List.getElem_append_right (by rw [htake]; decide)]
      simp only [htake, List.getD_eq_getElem?_getD, List.getElem?_eq_getElem hlt]
      rfl
  rw [hset]
  exact crc_set_ne (by omega) (by rw [helem]; exact hne) crc

/-- Filler that differs does not reach `calibration_storage`. -/
theorem ofHalfWords_set_filler (s : CalibrationStorage) {i : Nat} (hi : 158 ≤ i)
    (value : HalfWord) :
    CalibrationStorage.ofHalfWords (s.buffer.set i value) = s := by
  have hlen : s.halfWords.length ≤ i := by
    rw [CalibrationStorage.halfWords, List.length_append, Calibration.halfWords_length]
    exact hi
  rw [CalibrationStorage.buffer, List.set_append_right i value hlen]
  exact CalibrationStorage.ofHalfWords_halfWords s _

/-- A stored image with another half-word in the checked part or in the CRC field
fails the check. -/
theorem not_checkCrc_set (s : CalibrationStorage) {i : Nat} (hi : i < 158)
    (hlen : i < s.setCrc.buffer.length) {value : HalfWord} (hne : value ≠ s.setCrc.buffer[i]) :
    ¬ (CalibrationStorage.ofHalfWords (s.setCrc.buffer.set i value)).checkCrc = true := by
  have hsize : s.setCrc.buffer.length = 160 := CalibrationStorage.buffer_length _
  have hstored := checkCrc_setCrc s
  rw [← CalibrationStorage.ofHalfWords_buffer s.setCrc, checkCrc_ofHalfWords_iff (by omega)]
    at hstored
  rw [checkCrc_ofHalfWords_iff (by rw [List.length_set]; omega)]
  generalize s.setCrc.buffer = buffer at *
  rcases eq_or_ne i 156 with hfield | hfield
  · -- The CRC field: the rest is as it was.
    subst hfield
    have hrest : checkedHalfWords (buffer.set 156 value) = checkedHalfWords buffer := by
      rw [checkedHalfWords, List.take_set_of_le (Nat.le_refl 156), List.getD_eq_getElem?_getD,
        List.getElem?_set_ne (by decide), checkedHalfWords, List.getD_eq_getElem?_getD]
    rw [hrest, hstored, List.getD_eq_getElem?_getD, List.getD_eq_getElem?_getD,
      List.getElem?_set_self hlen, List.getElem?_eq_getElem hlen]
    exact fun h => hne h.symm
  · rw [List.getD_eq_getElem?_getD, List.getElem?_set_ne hfield, ← List.getD_eq_getElem?_getD,
      ← hstored]
    exact crc_checkedHalfWords_set_ne (by omega) hi hfield hne _

/-! ## Loading an image -/

/-- The device after `calib_load` has put the half-words of a buffer into
`calibration_storage`. -/
def loadedWith (d : Device) (buffer : List HalfWord) : Device :=
  { d with calibrationStorage := .ofHalfWords buffer }

/-- `calib_init` after a read, whatever it returned. -/
theorem run_calibInit_of_status {d d' : Device} {status : HalStatus} {buffer : List HalfWord}
    (hread : (eepromReadBuffer calibrationStart emptyBuffer).run d = .ok (status, buffer) d') :
    calibInit.run d =
      if (CalibrationStorage.ofHalfWords buffer).checkCrc = true ∧ status = .ok then
        .ok () (loadedWith d' buffer)
      else calibLoadDefault.run (loadedWith d' buffer) := by
  simp only [calibInit, EStateM.run_bind, run_calibLoad_of_read hread, EStateM.run_get,
    Bool.and_eq_true, decide_eq_true_iff]
  split
  · rw [EStateM.run_pure]
    rfl
  · rfl

/-- `calib_init` after a read with `HAL_OK`. -/
theorem run_calibInit_of_read {d d' : Device} {buffer : List HalfWord}
    (hread : (eepromReadBuffer calibrationStart emptyBuffer).run d = .ok (.ok, buffer) d') :
    calibInit.run d =
      if (CalibrationStorage.ofHalfWords buffer).checkCrc = true then
        .ok () (loadedWith d' buffer)
      else calibLoadDefault.run (loadedWith d' buffer) := by
  rw [run_calibInit_of_status hread]
  simp only [and_true]

/-- `calib_init` keeps the loaded image, and it holds `c`. -/
def Accepts (d d' : Device) (buffer : List HalfWord) (c : Calibration) : Prop :=
  calibInit.run d = .ok () (loadedWith d' buffer) ∧ calibGet (loadedWith d' buffer) = c

/-- `calib_init` loads the default instead. -/
def Rejects (d d' : Device) (buffer : List HalfWord) : Prop :=
  calibInit.run d = calibLoadDefault.run (loadedWith d' buffer)

/-- A calibration whose store landed in sight is read back. -/
theorem read_of_stored {d : Device} (hd : Ready d) {c : Calibration}
    (h : StoreLandsInSight d c) :
    ∃ d', (eepromReadBuffer calibrationStart emptyBuffer).run (afterStore d c) =
      .ok (.ok, (storedImage d c).buffer) d' := by
  rcases run_calibStore hd c with ⟨-, -, hready, hworld, -⟩ | ⟨hno, -⟩
  · obtain ⟨chunks, -, hread⟩ := run_eepromReadBuffer hready.chunks emptyBuffer_length
    have hlen : emptyBuffer.length = (storedImage d c).buffer.length := by
      rw [emptyBuffer_length, CalibrationStorage.buffer_length]
    have hfound := found_afterStore hd h
    rw [← hworld] at hfound
    have hloop := run_readBufferLoop_of_found (storedImage d c).buffer emptyBuffer
      (calibrationRange _) hlen hfound
    rw [hread]
    exact ⟨_, run_onWorld_ok (d := { afterStore d c with foundStorageChunks := chunks }) hloop⟩
  · exact absurd (storeMeets_returnsOk_of_inSight hd h) hno

/-- `calib_store` hands over an image of 160 half-words.  Read back as it is, it is
accepted and holds the calibration; with one wrong half-word it is rejected when
that is one of the first 158, and otherwise still holds the calibration.  The
check of the CRC changes nothing. -/
theorem calibInit_of_image (before : Device) (c : Calibration) {d d' : Device}
    {buffer : List HalfWord}
    (hread : (eepromReadBuffer calibrationStart emptyBuffer).run d = .ok (.ok, buffer) d') :
    (calibStore c).run before =
        (eepromWriteBuffer calibrationStart (storedImage before c).buffer).run
          { before with calibrationStorage := storedImage before c } ∧
      (buffer = (storedImage before c).buffer → Accepts d d' buffer c) ∧
      (∀ (i : Nat) (value : HalfWord) (hi : i < (storedImage before c).buffer.length),
        value ≠ (storedImage before c).buffer[i] →
        buffer = (storedImage before c).buffer.set i value →
        if i < 158 then Rejects d d' buffer else Accepts d d' buffer c) ∧
      ∀ s : CalibrationStorage, calibCheckCrc.run s = (s.checkCrc, s) := by
  have hinit := run_calibInit_of_read hread
  -- An image that still reads back as the stored one is accepted.
  have haccept : CalibrationStorage.ofHalfWords buffer = storedImage before c →
      Accepts d d' buffer c := by
    intro himage
    rw [himage, storedImage, checkCrc_setCrc, if_pos rfl] at hinit
    refine ⟨hinit, ?_⟩
    rw [calibGet, loadedWith, himage]
    rfl
  refine ⟨rfl, ?_, ?_, run_calibCheckCrc⟩
  · intro hbuffer
    exact haccept (by rw [hbuffer, CalibrationStorage.ofHalfWords_buffer])
  · intro i value hi hne hbuffer
    split
    · rename_i hcovered
      have hfails := not_checkCrc_set { before.calibrationStorage with calibrationData := c }
        hcovered hi hne
      rw [hbuffer, storedImage, if_neg hfails] at hinit
      rw [Rejects, hbuffer, storedImage]
      exact hinit
    · rename_i hfiller
      exact haccept (by rw [hbuffer, ofHalfWords_set_filler _ (Nat.le_of_not_lt hfiller)])

/-- What is stored on the device whose first slot is used is read back and
accepted. -/
theorem calibInit_of_image_secondSlotNext :
    ∃ d d', Accepts d d'
      (storedImage (afterBoot secondSlotNext) clearedStorage.calibrationData).buffer
      clearedStorage.calibrationData := by
  have hlength : calibrationLengthInHalfWord = 160 := rfl
  have hstatus : statusSlot = 4095 := rfl
  obtain ⟨hboot, hready, n, hle, hle', hinOrder⟩ :=
    inOrder_afterBoot inOrder_secondSlotNext Nat.one_pos (by omega)
  obtain ⟨hsight, hroom, hready', -⟩ :=
    inOrder_afterStore hready hinOrder (by omega) (by omega) clearedStorage.calibrationData
  obtain ⟨d', hread⟩ := read_of_stored hready hsight
  exact ⟨_, d', (calibInit_of_image (afterBoot secondSlotNext) clearedStorage.calibrationData
    hread).2.1 rfl⟩

end WindradLogger.Storage
