import WindradLogger.Storage.Buffer

set_option autoImplicit false

/-!
# Loading and storing the calibration (`storage_calibration.c`)

The calibration lives in RAM as `calibration_storage` and in the EEPROM as the
first `0xA0` variables.  `calib_init` loads it and falls back to a default, which
it stores, when a variable is missing or the CRC does not match.
-/

namespace WindradLogger.Storage

open WindradLogger.Flash WindradLogger.Eeprom WindradLogger.Lib

/-- `STORAGE_EEPROM_CALIBRATION_START` -/
def calibrationStart : HalfWord := 0#16

/-- `calib_load` -/
def calibLoad : Dev HalStatus := do
  onWorld (assert (sizeofCalibrationStorage < calibrationLengthInHalfWord * 2))
  onWorld (assert (adcExternalValueCount * sizeofCalibrationCoefficients =
    extAdcValueCount * sizeofCalibrationCoefficients))
  let (result, buffer) ← eepromReadBuffer calibrationStart
    (List.replicate calibrationLengthInHalfWord 0#16)
  modify fun d => { d with calibrationStorage := .ofHalfWords buffer }
  return result

/-- `calib_store` -/
def calibStore (calibrationData : Calibration) : Dev Unit := do
  modify fun d => { d with
    calibrationStorage := { d.calibrationStorage with calibrationData := calibrationData } }
  modify fun d => { d with calibrationStorage := d.calibrationStorage.setCrc }
  eepromWriteBuffer calibrationStart (← get).calibrationStorage.buffer

/-- The coefficients of the identity. -/
def unitCoefficients : CalibrationCoefficients :=
  { c0Over65536 := 0#32, c1Over65536 := 65536#32, c2Over65536 := 0#32 }

/-- The calibration that `calib_load_default` stores. -/
def defaultCalibration : Calibration :=
  { channelPos := Vector.replicate adcExternalValueCount unitCoefficients
    channelNeg := Vector.replicate adcExternalValueCount unitCoefficients
    cpuChannels := Vector.replicate adcMcuValueCount unitCoefficients }

/-- `calib_load_default` -/
def calibLoadDefault : Dev Unit := calibStore defaultCalibration

/-- `calib_init` -/
def calibInit : Dev Unit := do
  let loadResult ← calibLoad
  if (← get).calibrationStorage.checkCrc && loadResult = .ok then
    return ()
  else calibLoadDefault

/-- `*calib_get()` -/
def calibGet (d : Device) : Calibration := d.calibrationStorage.calibrationData

/-- `calib_apply_calibration` -/
def calibApplyCalibration (inValue : Int32) (coeffs : CalibrationCoefficients) : Int32 :=
  let result : Int64 :=
    (Int32.ofBitVec coeffs.c0Over65536).toInt64 +
      (Int32.ofBitVec coeffs.c1Over65536).toInt64 * inValue.toInt64 +
      (Int32.ofBitVec coeffs.c2Over65536).toInt64 * inValue.toInt64 * inValue.toInt64
  (result / 65536).toInt32

/-! ## The range of the calibration -/

/-- The entry of the table for the range of the calibration. -/
def calibrationChunk : FoundStorageChunk :=
  { addressStart := calibrationStart
    addressEnd := calibrationStart + BitVec.ofNat 16 calibrationLengthInHalfWord
    valid := true }

/-- The table holds no range, or that of the calibration alone. -/
def OnlyCalibration (chunks : Vector FoundStorageChunk storageChunkSize) : Prop :=
  ∃ first rest, chunks.toList = first :: rest ∧ (∀ chunk ∈ rest, chunk.valid = false) ∧
    (first.valid = false ∨ first = calibrationChunk)

theorem overlapFound_unused {chunks : List FoundStorageChunk}
    (h : ∀ chunk ∈ chunks, chunk.valid = false) :
    overlapFound chunks = false ∧ ∀ a, clashesWithAny a chunks = false := by
  cases chunks with
  | nil => exact ⟨rfl, fun _ => rfl⟩
  | cons chunk rest =>
      have hvalid := h chunk List.mem_cons_self
      exact ⟨by simp [overlapFound, hvalid], fun a => by simp [clashesWithAny, hvalid]⟩

/-- The range of the calibration does not clash with itself. -/
theorem overlapFound_calibrationChunk {rest : List FoundStorageChunk}
    (h : ∀ chunk ∈ rest, chunk.valid = false) : overlapFound (calibrationChunk :: rest) = false := by
  obtain ⟨hnone, hany⟩ := overlapFound_unused h
  have hvalid : calibrationChunk.valid = true := rfl
  have hself : clash calibrationChunk calibrationChunk = false := by decide
  simp [overlapFound, clashesWithAny, hvalid, hself, hnone, hany]

/-- With no other range in the table the check passes, and leaves no other. -/
theorem run_checkForOverlaps {d : Device} (h : OnlyCalibration d.foundStorageChunks) :
    ∃ chunks, OnlyCalibration chunks ∧
      (checkForOverlaps calibrationStart (BitVec.ofNat 16 calibrationLengthInHalfWord)).run d =
        .ok () { d with foundStorageChunks := chunks } := by
  obtain ⟨first, rest, hlist, hrest, hfirst⟩ := h
  rcases hfirst with hunused | hknown
  · -- The table is empty: the range becomes its first entry.
    have hzero : 0 < storageChunkSize := by decide
    have hset : (d.foundStorageChunks.set 0 calibrationChunk hzero).toList =
        calibrationChunk :: rest := by
      rw [Vector.toList_set, hlist, List.set_cons_zero]
    have hscan : scanChunks calibrationStart
        (calibrationStart + BitVec.ofNat 16 calibrationLengthInHalfWord)
        d.foundStorageChunks.toList 0 = (0, false) := by
      rw [hlist]
      simp [scanChunks, hunused]
    have hpass := overlapFound_calibrationChunk hrest
    rw [← hset] at hpass
    refine ⟨_, ⟨calibrationChunk, rest, hset, hrest, Or.inr rfl⟩, ?_⟩
    have hassert : (onWorld (assert (!overlapFound
        (d.foundStorageChunks.set 0 calibrationChunk hzero).toList))).run
        { d with foundStorageChunks := d.foundStorageChunks.set 0 calibrationChunk hzero } =
        .ok () { d with foundStorageChunks := d.foundStorageChunks.set 0 calibrationChunk hzero } :=
      run_onWorld_ok (by rw [hpass]; rfl)
    simp only [checkForOverlaps, EStateM.run_bind, EStateM.run_get, hscan, Bool.not_false, if_true,
      dif_pos hzero, EStateM.run_modify]
    exact hassert
  · -- The range is known.
    subst hknown
    have hscan : (scanChunks calibrationStart
        (calibrationStart + BitVec.ofNat 16 calibrationLengthInHalfWord)
        d.foundStorageChunks.toList 0).2 = true := by
      rw [hlist]
      simp [scanChunks, calibrationChunk]
    have hpass := overlapFound_calibrationChunk hrest
    rw [← hlist] at hpass
    refine ⟨d.foundStorageChunks, ⟨calibrationChunk, rest, hlist, hrest, Or.inr rfl⟩, ?_⟩
    have hassert : (onWorld (assert (!overlapFound d.foundStorageChunks.toList))).run d =
        .ok () d := run_onWorld_ok (by rw [hpass]; rfl)
    simp only [checkForOverlaps, EStateM.run_bind, EStateM.run_get, hscan, Bool.not_true,
      Bool.false_eq_true, if_false, hassert]

theorem run_eepromWriteBuffer {d : Device} (h : OnlyCalibration d.foundStorageChunks)
    {data : List HalfWord} (hlen : data.length = calibrationLengthInHalfWord) :
    ∃ chunks, OnlyCalibration chunks ∧
      (eepromWriteBuffer calibrationStart data).run d =
        (onWorld (writeBufferLoop calibrationStart.toNat data)).run
          { d with foundStorageChunks := chunks } := by
  obtain ⟨chunks, hchunks, hcheck⟩ := run_checkForOverlaps h
  refine ⟨chunks, hchunks, ?_⟩
  simp only [eepromWriteBuffer, hlen, EStateM.run_bind, hcheck]

theorem run_eepromReadBuffer {d : Device} (h : OnlyCalibration d.foundStorageChunks)
    {data : List HalfWord} (hlen : data.length = calibrationLengthInHalfWord) :
    ∃ chunks, OnlyCalibration chunks ∧
      (eepromReadBuffer calibrationStart data).run d =
        (onWorld (readBufferLoop calibrationStart.toNat data)).run
          { d with foundStorageChunks := chunks } := by
  obtain ⟨chunks, hchunks, hcheck⟩ := run_checkForOverlaps h
  refine ⟨chunks, hchunks, ?_⟩
  simp only [eepromReadBuffer, hlen, EStateM.run_bind, hcheck]

/-! ## Storing -/

/-- A page can be read, the HAL works, and only the calibration uses the EEPROM. -/
structure Ready (d : Device) : Prop where
  started : Started d.world
  chunks : OnlyCalibration d.foundStorageChunks

/-- `calibration_storage` after `calib_store` has set the data and the CRC. -/
def storedImage (d : Device) (c : Calibration) : CalibrationStorage :=
  ({ d.calibrationStorage with calibrationData := c } : CalibrationStorage).setCrc

theorem calibrationRange (s : CalibrationStorage) :
    calibrationStart.toNat + s.buffer.length ≤ eepromSizeU16 := by
  rw [CalibrationStorage.buffer_length]
  decide

/-- The entries of the image that `calib_store` hands to the EEPROM. -/
def storeEntriesOf (d : Device) (c : Calibration) : List Write :=
  entries calibrationStart.toNat (storedImage d c).buffer (calibrationRange _)

/-- Every write that storing `c` issues meets `P`. -/
def StoreMeets (P : World → Write → Prop) (d : Device) (c : Calibration) : Prop :=
  EachStep storeEntry (OnWrites P) d.world (storeEntriesOf d c)

/-- The device after `calib_store`. -/
def afterStore (d : Device) (c : Calibration) : Device := finalState ((calibStore c).run d)

/-- `calib_store` returns exactly when no write is refused. -/
theorem run_calibStore {d : Device} (h : Ready d) (c : Calibration) :
    (StoreMeets ReturnsOk d c ∧ (calibStore c).run d = .ok () (afterStore d c) ∧
        Ready (afterStore d c) ∧
        (afterStore d c).world = storeEntries d.world (storeEntriesOf d c) ∧
        (afterStore d c).calibrationStorage = storedImage d c) ∨
      ¬ StoreMeets ReturnsOk d c ∧ ∃ d', (calibStore c).run d = .error .assertFailed d' := by
  obtain ⟨chunks, hchunks, hbuffer⟩ := run_eepromWriteBuffer
    (d := { d with calibrationStorage := storedImage d c }) h.chunks
    (CalibrationStorage.buffer_length (storedImage d c))
  have hrun : (calibStore c).run d =
      (onWorld (writeBufferLoop calibrationStart.toNat (storedImage d c).buffer)).run
        { d with foundStorageChunks := chunks, calibrationStorage := storedImage d c } := hbuffer
  rcases run_writeBufferLoop (storedImage d c).buffer (calibrationRange _) h.started with
    ⟨hmeets, hloop⟩ | ⟨hmeets, w', hloop⟩
  · have hok := run_onWorld_ok (d := { d with
      foundStorageChunks := chunks, calibrationStorage := storedImage d c }) hloop
    rw [← hrun] at hok
    have hafter : afterStore d c = { world := storeEntries d.world (storeEntriesOf d c)
                                     foundStorageChunks := chunks
                                     calibrationStorage := storedImage d c } := by
      rw [afterStore, hok, finalState_ok]
      rfl
    refine Or.inl ⟨hmeets, ?_, ?_, ?_, ?_⟩
    · rw [hafter]
      exact hok
    · rw [hafter]
      exact ⟨started_storeEntries h.started _, hchunks⟩
    · rw [hafter]
    · rw [hafter]
  · have herror := run_onWorld_error (d := { d with
      foundStorageChunks := chunks, calibrationStorage := storedImage d c }) hloop
    rw [← hrun] at herror
    exact Or.inr ⟨hmeets, _, herror⟩

/-! ## Loading -/

/-- The buffer that `calib_load` passes to `eeprom_read_buffer`. -/
abbrev emptyBuffer : List HalfWord := List.replicate calibrationLengthInHalfWord 0#16

theorem emptyBuffer_length : emptyBuffer.length = calibrationLengthInHalfWord :=
  List.length_replicate

theorem emptyBuffer_range : calibrationStart.toNat + emptyBuffer.length ≤ eepromSizeU16 := by
  rw [emptyBuffer_length]
  decide

/-- The device after `calib_load`. -/
def afterLoad (d : Device) : Device := finalState (calibLoad.run d)

/-- The asserts of `calib_load` hold, and what was read goes to RAM. -/
theorem run_calibLoad_of_read {d d' : Device} {status : HalStatus} {buffer : List HalfWord}
    (hread : (eepromReadBuffer calibrationStart emptyBuffer).run d = .ok (status, buffer) d') :
    calibLoad.run d = .ok status { d' with calibrationStorage := .ofHalfWords buffer } := by
  have hsize : (onWorld (assert (sizeofCalibrationStorage < calibrationLengthInHalfWord * 2))).run
      d = .ok () d := run_onWorld_ok (run_assert_true d.world)
  have hcount : (onWorld (assert (adcExternalValueCount * sizeofCalibrationCoefficients =
      extAdcValueCount * sizeofCalibrationCoefficients))).run d = .ok () d :=
    run_onWorld_ok (run_assert_true d.world)
  simp only [calibLoad, EStateM.run_bind, hsize, hcount, hread, EStateM.run_modify,
    EStateM.run_pure]

/-- What the reading loop returns, `calib_load` puts into RAM. -/
theorem run_calibLoad_of_loop {d : Device} (h : Ready d) {status : HalStatus}
    {buffer : List HalfWord}
    (hloop : (readBufferLoop calibrationStart.toNat emptyBuffer).run d.world =
      .ok (status, buffer) d.world) :
    calibLoad.run d = .ok status (afterLoad d) ∧ Ready (afterLoad d) ∧
      (afterLoad d).world = d.world ∧
      (afterLoad d).calibrationStorage = CalibrationStorage.ofHalfWords buffer := by
  obtain ⟨chunks, hchunks, hread⟩ := run_eepromReadBuffer h.chunks emptyBuffer_length
  have hok := run_onWorld_ok (d := { d with foundStorageChunks := chunks }) hloop
  rw [← hread] at hok
  have hrun := run_calibLoad_of_read hok
  have hafter : afterLoad d = { world := d.world, foundStorageChunks := chunks
                                calibrationStorage := CalibrationStorage.ofHalfWords buffer } := by
    rw [afterLoad, hrun, finalState_ok]
  rw [hafter]
  exact ⟨hrun, ⟨h.started, hchunks⟩, rfl, rfl⟩

theorem run_calibLoad {d : Device} (h : Ready d) :
    ∃ status, calibLoad.run d = .ok status (afterLoad d) ∧ Ready (afterLoad d) ∧
      (afterLoad d).world = d.world := by
  obtain ⟨⟨status, buffer⟩, hloop⟩ := run_readBufferLoop emptyBuffer d.world emptyBuffer_range
  obtain ⟨hrun, hready, hworld, -⟩ := run_calibLoad_of_loop h hloop
  exact ⟨status, hrun, hready, hworld⟩

/-- `calib_load` succeeds and the CRC matches. -/
def Loads (d : Device) : Prop :=
  calibLoad.run d = .ok .ok (afterLoad d) ∧ (afterLoad d).calibrationStorage.checkCrc = true

/-- An image that was stored with its CRC loads when all its entries are found. -/
theorem loads_of_found {d : Device} (h : Ready d) (s : CalibrationStorage)
    (hfound : ∀ entry ∈ entries calibrationStart.toNat s.setCrc.buffer (calibrationRange _),
      readVariable d.world.flash entry.1 0xFFFF#16 = (0#16, entry.2)) :
    Loads d ∧ (afterLoad d).calibrationStorage = s.setCrc := by
  have hlen : emptyBuffer.length = s.setCrc.buffer.length := by
    rw [emptyBuffer_length, CalibrationStorage.buffer_length]
  have hloop := run_readBufferLoop_of_found s.setCrc.buffer emptyBuffer (calibrationRange _) hlen
    hfound
  obtain ⟨hrun, -, -, hstorage⟩ := run_calibLoad_of_loop h hloop
  rw [CalibrationStorage.ofHalfWords_buffer] at hstorage
  refine ⟨⟨hrun, ?_⟩, hstorage⟩
  rw [hstorage]
  exact checkCrc_setCrc s

/-- A missing variable keeps the calibration from loading. -/
theorem not_loads_of_missing {d : Device} (h : Ready d) {k : Nat}
    (hk : k < calibrationLengthInHalfWord)
    (hnone : stored d.world.flash (BitVec.ofNat 16 k) = none) : ¬ Loads d := by
  have hk' : k < emptyBuffer.length := by rwa [emptyBuffer_length]
  have hnone' : stored d.world.flash (BitVec.ofNat 16 (calibrationStart.toNat + k)) = none := by
    have hzero : calibrationStart.toNat = 0 := rfl
    rwa [hzero, Nat.zero_add]
  obtain ⟨buffer, hloop⟩ :=
    run_readBufferLoop_of_missing emptyBuffer h.started emptyBuffer_range hk' hnone'
  obtain ⟨hrun, -⟩ := run_calibLoad_of_loop h hloop
  rintro ⟨hok, -⟩
  rw [hrun] at hok
  cases (EStateM.Result.ok.inj hok).1

/-- `calib_init` keeps what loads and stores the default otherwise. -/
theorem run_calibInit {d : Device} (h : Ready d) :
    Loads d ∧ calibInit.run d = .ok () (afterLoad d) ∨
      ¬ Loads d ∧ calibInit.run d = (calibStore defaultCalibration).run (afterLoad d) := by
  obtain ⟨status, hrun, -, -⟩ := run_calibLoad h
  simp only [calibInit, calibLoadDefault, EStateM.run_bind, hrun, EStateM.run_get]
  split
  · rename_i haccept
    rw [Bool.and_eq_true, decide_eq_true_iff] at haccept
    rw [haccept.2] at hrun
    exact Or.inl ⟨⟨hrun, haccept.1⟩, rfl⟩
  · rename_i hreject
    refine Or.inr ⟨?_, rfl⟩
    rintro ⟨hok, hcrc⟩
    rw [hrun] at hok
    apply hreject
    rw [hcrc, (EStateM.Result.ok.inj hok).1]
    rfl

end WindradLogger.Storage
