import WindradLogger.Storage.Image
import WindradLogger.Eeprom.KeyValue

set_option autoImplicit false

/-!
# Buffers in the EEPROM (`eeprom_storage.c`)

`eeprom_write_buffer` and `eeprom_read_buffer` move consecutive half-words to and
from consecutive virtual addresses, after `check_for_overlaps` has entered the
range in a table in RAM.  A half-word that reads back as it should is not written
again.  Unlocking and locking flash has no effect on its content and is left out.

The buffer writer is a run over the entries of the buffer.  A run whose writes
land in sight leaves every entry readable.
-/

namespace WindradLogger.Storage

open WindradLogger.Flash WindradLogger.Eeprom WindradLogger.Lib

/-! ## The device -/

/-- `STORAGE_CHUNK_SIZE` -/
def storageChunkSize : Nat := 16

/-- `found_storage_chunk_t` -/
structure FoundStorageChunk where
  addressStart : HalfWord
  addressEnd : HalfWord
  valid : Bool
  deriving DecidableEq, Repr, Inhabited

/-- Flash and HAL, and the static variables of the two storage files. -/
structure Device where
  world : World
  foundStorageChunks : Vector FoundStorageChunk storageChunkSize
  calibrationStorage : CalibrationStorage

/-- Code that also uses these variables. -/
abbrev Dev (α : Type) : Type := EStateM Halt Device α

/-- Code of the EEPROM emulation, which does not touch them. -/
def onWorld {α : Type} (m : Mcu α) : Dev α := fun d =>
  match m.run d.world with
  | .ok a w => .ok a { d with world := w }
  | .error e w => .error e { d with world := w }

theorem run_onWorld_ok {α : Type} {m : Mcu α} {d : Device} {a : α} {w : World}
    (h : m.run d.world = .ok a w) : (onWorld m).run d = .ok a { d with world := w } := by
  simp only [EStateM.run, onWorld] at h ⊢
  rw [h]

theorem run_onWorld_error {α : Type} {m : Mcu α} {d : Device} {e : Halt} {w : World}
    (h : m.run d.world = .error e w) : (onWorld m).run d = .error e { d with world := w } := by
  simp only [EStateM.run, onWorld] at h ⊢
  rw [h]

/-! ## The table of ranges -/

/-- The first loop of `check_for_overlaps`, from index `i` on: the last index it
reaches, and whether it met the range. -/
def scanChunks (startAddress endAddress : HalfWord) : List FoundStorageChunk → Nat → Nat × Bool
  | [], i => (i - 1, false)
  | chunk :: rest, i =>
      if chunk.valid then
        let (lastChunk, known) := scanChunks startAddress endAddress rest (i + 1)
        (lastChunk, chunk.addressStart = startAddress ∧ chunk.addressEnd = endAddress ∨ known)
      else (i, false)

/-- The condition under which the second loop finds an overlap of two ranges. -/
def clash (a b : FoundStorageChunk) : Bool :=
  (a.addressStart > b.addressStart ∧ b.addressStart > a.addressEnd) ∨
    (a.addressStart > b.addressEnd ∧ b.addressEnd > a.addressEnd)

/-- The inner loop over `n`. -/
def clashesWithAny (a : FoundStorageChunk) : List FoundStorageChunk → Bool
  | [] => false
  | chunk :: rest => if chunk.valid then clash a chunk || clashesWithAny a rest else false

/-- The outer loop over `i`. -/
def overlapFound : List FoundStorageChunk → Bool
  | [] => false
  | chunk :: rest =>
      if chunk.valid then clashesWithAny chunk (chunk :: rest) || overlapFound rest else false

/-- `check_for_overlaps` -/
def checkForOverlaps (startAddress size : HalfWord) : Dev Unit := do
  let endAddress := startAddress + size
  let chunks := (← get).foundStorageChunks
  let (lastChunk, chunkAlreadyKnown) := scanChunks startAddress endAddress chunks.toList 0
  if !chunkAlreadyKnown then
    if h : lastChunk < storageChunkSize then
      modify fun d => { d with
        foundStorageChunks := chunks.set lastChunk
          { addressStart := startAddress, addressEnd := endAddress, valid := true } h }
    else throw .assertFailed
  onWorld (assert (!overlapFound (← get).foundStorageChunks.toList))

/-! ## Buffers -/

/-- `eeprom_init`.  What `EE_Init` returns is not looked at. -/
def eepromInit : Dev Unit := do
  let _ ← onWorld eeInit
  modify fun d => { d with
    foundStorageChunks := d.foundStorageChunks.map fun chunk => { chunk with valid := false } }

/-- The loop of `eeprom_write_buffer`. -/
def writeBufferLoop (virtAddre : Nat) : List HalfWord → Mcu Unit
  | [] => return ()
  | data :: rest => do
      let (eeResult, probeVal) ← eeReadVariable (BitVec.ofNat 16 virtAddre) 0#16
      if probeVal ≠ data ∨ eeResult ≠ 0#16 then
        let retVal ← eeWriteVariable (BitVec.ofNat 16 virtAddre) data
        assert (retVal = HalStatus.ok.toU16)
      writeBufferLoop (virtAddre + 1) rest

/-- The loop of `eeprom_read_buffer`: the status, and the buffer afterwards. -/
def readBufferLoop (virtAddre : Nat) : List HalfWord → Mcu (HalStatus × List HalfWord)
  | [] => return (.ok, [])
  | _ :: rest => do
      let (eeResult, found) ← eeReadVariable (BitVec.ofNat 16 virtAddre) 0xFFFF#16
      if eeResult ≠ 0#16 then return (.error, found :: rest)
      let (status, tail) ← readBufferLoop (virtAddre + 1) rest
      return (status, found :: tail)

/-- `eeprom_write_buffer` with the half-words of the buffer -/
def eepromWriteBuffer (address : HalfWord) (data : List HalfWord) : Dev Unit := do
  checkForOverlaps address (BitVec.ofNat 16 data.length)
  onWorld (writeBufferLoop address.toNat data)

/-- `eeprom_read_buffer` with the half-words the buffer holds before -/
def eepromReadBuffer (address : HalfWord) (data : List HalfWord) :
    Dev (HalStatus × List HalfWord) := do
  checkForOverlaps address (BitVec.ofNat 16 data.length)
  onWorld (readBufferLoop address.toNat data)

/-! ## The entries of a buffer -/

/-- The half-words of a buffer with their virtual addresses. -/
def entries : (address : Nat) → (data : List HalfWord) →
    address + data.length ≤ eepromSizeU16 → List Write
  | _, [], _ => []
  | address, data :: rest, h =>
      (⟨BitVec.ofNat 16 address, by
          have hlen : address + (rest.length + 1) ≤ eepromSizeU16 := h
          have hmod : address % 2 ^ 16 ≤ address := Nat.mod_le _ _
          rw [BitVec.toNat_ofNat]
          omega⟩, data) ::
        entries (address + 1) rest (by
          have hlen : address + (rest.length + 1) ≤ eepromSizeU16 := h
          omega)

/-- A half-word that reads back as it should is left, another is written. -/
def storeEntry (w : World) (entry : Write) : World :=
  if readVariable w.flash entry.1 0#16 = (0#16, entry.2) then w else afterWrite w entry

/-- The world after the half-words of a buffer have been stored. -/
def storeEntries (w : World) (entries : List Write) : World := entries.foldl storeEntry w

/-- A condition on every write that storing the entries issues. -/
def OnWrites (P : World → Write → Prop) (w : World) (entry : Write) : Prop :=
  readVariable w.flash entry.1 0#16 ≠ (0#16, entry.2) → P w entry

theorem entries_length : ∀ (data : List HalfWord) {address : Nat}
    (h : address + data.length ≤ eepromSizeU16), (entries address data h).length = data.length := by
  intro data
  induction data with
  | nil =>
      intro address h
      rfl
  | cons value rest ih =>
      intro address h
      rw [entries, List.length_cons, List.length_cons, ih]

/-- The writing loop is the run over the entries; it stops on the assertion
exactly when some write is refused. -/
theorem run_writeBufferLoop : ∀ (data : List HalfWord) {address : Nat}
    (h : address + data.length ≤ eepromSizeU16) {w : World}, Started w →
    (EachStep storeEntry (OnWrites ReturnsOk) w (entries address data h) ∧
        (writeBufferLoop address data).run w =
          .ok () (storeEntries w (entries address data h)) ∨
      ¬ EachStep storeEntry (OnWrites ReturnsOk) w (entries address data h) ∧
        ∃ w', (writeBufferLoop address data).run w = .error .assertFailed w') := by
  intro data
  induction data with
  | nil =>
      intro address h w _
      exact Or.inl ⟨trivial, rfl⟩
  | cons value rest ih =>
      intro address h w hw
      rw [entries, EachStep.cons, storeEntries, List.foldl_cons]
      generalize hentry : (⟨⟨BitVec.ofNat 16 address, _⟩, value⟩ : Write) = entry
      have hva : entry.1.1 = BitVec.ofNat 16 address := by rw [← hentry]
      have hvalue : entry.2 = value := by rw [← hentry]
      simp only [writeBufferLoop, ← hva, ← hvalue, EStateM.run_bind,
        run_eeReadVariable entry.1.2]
      by_cases hsame : readVariable w.flash entry.1 0#16 = (0#16, entry.2)
      · -- The half-word is there already.
        have hstep : storeEntry w entry = w := by rw [storeEntry, if_pos hsame]
        have hmet : OnWrites ReturnsOk w entry := fun hne => absurd hsame hne
        rw [hstep, hsame]
        simp only [ne_eq, not_true_eq_false, or_self, if_false, hmet, true_and]
        exact ih _ hw
      · have hcond : (readVariable w.flash entry.1 0#16).2 ≠ entry.2 ∨
            (readVariable w.flash entry.1 0#16).1 ≠ 0#16 := by
          by_contra hno
          rw [not_or, not_not, not_not] at hno
          exact hsame (Prod.ext hno.2 hno.1)
        have hstep : storeEntry w entry = afterWrite w entry := by rw [storeEntry, if_neg hsame]
        obtain ⟨status, hrun, -⟩ := writeOutcome hw.halOk entry
        rw [hstep, if_pos hcond]
        simp only [EStateM.run_bind, hrun]
        by_cases hstatus : status = HalStatus.ok.toU16
        · have hmet : OnWrites ReturnsOk w entry := fun _ => by rw [ReturnsOk, hrun, hstatus]
          simp only [hstatus, decide_true, run_assert_true, hmet, true_and]
          exact ih _ (hw.afterWrite entry)
        · have hmet : ¬ OnWrites ReturnsOk w entry := by
            intro hmet
            have hok := hmet hsame
            rw [ReturnsOk, hrun] at hok
            exact hstatus (EStateM.Result.ok.inj hok).1
          simp only [hstatus, decide_false, run_assert_false, hmet, false_and, not_false_eq_true,
            true_and, false_or]
          exact ⟨_, rfl⟩

/-! ## Reading back what was stored -/

theorem started_storeEntry {w : World} (h : Started w) (entry : Write) :
    Started (storeEntry w entry) := by
  unfold storeEntry
  split
  · exact h
  · exact h.afterWrite entry

theorem started_storeEntries {w : World} (h : Started w) (entries : List Write) :
    Started (storeEntries w entries) := by
  induction entries generalizing w with
  | nil => exact h
  | cons entry rest ih => exact ih (started_storeEntry h entry)

/-- What a read returns when a variable holds `data`. -/
theorem readVariable_eq_found_iff {w : World} (h : Started w) (virtAddress : VirtAddress)
    (old data : HalfWord) :
    readVariable w.flash virtAddress old = (0#16, data) ↔
      contents w.flash virtAddress = some data := by
  rw [readVariable_of_page h.page, contents]
  cases stored w.flash virtAddress with
  | none => simp [readResult]
  | some found => simp [readResult]

/-- Storing an entry in sight is a write of the abstract store, issued or not. -/
theorem contents_storeEntry {w : World} (h : Started w) {entry : Write}
    (hsight : OnWrites (fun w write => LandsInSight w.flash write) w entry) :
    contents (storeEntry w entry).flash = (contents w.flash).write entry := by
  unfold storeEntry
  split
  · rename_i hsame
    rw [readVariable_eq_found_iff h] at hsame
    rw [Store.write, ← hsame, Function.update_eq_self]
  · rename_i hdiffers
    exact contents_afterWrite h (hsight hdiffers)

/-- When every write lands in sight, each entry is read back. -/
theorem readVariable_storeEntries {w : World} (h : Started w) {entries : List Write}
    (hnodup : (entries.map Prod.fst).Nodup)
    (hsight : EachStep storeEntry (OnWrites fun w write => LandsInSight w.flash write) w entries)
    {entry : Write} (hmem : entry ∈ entries) (old : HalfWord) :
    readVariable (storeEntries w entries).flash entry.1 old = (0#16, entry.2) := by
  have hcontents : contents (storeEntries w entries).flash =
      entries.foldl Store.write (contents w.flash) :=
    EachStep.simulates Started (fun w => contents w.flash)
      (fun _ entry hs _ => started_storeEntry hs entry)
      (fun _ _ hs hsight => contents_storeEntry hs hsight) h hsight
  rw [readVariable_eq_found_iff (started_storeEntries h entries), hcontents, Store.foldl_write,
    Store.lastWrite_of_nodup hnodup hmem, Option.some_or]

/-- The reading loop returns and changes nothing. -/
theorem run_readBufferLoop : ∀ (old : List HalfWord) {address : Nat} (w : World),
    address + old.length ≤ eepromSizeU16 →
    ∃ result, (readBufferLoop address old).run w = .ok result w := by
  intro old
  induction old with
  | nil =>
      intro address w _
      exact ⟨_, rfl⟩
  | cons first old ih =>
      intro address w hlen
      rw [List.length_cons] at hlen
      have hva : (BitVec.ofNat 16 address).toNat < eepromSizeU16 := by
        rw [BitVec.toNat_ofNat]
        have hmod : address % 2 ^ 16 ≤ address := Nat.mod_le _ _
        omega
      have hrest : address + 1 + old.length ≤ eepromSizeU16 := by omega
      obtain ⟨result, hrun⟩ := ih w hrest
      simp only [readBufferLoop, EStateM.run_bind, run_eeReadVariable hva]
      split
      · exact ⟨_, rfl⟩
      · rw [EStateM.run_bind, hrun]
        exact ⟨_, rfl⟩

/-- The reading loop returns the buffer whose entries all read back. -/
theorem run_readBufferLoop_of_found : ∀ (data old : List HalfWord) {address : Nat}
    (h : address + data.length ≤ eepromSizeU16) {w : World}, old.length = data.length →
    (∀ entry ∈ entries address data h,
      readVariable w.flash entry.1 0xFFFF#16 = (0#16, entry.2)) →
    (readBufferLoop address old).run w = .ok (.ok, data) w := by
  intro data
  induction data with
  | nil =>
      intro old address h w hlen _
      rw [List.length_nil, List.length_eq_zero_iff] at hlen
      subst hlen
      rfl
  | cons value rest ih =>
      intro old address h w hlen hfound
      cases old with
      | nil => cases hlen
      | cons first old =>
          rw [entries] at hfound
          have hhead := hfound _ List.mem_cons_self
          have htail := ih old _ (Nat.succ.inj hlen) fun entry hmem =>
            hfound entry (List.mem_cons_of_mem _ hmem)
          simp only [readBufferLoop, EStateM.run_bind]
          rw [run_eeReadVariable, hhead]
          · simp only [ne_eq, not_true_eq_false, if_false, EStateM.run_bind, htail,
              EStateM.run_pure]
          · rw [BitVec.toNat_ofNat]
            have hlen' : address + (rest.length + 1) ≤ eepromSizeU16 := h
            have hmod : address % 2 ^ 16 ≤ address := Nat.mod_le _ _
            omega

/-- A variable that is not stored ends the reading loop with `HAL_ERROR`. -/
theorem run_readBufferLoop_of_missing : ∀ (old : List HalfWord) {address k : Nat}
    {w : World}, Started w → address + old.length ≤ eepromSizeU16 → k < old.length →
    stored w.flash (BitVec.ofNat 16 (address + k)) = none →
    ∃ buffer, (readBufferLoop address old).run w = .ok (.error, buffer) w := by
  intro old
  induction old with
  | nil =>
      intro address k w _ _ hk
      exact absurd hk (Nat.not_lt_zero k)
  | cons first old ih =>
      intro address k w hw hlen hk hnone
      rw [List.length_cons] at hlen hk
      have hva : (BitVec.ofNat 16 address).toNat < eepromSizeU16 := by
        rw [BitVec.toNat_ofNat]
        have hmod : address % 2 ^ 16 ≤ address := Nat.mod_le _ _
        omega
      simp only [readBufferLoop, EStateM.run_bind, run_eeReadVariable hva,
        readVariable_of_page hw.page]
      cases hstored : stored w.flash (BitVec.ofNat 16 address) with
      | none => exact ⟨_, rfl⟩
      | some found =>
          cases k with
          | zero =>
              rw [Nat.add_zero, hstored] at hnone
              cases hnone
          | succ k =>
              have hnext : address + (k + 1) = address + 1 + k := by omega
              rw [hnext] at hnone
              obtain ⟨buffer, hrun⟩ := ih hw (by omega) (by omega) hnone
              refine ⟨found :: buffer, ?_⟩
              simp only [readResult, ne_eq, not_true_eq_false, if_false, EStateM.run_bind, hrun,
                EStateM.run_pure]

/-- The entries of a buffer have different addresses. -/
theorem entries_nodup : ∀ (data : List HalfWord) {address : Nat}
    (h : address + data.length ≤ eepromSizeU16),
    ((entries address data h).map Prod.fst).Nodup ∧
      ∀ entry ∈ entries address data h, address ≤ entry.1.1.toNat := by
  intro data
  induction data with
  | nil =>
      intro address h
      exact ⟨List.nodup_nil, by simp [entries]⟩
  | cons value rest ih =>
      intro address h
      have hlen : address + (rest.length + 1) ≤ eepromSizeU16 := h
      have hsize : eepromSizeU16 = 256 := rfl
      have hrest : address + 1 + rest.length ≤ eepromSizeU16 := by omega
      obtain ⟨hnodup, hle⟩ := ih hrest
      have hhead : (BitVec.ofNat 16 address).toNat = address := by
        rw [BitVec.toNat_ofNat, Nat.mod_eq_of_lt (by omega)]
      rw [entries, List.map_cons, List.nodup_cons]
      refine ⟨⟨?_, hnodup⟩, ?_⟩
      · intro hmem
        obtain ⟨entry, hentry, heq⟩ := List.mem_map.mp hmem
        have hge := hle entry hentry
        rw [heq, hhead] at hge
        omega
      · intro entry hmem
        rcases List.mem_cons.mp hmem with rfl | hmem
        · exact Nat.le_of_eq hhead.symm
        · have hge := hle entry hmem
          omega

end WindradLogger.Storage
