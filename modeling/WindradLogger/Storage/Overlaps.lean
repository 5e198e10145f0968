import WindradLogger.Lib.History
import WindradLogger.Storage.Reboot
import Mathlib.Order.Interval.Set.Basic

set_option autoImplicit false

/-!
# The check for overlapping areas (`eeprom_storage.c`)

`check_for_overlaps` enters the range of every access into a table of 16 and then
compares all ranges of the table with each other.  The comparison asks for an
address above the start and below zero length: two ranges whose ends do not wrap
never meet it, and a full table only loses its last entry.  So the check passes
whatever ranges are used.
-/

namespace WindradLogger.Storage

open WindradLogger.Flash WindradLogger.Eeprom WindradLogger.Lib

/-! ## One check -/

/-- The table after the first half of `check_for_overlaps`, unless the index of
the new entry is out of range. -/
def enterRange (chunks : Vector FoundStorageChunk storageChunkSize)
    (startAddress endAddress : HalfWord) : Option (Vector FoundStorageChunk storageChunkSize) :=
  let (lastChunk, chunkAlreadyKnown) := scanChunks startAddress endAddress chunks.toList 0
  if !chunkAlreadyKnown then
    if h : lastChunk < storageChunkSize then
      some (chunks.set lastChunk
        { addressStart := startAddress, addressEnd := endAddress, valid := true } h)
    else none
  else some chunks

/-- `check_for_overlaps` stops when the entry has no place or an overlap is found. -/
theorem run_checkForOverlaps_eq (d : Device) (startAddress size : HalfWord) :
    (checkForOverlaps startAddress size).run d =
      match enterRange d.foundStorageChunks startAddress (startAddress + size) with
      | none => .error .assertFailed d
      | some chunks =>
          if overlapFound chunks.toList then
            .error .assertFailed { d with foundStorageChunks := chunks }
          else .ok () { d with foundStorageChunks := chunks } := by
  have hassert : ∀ d : Device,
      (onWorld (assert (!overlapFound d.foundStorageChunks.toList))).run d =
      if overlapFound d.foundStorageChunks.toList then .error .assertFailed d else .ok () d := by
    intro d
    cases hfound : overlapFound d.foundStorageChunks.toList with
    | true => exact run_onWorld_error rfl
    | false => exact run_onWorld_ok rfl
  unfold enterRange
  simp only [checkForOverlaps, EStateM.run_bind, EStateM.run_get]
  split
  · split
    · exact hassert _
    · rfl
  · exact hassert d

/-- The scan ends at an index of the table. -/
theorem scanChunks_le (startAddress endAddress : HalfWord) :
    ∀ (chunks : List FoundStorageChunk) (i : Nat),
      (scanChunks startAddress endAddress chunks i).1 ≤ i + (chunks.length - 1) := by
  intro chunks
  induction chunks with
  | nil =>
      intro i
      exact Nat.le_trans (Nat.sub_le i 1) (Nat.le_add_right i _)
  | cons chunk rest ih =>
      intro i
      rw [scanChunks]
      split
      · have hrest := ih (i + 1)
        cases rest with
        | nil =>
            simp only [scanChunks]
            omega
        | cons next rest =>
            simp only [List.length_cons] at hrest ⊢
            omega
      · exact Nat.le_add_right i _

/-- The new range always finds an entry: in a full table it takes the last one. -/
theorem enterRange_isSome (chunks : Vector FoundStorageChunk storageChunkSize)
    (startAddress endAddress : HalfWord) :
    ∃ after, enterRange chunks startAddress endAddress = some after ∧
      ∀ chunk ∈ after.toList, chunk ∈ chunks.toList ∨
        chunk = { addressStart := startAddress, addressEnd := endAddress, valid := true } := by
  have hle := scanChunks_le startAddress endAddress chunks.toList 0
  rw [Vector.length_toList] at hle
  rcases hscan : scanChunks startAddress endAddress chunks.toList 0 with ⟨lastChunk, known⟩
  rw [hscan] at hle
  have hindex : lastChunk < storageChunkSize := by
    unfold storageChunkSize at hle ⊢
    simp only at hle
    omega
  simp only [enterRange, hscan, dif_pos hindex]
  split
  · refine ⟨_, rfl, ?_⟩
    intro chunk hmem
    rw [Vector.toList_set] at hmem
    rcases List.mem_or_eq_of_mem_set hmem with hold | hnew
    · exact Or.inl hold
    · exact Or.inr hnew
  · exact ⟨chunks, rfl, fun chunk hmem => Or.inl hmem⟩

/-! ## Ranges that do not wrap -/

/-- No range of the table wraps around. -/
def Unwrapped (chunks : List FoundStorageChunk) : Prop :=
  ∀ chunk ∈ chunks, chunk.valid = true → chunk.addressStart ≤ chunk.addressEnd

/-- The comparison of the second loop fails for them. -/
theorem clash_eq_false {a b : FoundStorageChunk} (ha : a.addressStart ≤ a.addressEnd) :
    clash a b = false := by
  rw [clash, decide_eq_false_iff_not]
  rintro (⟨hstart, hend⟩ | ⟨hstart, hend⟩)
  · exact absurd ha (BitVec.not_le.mpr (BitVec.lt_trans hend hstart))
  · exact absurd ha (BitVec.not_le.mpr (BitVec.lt_trans hend hstart))

theorem clashesWithAny_eq_false {a : FoundStorageChunk} (ha : a.addressStart ≤ a.addressEnd) :
    ∀ chunks, clashesWithAny a chunks = false := by
  intro chunks
  induction chunks with
  | nil => rfl
  | cons chunk rest ih =>
      rw [clashesWithAny, clash_eq_false ha, ih]
      exact ite_self _

theorem overlapFound_eq_false {chunks : List FoundStorageChunk} (h : Unwrapped chunks) :
    overlapFound chunks = false := by
  induction chunks with
  | nil => rfl
  | cons chunk rest ih =>
      rw [overlapFound]
      split
      · rename_i hvalid
        rw [clashesWithAny_eq_false (h chunk List.mem_cons_self hvalid),
          ih fun next hmem => h next (List.mem_cons_of_mem _ hmem)]
        rfl
      · rfl

/-- The check passes for a range that does not wrap, and leaves no other. -/
theorem run_checkForOverlaps_of_unwrapped {d : Device}
    (h : Unwrapped d.foundStorageChunks.toList) {startAddress size : HalfWord}
    (hrange : startAddress ≤ startAddress + size) :
    ∃ chunks : Vector FoundStorageChunk storageChunkSize, Unwrapped chunks.toList ∧
      (checkForOverlaps startAddress size).run d =
        .ok () { d with foundStorageChunks := chunks } := by
  obtain ⟨chunks, henter, hmem⟩ :=
    enterRange_isSome d.foundStorageChunks startAddress (startAddress + size)
  have hchunks : Unwrapped chunks.toList := by
    intro chunk hchunk hvalid
    rcases hmem chunk hchunk with hold | hnew
    · exact h chunk hold hvalid
    · rw [hnew]
      exact hrange
  refine ⟨chunks, hchunks, ?_⟩
  simp only [run_checkForOverlaps_eq, henter, overlapFound_eq_false hchunks]
  rfl

/-! ## Accesses -/

/-- A call of `eeprom_read_buffer` or `eeprom_write_buffer`. -/
inductive Access where
  | readBuffer (address : HalfWord) (data : List HalfWord)
  | writeBuffer (address : HalfWord) (data : List HalfWord)

namespace Access

def address : Access → HalfWord
  | readBuffer address _ => address
  | writeBuffer address _ => address

def size : Access → Nat
  | readBuffer _ data => data.length
  | writeBuffer _ data => data.length

/-- The call. -/
def run : Access → Dev Unit
  | readBuffer address data => do
      let _ ← eepromReadBuffer address data
  | writeBuffer address data => eepromWriteBuffer address data

/-- `[address, address + size)` -/
def range (a : Access) : Set Nat := Set.Ico a.address.toNat (a.address.toNat + a.size)

/-- The range is not empty and lies in the EEPROM. -/
structure InRange (a : Access) : Prop where
  notEmpty : 1 ≤ a.size
  inEeprom : a.address.toNat + a.size ≤ eepromSizeU16

/-- The ranges share an address without being the same. -/
def Overlaps (a b : Access) : Prop := (a.range ∩ b.range).Nonempty ∧ a.range ≠ b.range

end Access

/-- The device after a call, unless an assertion failed. -/
def accessStep (d : Device) (a : Access) : Option Device :=
  match a.run.run d with
  | .ok _ d' => some d'
  | .error _ _ => none

/-- An assertion of `check_for_overlaps` fails at the call. -/
def OverlapAsserted (d : Device) (a : Access) : Prop :=
  ∃ d', (checkForOverlaps a.address (BitVec.ofNat 16 a.size)).run d = .error .assertFailed d'

/-- The code decides at the call whether its range overlaps an earlier one. -/
def VerdictRight (past : List Access) (d : Device) (a : Access) : Prop :=
  OverlapAsserted d a ↔ ∃ b ∈ past, b.Overlaps a

theorem Access.InRange.le_end {a : Access} (h : a.InRange) :
    a.address ≤ a.address + BitVec.ofNat 16 a.size := by
  have hsize : eepromSizeU16 = 256 := rfl
  have hend := h.inEeprom
  rw [BitVec.le_def, BitVec.toNat_add, BitVec.toNat_ofNat]
  omega

/-! ## Runs of accesses -/

/-- `eeprom_init` marks all entries of the table as free. -/
theorem unused_of_eepromInit {d₀ d₁ : Device} (h : eepromInit.run d₀ = .ok () d₁) :
    ∀ chunk ∈ d₁.foundStorageChunks.toList, chunk.valid = false := by
  simp only [eepromInit, EStateM.run_bind] at h
  cases hinit : (onWorld eeInit).run d₀ with
  | error e d =>
      rw [hinit] at h
      cases h
  | ok status d =>
      rw [hinit] at h
      obtain ⟨-, rfl⟩ := EStateM.Result.ok.inj h
      intro chunk hmem
      rw [Vector.toList_map] at hmem
      obtain ⟨_, -, rfl⟩ := List.mem_map.mp hmem
      rfl

/-- No range of the table wraps around then: it has none. -/
theorem unwrapped_of_eepromInit {d₀ d₁ : Device} (h : eepromInit.run d₀ = .ok () d₁) :
    Unwrapped d₁.foundStorageChunks.toList := by
  intro chunk hmem hvalid
  rw [unused_of_eepromInit h chunk hmem] at hvalid
  cases hvalid

/-- What the EEPROM does leaves the table alone. -/
theorem onWorld_chunks {α : Type} {m : Mcu α} {d d' : Device} {a : α}
    (h : (onWorld m).run d = .ok a d') : d'.foundStorageChunks = d.foundStorageChunks := by
  simp only [EStateM.run, onWorld] at h
  split at h
  · obtain ⟨-, rfl⟩ := EStateM.Result.ok.inj h
    rfl
  · cases h

/-- An access in range passes the check, and the table stays free of wrapped
ranges. -/
theorem unwrapped_accessStep {d d' : Device} {a : Access} (ha : a.InRange)
    (h : Unwrapped d.foundStorageChunks.toList) (hstep : accessStep d a = some d') :
    Unwrapped d'.foundStorageChunks.toList := by
  obtain ⟨chunks, hchunks, hcheck⟩ := run_checkForOverlaps_of_unwrapped h ha.le_end
  have hrun : a.run.run d = .ok () d' := by
    unfold accessStep at hstep
    split at hstep
    · rename_i hok
      rw [hok, Option.some.inj hstep]
    · cases hstep
  cases a with
  | readBuffer address data =>
      simp only [Access.address, Access.size] at hcheck
      simp only [Access.run, eepromReadBuffer, EStateM.run_bind, hcheck] at hrun
      cases hloop : (onWorld (readBufferLoop address.toNat data)).run
          { d with foundStorageChunks := chunks } with
      | error e d'' =>
          rw [hloop] at hrun
          cases hrun
      | ok result d'' =>
          rw [hloop] at hrun
          obtain ⟨-, rfl⟩ := EStateM.Result.ok.inj hrun
          rw [onWorld_chunks hloop]
          exact hchunks
  | writeBuffer address data =>
      simp only [Access.address, Access.size] at hcheck
      simp only [Access.run, eepromWriteBuffer, EStateM.run_bind, hcheck] at hrun
      rw [onWorld_chunks hrun]
      exact hchunks

theorem unwrapped_run {d₁ d : Device} (hstart : Unwrapped d₁.foundStorageChunks.toList)
    {past : List Access} (hranges : ∀ b ∈ past, b.InRange)
    (hpast : runFrom accessStep d₁ past = some d) : Unwrapped d.foundStorageChunks.toList := by
  refine runFrom_invariant (fun past d => (∀ b ∈ past, b.InRange) →
    Unwrapped d.foundStorageChunks.toList) (fun _ => hstart) ?_ hpast hranges
  intro past before a after hbefore hstep hranges
  have hinv := hbefore fun b hmem => hranges b (List.mem_append_left _ hmem)
  exact unwrapped_accessStep (hranges a (by simp)) hinv hstep

/-- After any accesses since `eeprom_init`, the check passes at the next one. -/
theorem not_overlapAsserted {d₀ d₁ d : Device} (hinit : eepromInit.run d₀ = .ok () d₁)
    {past : List Access} (hranges : ∀ b ∈ past, b.InRange)
    (hpast : runFrom accessStep d₁ past = some d) {a : Access} (ha : a.InRange) :
    ¬ OverlapAsserted d a := by
  have hunwrapped := unwrapped_run (unwrapped_of_eepromInit hinit) hranges hpast
  obtain ⟨chunks, -, hcheck⟩ := run_checkForOverlaps_of_unwrapped hunwrapped ha.le_end
  rintro ⟨d', herror⟩
  rw [hcheck] at herror
  cases herror

/-- The verdict at an access is right exactly when its range overlaps no earlier
one: there is nothing to be found then, and nothing is ever found. -/
theorem verdictRight_iff {d₀ d₁ d : Device} (hinit : eepromInit.run d₀ = .ok () d₁)
    {past : List Access} (hranges : ∀ b ∈ past, b.InRange)
    (hpast : runFrom accessStep d₁ past = some d) {a : Access} (ha : a.InRange) :
    VerdictRight past d a ↔ ∀ b ∈ past, ¬ b.Overlaps a := by
  have hpass := not_overlapAsserted hinit hranges hpast ha
  unfold VerdictRight
  refine ⟨?_, ?_⟩
  · intro hright b hmem hoverlaps
    exact hpass (hright.mpr ⟨b, hmem, hoverlaps⟩)
  · intro hnone
    refine ⟨fun h => absurd h hpass, ?_⟩
    rintro ⟨b, hmem, hoverlaps⟩
    exact absurd hoverlaps (hnone b hmem)

/-! ## An overlap that is not noticed -/

/-- A read is never stopped. -/
theorem accessStep_readBuffer {d : Device} (h : Unwrapped d.foundStorageChunks.toList)
    {address : HalfWord} {data : List HalfWord} (hrange : (Access.readBuffer address data).InRange) :
    ∃ d', accessStep d (.readBuffer address data) = some d' := by
  obtain ⟨chunks, -, hcheck⟩ := run_checkForOverlaps_of_unwrapped h hrange.le_end
  obtain ⟨result, hloop⟩ := run_readBufferLoop data d.world hrange.inEeprom
  have hread := run_onWorld_ok (d := { d with foundStorageChunks := chunks }) hloop
  simp only [Access.address, Access.size] at hcheck hread
  simp only [accessStep, Access.run, eepromReadBuffer, EStateM.run_bind, hcheck, hread]
  exact ⟨_, rfl⟩

/-- The first two variables. -/
def firstTwo : Access := .readBuffer 0#16 [0#16, 0#16]

/-- The second variable alone. -/
def secondOnly : Access := .readBuffer 1#16 [0#16]

theorem inRange_firstTwo : firstTwo.InRange := ⟨by decide, by decide⟩

theorem inRange_secondOnly : secondOnly.InRange := ⟨by decide, by decide⟩

theorem firstTwo_overlaps_secondOnly : firstTwo.Overlaps secondOnly := by
  refine ⟨⟨1, ⟨by decide, by decide⟩, ⟨by decide, by decide⟩⟩, ?_⟩
  intro hsame
  have hzero : 0 ∈ firstTwo.range := ⟨by decide, by decide⟩
  rw [hsame] at hzero
  exact absurd hzero.1 (by decide)

/-- On erased flash the second read is let through. -/
theorem verdictRight_iff_firstTwo_secondOnly :
    ∃ d₁ d, eepromInit.run (powerOn blank) = .ok () d₁ ∧
      runFrom accessStep d₁ [firstTwo] = some d ∧
      (VerdictRight [firstTwo] d secondOnly ↔ ∀ b ∈ [firstTwo], ¬ b.Overlaps secondOnly) := by
  obtain ⟨hinit, -, -⟩ := run_eepromInit blank
  obtain ⟨d, hstep⟩ := accessStep_readBuffer (unwrapped_of_eepromInit hinit) inRange_firstTwo
  have hpast : runFrom accessStep (initialised blank) [firstTwo] = some d :=
    runFrom_concat_eq_some.mpr ⟨_, runFrom_nil, hstep⟩
  refine ⟨_, d, hinit, hpast, verdictRight_iff hinit ?_ hpast inRange_secondOnly⟩
  intro b hmem
  rw [List.mem_singleton.mp hmem]
  exact inRange_firstTwo

theorem overlap_not_noticed :
    ¬ ∀ (d₀ d₁ d : Device) (past : List Access) (a : Access), eepromInit.run d₀ = .ok () d₁ →
      (∀ b ∈ past, b.InRange) → runFrom accessStep d₁ past = some d → a.InRange →
      VerdictRight past d a := by
  intro hclaim
  obtain ⟨hinit, -, -⟩ := run_eepromInit blank
  obtain ⟨d, hstep⟩ := accessStep_readBuffer (unwrapped_of_eepromInit hinit) inRange_firstTwo
  have hpast : runFrom accessStep (initialised blank) [firstTwo] = some d :=
    runFrom_concat_eq_some.mpr ⟨_, runFrom_nil, hstep⟩
  have hranges : ∀ b ∈ [firstTwo], b.InRange := by
    intro b hmem
    rw [List.mem_singleton.mp hmem]
    exact inRange_firstTwo
  have hright := hclaim _ _ d [firstTwo] secondOnly hinit hranges hpast inRange_secondOnly
  exact not_overlapAsserted hinit hranges hpast inRange_secondOnly
    (hright.mpr ⟨firstTwo, List.mem_singleton_self _, firstTwo_overlaps_secondOnly⟩)

end WindradLogger.Storage
