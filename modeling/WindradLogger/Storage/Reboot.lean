import WindradLogger.Storage.Calibration
import WindradLogger.Eeprom.Safety
import WindradLogger.Eeprom.PowerLoss

set_option autoImplicit false

/-!
# The calibration across a reboot (`main.c`)

At start the program runs `eeprom_init` and `calib_init`.  A reset keeps flash
and clears RAM.  A calibration survives a reset when the writes of its
`calib_store` land in sight of the reader and the status words they leave are
ones that `EE_Init` does not act upon; what was stored before only has to find
room.
-/

namespace WindradLogger.Storage

open WindradLogger.Flash WindradLogger.Eeprom WindradLogger.Lib

/-! ## Power-on -/

/-- A coefficient record of cleared memory. -/
def clearedCoefficients : CalibrationCoefficients :=
  { c0Over65536 := 0#32, c1Over65536 := 0#32, c2Over65536 := 0#32 }

/-- `calibration_storage` after a reset. -/
def clearedStorage : CalibrationStorage :=
  { calibrationData :=
      { channelPos := Vector.replicate adcExternalValueCount clearedCoefficients
        channelNeg := Vector.replicate adcExternalValueCount clearedCoefficients
        cpuChannels := Vector.replicate adcMcuValueCount clearedCoefficients }
    crc16 := 0#16
    padding := 0#16 }

/-- The device after a reset with flash content `f`. -/
def powerOn (f : Content) : Device :=
  { world := World.boot f
    foundStorageChunks := Vector.replicate storageChunkSize
      { addressStart := 0#16, addressEnd := 0#16, valid := false }
    calibrationStorage := clearedStorage }

/-- What `main` does with the EEPROM before it starts the tasks. -/
def boot : Dev Unit := do
  eepromInit
  calibInit

/-- A sequence of `calib_store`s. -/
def storeAll : List Calibration → Dev Unit
  | [] => return ()
  | c :: rest => do
      calibStore c
      storeAll rest

/-- Boot, some stores, a last store of `c`, a reset, and boot again: no assertion
fails on the way, and `c` is the calibration in the end. -/
def SurvivesReboot (f : Content) (stores : List Calibration) (c : Calibration) : Prop :=
  ∃ d d', (do boot; storeAll (stores ++ [c]) : Dev Unit).run (powerOn f) = .ok () d ∧
    boot.run (powerOn d.world.flash) = .ok () d' ∧ calibGet d' = c

/-! ## Boot -/

/-- The device after `eeprom_init`. -/
def initialised (f : Content) : Device := finalState (eepromInit.run (powerOn f))

/-- The device after boot. -/
def afterBoot (f : Content) : Device := finalState (boot.run (powerOn f))

theorem onlyCalibration_of_unused {chunks : Vector FoundStorageChunk storageChunkSize}
    (h : ∀ chunk ∈ chunks.toList, chunk.valid = false) : OnlyCalibration chunks := by
  cases hlist : chunks.toList with
  | nil =>
      have hlen := chunks.length_toList
      rw [hlist] at hlen
      cases hlen
  | cons first rest =>
      rw [hlist] at h
      exact ⟨first, rest, hlist, fun chunk hmem => h chunk (List.mem_cons_of_mem _ hmem),
        Or.inl (h first List.mem_cons_self)⟩

theorem run_eepromInit (f : Content) :
    eepromInit.run (powerOn f) = .ok () (initialised f) ∧ Ready (initialised f) ∧
      (initialised f).world = afterInit (World.boot f) := by
  obtain ⟨status, w, hrun, -⟩ := run_eeInit_outcome (World.boot_halOk f)
  have hinit : eepromInit.run (powerOn f) = .ok () { powerOn f with
      world := w
      foundStorageChunks := (powerOn f).foundStorageChunks.map fun chunk =>
        { chunk with valid := false } } := by
    have hworld := run_onWorld_ok (d := powerOn f) hrun
    simp only [eepromInit, EStateM.run_bind, hworld, EStateM.run_modify]
  have hstate : initialised f = { powerOn f with
      world := w
      foundStorageChunks := (powerOn f).foundStorageChunks.map fun chunk =>
        { chunk with valid := false } } := by
    rw [initialised, hinit, finalState_ok]
  rw [hstate, afterInit, hrun, finalState_ok]
  refine ⟨hinit, ⟨started_of_eeInit hrun, onlyCalibration_of_unused ?_⟩, rfl⟩
  intro chunk hmem
  rw [Vector.toList_map, List.mem_map] at hmem
  obtain ⟨_, -, rfl⟩ := hmem
  rfl

/-- Every write that boot issues meets `P`: it issues none when a calibration
loads, and those of storing the default otherwise. -/
def BootMeets (P : World → Write → Prop) (f : Content) : Prop :=
  ¬ Loads (initialised f) → StoreMeets P (afterLoad (initialised f)) defaultCalibration

theorem run_boot_eq (f : Content) : boot.run (powerOn f) = calibInit.run (initialised f) := by
  obtain ⟨hinit, -, -⟩ := run_eepromInit f
  simp only [boot, EStateM.run_bind, hinit]

/-- Boot runs through exactly when no write is refused. -/
theorem run_boot (f : Content) :
    BootMeets ReturnsOk f ∧ boot.run (powerOn f) = .ok () (afterBoot f) ∧ Ready (afterBoot f) ∨
      ¬ BootMeets ReturnsOk f ∧ ∃ d, boot.run (powerOn f) = .error .assertFailed d := by
  obtain ⟨-, hready, -⟩ := run_eepromInit f
  obtain ⟨-, -, hready', -⟩ := run_calibLoad hready
  have hboot := run_boot_eq f
  rcases run_calibInit hready with ⟨hloads, hrun⟩ | ⟨hloads, hrun⟩
  · have hafter : afterBoot f = afterLoad (initialised f) := by
      rw [afterBoot, hboot, hrun, finalState_ok]
    rw [hboot, hafter]
    exact Or.inl ⟨fun hno => absurd hloads hno, hrun, hready'⟩
  · rcases run_calibStore hready' defaultCalibration with
      ⟨hmeets, hstore, hstored, -, -⟩ | ⟨hmeets, d, hstore⟩
    · have hafter : afterBoot f = afterStore (afterLoad (initialised f)) defaultCalibration := by
        rw [afterBoot, hboot, hrun, hstore, finalState_ok]
      rw [hboot, hafter, hrun]
      exact Or.inl ⟨fun _ => hmeets, hstore, hstored⟩
    · rw [hboot, hrun]
      exact Or.inr ⟨fun hboot => hmeets (hboot hloads), d, hstore⟩

/-- Boot with a calibration that loads issues no operation but those of
`EE_Init`, and ends with that calibration. -/
theorem run_boot_of_loads {f : Content} (h : Loads (initialised f)) :
    boot.run (powerOn f) = .ok () (afterLoad (initialised f)) := by
  obtain ⟨-, hready, -⟩ := run_eepromInit f
  rcases run_calibInit hready with ⟨-, hrun⟩ | ⟨hno, -⟩
  · exact (run_boot_eq f).trans hrun
  · exact absurd h hno

/-- Boot with a calibration that does not load stores the default. -/
theorem run_boot_of_not_loads {f : Content} (h : ¬ Loads (initialised f)) :
    boot.run (powerOn f) = (calibStore defaultCalibration).run (afterLoad (initialised f)) := by
  obtain ⟨-, hready, -⟩ := run_eepromInit f
  rcases run_calibInit hready with ⟨hyes, -⟩ | ⟨-, hrun⟩
  · exact absurd hyes h
  · exact (run_boot_eq f).trans hrun

/-! ## Stores -/

/-- Each write of the store finds room. -/
def StoreFindsRoom (d : Device) (c : Calibration) : Prop :=
  StoreMeets (fun w write => HasRoom w.flash write.1) d c

/-- Each write of the store lands in sight. -/
def StoreLandsInSight (d : Device) (c : Calibration) : Prop :=
  StoreMeets (fun w write => LandsInSight w.flash write) d c

theorem storeMeets_congr {P Q : World → Write → Prop}
    (h : ∀ w write, Started w → (P w write ↔ Q w write)) {d : Device} (hd : Ready d)
    (c : Calibration) : StoreMeets P d c ↔ StoreMeets Q d c := by
  refine EachStep.congr Started (fun _ entry hs => started_storeEntry hs entry) ?_ hd.started
  intro w entry hs
  unfold OnWrites
  rw [h w entry hs]

theorem storeMeets_returnsOk_iff {d : Device} (hd : Ready d) (c : Calibration) :
    StoreMeets ReturnsOk d c ↔ StoreFindsRoom d c :=
  storeMeets_congr (fun _ write hs => returnsOk_iff_hasRoom hs write) hd c

theorem bootMeets_returnsOk_iff (f : Content) :
    BootMeets ReturnsOk f ↔ BootMeets (fun w write => HasRoom w.flash write.1) f := by
  obtain ⟨-, hready, -⟩ := run_eepromInit f
  obtain ⟨-, -, hready', -⟩ := run_calibLoad hready
  unfold BootMeets
  rw [storeMeets_returnsOk_iff hready']
  rfl

theorem storeMeets_returnsOk_of_inSight {d : Device} (hd : Ready d) {c : Calibration}
    (h : StoreLandsInSight d c) : StoreMeets ReturnsOk d c := by
  refine EachStep.imp Started (fun _ entry hs _ => started_storeEntry hs entry) ?_ hd.started h
  intro w entry hs hsight hne
  exact returnsOk_of_landsInSight hs (hsight hne)

/-- Stores whose writes find room all return. -/
theorem run_storeAll : ∀ (stores : List Calibration) {d : Device}, Ready d →
    EachStep afterStore StoreFindsRoom d stores →
    (storeAll stores).run d = .ok () (stores.foldl afterStore d) ∧
      Ready (stores.foldl afterStore d) := by
  intro stores
  induction stores with
  | nil =>
      intro d hd _
      exact ⟨rfl, hd⟩
  | cons c rest ih =>
      intro d hd hroom
      have hmeets := (storeMeets_returnsOk_iff hd c).mpr hroom.1
      rcases run_calibStore hd c with ⟨-, hrun, hready, -⟩ | ⟨hno, -⟩
      · obtain ⟨hrest, hready'⟩ := ih hready hroom.2
        refine ⟨?_, hready'⟩
        simp only [storeAll, EStateM.run_bind, hrun, hrest, List.foldl_cons]
      · exact absurd hmeets hno

theorem run_storeAll_append (stores : List Calibration) (c : Calibration) (d d' : Device)
    (h : (storeAll stores).run d = .ok () d') :
    (storeAll (stores ++ [c])).run d = (calibStore c).run d' := by
  induction stores generalizing d with
  | nil =>
      obtain ⟨-, rfl⟩ := EStateM.Result.ok.inj h
      simp only [List.nil_append, storeAll, EStateM.run_bind]
      cases (calibStore c).run d <;> rfl
  | cons first rest ih =>
      simp only [List.cons_append, storeAll, EStateM.run_bind] at h ⊢
      cases hfirst : (calibStore first).run d with
      | ok _ d₁ =>
          rw [hfirst] at h
          exact ih d₁ h
      | error e d₁ =>
          rw [hfirst] at h
          cases h

/-- After a store in sight every entry of its image is found. -/
theorem found_afterStore {d : Device} (hd : Ready d) {c : Calibration}
    (h : StoreLandsInSight d c) :
    ∀ entry ∈ storeEntriesOf d c,
      readVariable (storeEntries d.world (storeEntriesOf d c)).flash entry.1 0xFFFF#16 =
        (0#16, entry.2) := fun _ hmem =>
  readVariable_storeEntries hd.started (entries_nodup _ (calibrationRange _)).1 h hmem _

/-- A calibration survives a reboot when every write of boot and of the stores
before finds room, every write of its own store lands in sight, and `EE_Init` has
nothing to do on the status words left behind. -/
theorem calibGet_after_reboot {f : Content} {stores : List Calibration} {c : Calibration}
    (hboot : BootMeets (fun w write => HasRoom w.flash write.1) f)
    (hstores : EachStep afterStore StoreFindsRoom (afterBoot f) stores)
    (hlast : StoreLandsInSight (stores.foldl afterStore (afterBoot f)) c)
    (hquiet : Quiet (afterStore (stores.foldl afterStore (afterBoot f)) c).world.flash) :
    SurvivesReboot f stores c := by
  rcases run_boot f with ⟨-, hrunBoot, hready⟩ | ⟨hno, -⟩
  · obtain ⟨hrunStores, hready'⟩ := run_storeAll stores hready hstores
    rcases run_calibStore hready' c with ⟨-, hrunLast, -, hworld, -⟩ | ⟨hno, -⟩
    · have hsequence : (do boot; storeAll (stores ++ [c]) : Dev Unit).run (powerOn f) =
          .ok () (afterStore (stores.foldl afterStore (afterBoot f)) c) := by
        simp only [EStateM.run_bind, hrunBoot, run_storeAll_append stores c _ _ hrunStores, hrunLast]
      -- The reset leaves flash, and `EE_Init` leaves the area, as they are.
      obtain ⟨hinit, hready'', hstart⟩ :=
        run_eepromInit (afterStore (stores.foldl afterStore (afterBoot f)) c).world.flash
      obtain ⟨w, hrunInit, harea⟩ := run_eeInit_quiet (World.boot_halOk _) hquiet
      have hflash : SameArea (initialised
          (afterStore (stores.foldl afterStore (afterBoot f)) c).world.flash).world.flash
          (afterStore (stores.foldl afterStore (afterBoot f)) c).world.flash := by
        rw [hstart, afterInit, hrunInit, finalState_ok]
        exact harea
      have hfound := found_afterStore hready' hlast
      rw [← hworld] at hfound
      obtain ⟨hloads, hstorage⟩ := loads_of_found hready''
        { (stores.foldl afterStore (afterBoot f)).calibrationStorage with calibrationData := c }
        fun entry hmem => (hflash.readVariable entry.1 _).trans (hfound entry hmem)
      refine ⟨_, _, hsequence, run_boot_of_loads hloads, ?_⟩
      rw [calibGet, hstorage]
      rfl
    · exact absurd (storeMeets_returnsOk_of_inSight hready' hlast) hno
  · exact absurd ((bootMeets_returnsOk_iff f).mpr hboot) hno

/-! ## Logs in order -/

/-- Storing entries in a log in order that has one already: each write lands in
sight, and the log stays in order. -/
theorem inOrder_storeEntries : ∀ (entries : List Write) {w : World} {n : Nat}, w.HalOk →
    InOrder w.flash n → 0 < n → n + entries.length ≤ statusSlot →
    EachStep storeEntry (OnWrites fun w write => LandsInSight w.flash write) w entries ∧
      ∃ n', n ≤ n' ∧ n' ≤ n + entries.length ∧ InOrder (storeEntries w entries).flash n' := by
  intro entries
  induction entries with
  | nil =>
      intro w n _ h _ _
      exact ⟨trivial, n, Nat.le_refl n, Nat.le_refl n, h⟩
  | cons entry rest ih =>
      intro w n hok h hn hlen
      rw [List.length_cons] at hlen ⊢
      have hstarted : Started w := ⟨hok, h.page⟩
      have hsight : OnWrites (fun w write => LandsInSight w.flash write) w entry := fun _ =>
        ⟨n, h.freeSlot, Or.inl ((h.inSight_iff entry.1.2).mpr hn)⟩
      by_cases hsame : readVariable w.flash entry.1 0#16 = (0#16, entry.2)
      · have hstep : storeEntry w entry = w := by rw [storeEntry, if_pos hsame]
        obtain ⟨hrest, n', hle, hle', hinOrder⟩ := ih hok h hn (by omega)
        rw [EachStep.cons, storeEntries, List.foldl_cons, hstep]
        exact ⟨⟨hsight, hrest⟩, n', hle, by omega, hinOrder⟩
      · have hstep : storeEntry w entry = afterWrite w entry := by rw [storeEntry, if_neg hsame]
        obtain ⟨hrest, n', hle, hle', hinOrder⟩ := ih (hstarted.afterWrite entry).halOk
          (inOrder_afterWrite hok h (by omega) entry) (Nat.succ_pos n) (by omega)
        rw [EachStep.cons, storeEntries, List.foldl_cons, hstep]
        exact ⟨⟨hsight, hrest⟩, n', by omega, by omega, hinOrder⟩

theorem storeEntriesOf_length (d : Device) (c : Calibration) :
    (storeEntriesOf d c).length = calibrationLengthInHalfWord := by
  rw [storeEntriesOf, entries_length, CalibrationStorage.buffer_length]

/-- One store in a log in order. -/
theorem inOrder_afterStore {d : Device} (hd : Ready d) {n : Nat} (h : InOrder d.world.flash n)
    (hn : 0 < n) (hlen : n + calibrationLengthInHalfWord ≤ statusSlot) (c : Calibration) :
    StoreLandsInSight d c ∧ StoreFindsRoom d c ∧ Ready (afterStore d c) ∧
      ∃ n', n ≤ n' ∧ n' ≤ n + calibrationLengthInHalfWord ∧
        InOrder (afterStore d c).world.flash n' := by
  obtain ⟨hsight, n', hle, hle', hinOrder⟩ := inOrder_storeEntries (storeEntriesOf d c)
    hd.started.halOk h hn (by rw [storeEntriesOf_length]; exact hlen)
  have hmeets := storeMeets_returnsOk_of_inSight hd hsight
  rw [storeEntriesOf_length] at hle'
  rcases run_calibStore hd c with ⟨-, -, hready, hworld, -⟩ | ⟨hno, -⟩
  · rw [hworld]
    exact ⟨hsight, (storeMeets_returnsOk_iff hd c).mp hmeets, hready, n', hle, hle', hinOrder⟩
  · exact absurd hmeets hno

/-- `EE_Init` finds nothing to do in a log in order. -/
theorem initialised_of_inOrder {f : Content} {n : Nat} (h : InOrder f n) :
    (initialised f).world = World.boot f := by
  obtain ⟨-, -, hworld⟩ := run_eepromInit f
  rw [hworld, afterInit, run_eeInit_inOrder (World.boot_halOk f) h, finalState_ok]

/-- Boot with a log in order. -/
theorem inOrder_afterBoot {f : Content} {n : Nat} (h : InOrder f n) (hn : 0 < n)
    (hlen : n + calibrationLengthInHalfWord ≤ statusSlot) :
    BootMeets (fun w write => HasRoom w.flash write.1) f ∧ Ready (afterBoot f) ∧
      ∃ n', n ≤ n' ∧ n' ≤ n + calibrationLengthInHalfWord ∧
        InOrder (afterBoot f).world.flash n' := by
  obtain ⟨-, hready, -⟩ := run_eepromInit f
  obtain ⟨-, -, hready', hworld'⟩ := run_calibLoad hready
  have hloaded : InOrder (afterLoad (initialised f)).world.flash n := by
    rw [hworld', initialised_of_inOrder h]
    exact h
  obtain ⟨-, hroom, hstored, n', hle, hle', hinOrder⟩ :=
    inOrder_afterStore hready' hloaded hn hlen defaultCalibration
  have hmeets : BootMeets (fun w write => HasRoom w.flash write.1) f := fun _ => hroom
  rcases run_boot f with ⟨-, hrun, hbooted⟩ | ⟨hno, -⟩
  · refine ⟨hmeets, hbooted, ?_⟩
    by_cases hloads : Loads (initialised f)
    · have hafter : afterBoot f = afterLoad (initialised f) := by
        rw [afterBoot, run_boot_of_loads hloads, finalState_ok]
      rw [hafter]
      exact ⟨n, Nat.le_refl n, Nat.le_add_right _ _, hloaded⟩
    · have hafter : afterBoot f = afterStore (afterLoad (initialised f)) defaultCalibration := by
        rw [afterBoot, run_boot_of_not_loads hloads, afterStore]
      rw [hafter]
      exact ⟨n', hle, hle', hinOrder⟩
  · exact absurd ((bootMeets_returnsOk_iff f).mpr hmeets) hno

/-- The coefficients that double a value. -/
def doubleCoefficients : CalibrationCoefficients :=
  { unitCoefficients with c1Over65536 := 131072#32 }

/-- A calibration that doubles every value. -/
def doubleCalibration : Calibration :=
  { channelPos := Vector.replicate adcExternalValueCount doubleCoefficients
    channelNeg := Vector.replicate adcExternalValueCount doubleCoefficients
    cpuChannels := Vector.replicate adcMcuValueCount doubleCoefficients }

/-- On the device whose first slot is used, a calibration that is stored after another
one survives. -/
theorem calibGet_after_reboot_secondSlotNext :
    SurvivesReboot secondSlotNext [clearedStorage.calibrationData] doubleCalibration := by
  have hlength : calibrationLengthInHalfWord = 160 := rfl
  have hstatus : statusSlot = 4095 := rfl
  obtain ⟨hboot, hready, n, hle, hle', hinOrder⟩ :=
    inOrder_afterBoot inOrder_secondSlotNext Nat.one_pos (by decide)
  obtain ⟨-, hroom, hready', m, hle'', hless, hinOrder'⟩ :=
    inOrder_afterStore hready hinOrder (by omega) (by omega) clearedStorage.calibrationData
  obtain ⟨hlast, -, -, k, -, -, hinOrder''⟩ :=
    inOrder_afterStore hready' hinOrder' (by omega) (by omega) doubleCalibration
  have hstores : EachStep afterStore StoreFindsRoom (afterBoot secondSlotNext)
      [clearedStorage.calibrationData] := EachStep.cons.mpr ⟨hroom, trivial⟩
  refine calibGet_after_reboot hboot hstores ?_ ?_
  · rw [List.foldl_cons, List.foldl_nil]
    exact hlast
  · rw [List.foldl_cons, List.foldl_nil]
    exact Or.inr ⟨hinOrder''.status0, Or.inl hinOrder''.status1⟩

/-! ## A flash full of zeros -/

theorem exists_entry : ∀ (data : List HalfWord) {address k : Nat}
    (h : address + data.length ≤ eepromSizeU16), k < data.length →
    ∃ entry ∈ entries address data h, entry.1.1 = BitVec.ofNat 16 (address + k) := by
  intro data
  induction data with
  | nil =>
      intro address k h hk
      exact absurd hk (Nat.not_lt_zero k)
  | cons value rest ih =>
      intro address k h hk
      rw [entries]
      cases k with
      | zero => exact ⟨_, List.mem_cons_self, rfl⟩
      | succ k =>
          have hrest : address + 1 + rest.length ≤ eepromSizeU16 := by
            rw [List.length_cons] at h
            omega
          obtain ⟨entry, hmem, hva⟩ := ih hrest (Nat.lt_of_succ_lt_succ hk)
          refine ⟨entry, List.mem_cons_of_mem _ hmem, ?_⟩
          rw [hva]
          congr 1
          omega

/-- Where every write is refused, entries can only be stored that are there. -/
theorem found_of_refused {w : World} (hrefused : ∀ write, ¬ ReturnsOk w write) :
    ∀ {entries : List Write}, EachStep storeEntry (OnWrites ReturnsOk) w entries →
      ∀ entry ∈ entries, readVariable w.flash entry.1 0#16 = (0#16, entry.2) := by
  intro entries
  induction entries with
  | nil =>
      intro _ entry hmem
      cases hmem
  | cons first rest ih =>
      intro hmeets entry hmem
      have hfirst : readVariable w.flash first.1 0#16 = (0#16, first.2) := by
        by_contra hne
        exact hrefused first (hmeets.1 hne)
      have hstep : storeEntry w first = w := by rw [storeEntry, if_pos hfirst]
      have hrest := hmeets.2
      rw [hstep] at hrest
      rcases List.mem_cons.mp hmem with rfl | hmem
      · exact hfirst
      · exact ih hrest entry hmem

/-- Variable 1 is missing there. -/
theorem stored_one_zerosStarted : stored zerosStarted.flash 1#16 = none := by
  rw [stored, SlotLog.lookup_eq_none_iff, zerosStarted_sameArea.slots_eq]
  intro i _ _ hkey
  exact absurd (show (0#16 : HalfWord) = 1#16 from hkey) (by decide)

/-- Nothing survives when boot stops. -/
theorem not_survivesReboot_of_error {f : Content} {e : Halt} {d : Device}
    (h : boot.run (powerOn f) = .error e d) {stores : List Calibration} {c : Calibration} :
    ¬ SurvivesReboot f stores c := by
  rintro ⟨d', -, hsequence, -⟩
  rw [EStateM.run_bind, h] at hsequence
  cases hsequence

/-- On a flash full of zeros the first boot stops on the assertion that follows
`EE_WriteVariable`. -/
theorem zeros_calibration_lost :
    ¬ ∀ (f : Content) (stores : List Calibration) (c : Calibration), SurvivesReboot f stores c := by
  intro hclaim
  have hsurvives := hclaim zeros [] defaultCalibration
  obtain ⟨-, hready, hworld⟩ := run_eepromInit zeros
  obtain ⟨-, -, hready', hworld'⟩ := run_calibLoad hready
  have hstart : (initialised zeros).world = zerosStarted := by
    rw [hworld, afterInit, run_eeInit_zeros, finalState_ok]
  rcases run_boot zeros with ⟨hmeets, -⟩ | ⟨-, d', herror⟩
  · have hmissing : ¬ Loads (initialised zeros) := by
      refine not_loads_of_missing hready (k := 1) (by decide) ?_
      rw [hstart]
      exact stored_one_zerosStarted
    have hstore := hmeets hmissing
    rw [StoreMeets, hworld', hstart] at hstore
    have hrefused : ∀ write, ¬ ReturnsOk zerosStarted write := by
      intro write hok
      rcases (returnsOk_iff_hasRoom (started_of_eeInit run_eeInit_zeros) write).mp hok with
        hslot | hfits
      · exact hslot freeSlot_zerosStarted
      · exact not_transferFits_zerosStarted _ hfits
    obtain ⟨entry, hmem, hva⟩ := exists_entry
      (storedImage (afterLoad (initialised zeros)) defaultCalibration).buffer
      (calibrationRange _) (k := 1) (by rw [CalibrationStorage.buffer_length]; decide)
    have hfound := found_of_refused hrefused hstore entry hmem
    have hpage := (started_of_eeInit run_eeInit_zeros).page
    have hstart : calibrationStart.toNat + 1 = 1 := rfl
    rw [hstart] at hva
    have hone : stored zerosStarted.flash entry.1 = none := by
      rw [hva]
      exact stored_one_zerosStarted
    rw [readVariable_of_page hpage, hone] at hfound
    have hstatus : (1#16 : HalfWord) = 0#16 := congrArg Prod.fst hfound
    exact absurd hstatus (by decide)
  · exact not_survivesReboot_of_error herror hsurvives

end WindradLogger.Storage
