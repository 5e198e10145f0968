import WindradLogger.Eeprom.KeyValue
import WindradLogger.Eeprom.Interrupted

set_option autoImplicit false

/-!
# Losing power during a write

A write issues a list of flash operations; power may fail after any prefix of it,
and `EE_Init` then runs on what is in flash.  While no page transfer is under way
this is harmless: a torn entry has no virtual address yet, so no read sees it,
and for three pairs of status words `EE_Init` does not touch the emulation area.
A transfer resumed into page 1 is another matter, since marking page 1 valid
turns slot `0xFFF` of page 0 into an entry for variable 0.
-/

namespace WindradLogger.Eeprom

open WindradLogger.Flash WindradLogger.Lib

/-! ## Start-up that changes nothing -/

/-- The status words with one page valid and the other erased, or both valid. -/
def Quiet (f : Content) : Prop :=
  f page0BaseAddress = erased ∧ f page1BaseAddress = validPage ∨
    f page0BaseAddress = validPage ∧
      (f page1BaseAddress = erased ∨ f page1BaseAddress = validPage)

theorem Quiet.page {f : Content} (h : Quiet f) : readPage f ≠ noValidPage := by
  intro hno
  obtain ⟨h0, h1⟩ := readPage_eq_noValidPage_iff.mp hno
  rcases h with ⟨-, h⟩ | ⟨h, -⟩
  · exact h1 h
  · exact h0 h

/-- With such status words `EE_Init` succeeds and leaves the area as it is. -/
theorem run_eeInit_quiet {w : World} (hok : w.HalOk) (h : Quiet w.flash) :
    ∃ w', eeInit.run w = .ok HalStatus.ok.toU16 w' ∧ SameArea w'.flash w.flash := by
  rcases h with ⟨h0, h1⟩ | ⟨h0, h1 | h1⟩
  · rw [run_eeInit hok, if_pos h0, if_pos h1]
    exact ⟨_, rfl, afterErase_sameArea hok _ page0Id_le⟩
  · exact ⟨_, run_eeInit_page0Valid hok h0 h1, afterErase_sameArea hok _ page1Id_le⟩
  · refine ⟨_, run_eeInit_bothValid hok h0 h1, (afterFormat_sameArea hok).trans ?_⟩
    intro a _
    rw [← h0, Function.update_eq_self]

/-! ## The interrupted write -/

/-- The flash operations a write issues. -/
def issued (w : World) (write : Write) : List Op :=
  (afterWrite w write).ops.drop w.ops.length

/-- Flash when power fails after `n` of these operations. -/
def crashed (w : World) (write : Write) (n : Nat) : Content :=
  applyOps ((issued w write).take n) w.flash

/-- Whenever power fails, once `EE_Init` has run every other variable reads as
before, and the written one as before or as written. -/
def SurvivesPowerLoss (w : World) (write : Write) : Prop :=
  ∀ (n : Nat) (w' : World),
    eeInit.run (World.boot (crashed w write n)) = .ok HalStatus.ok.toU16 w' →
      ∀ (virtAddress : VirtAddress) (old : HalfWord),
        readVariable w'.flash virtAddress old = readVariable w.flash virtAddress old ∨
          virtAddress = write.1 ∧ readVariable w'.flash virtAddress old = (0#16, write.2)

/-- Neither the write nor the next `EE_Init` starts a page transfer: the status
words are quiet, there is a free slot, and if it is the one that holds the status
of page 1, the write makes that status `VALID_PAGE`. -/
def Undisturbed (f : Content) (write : Write) : Prop :=
  Quiet f ∧ ∃ j, freeSlot f = some j ∧ (j = statusSlot → write.1.1 = validPage)

theorem issued_of_freeSlot {w : World} (h : Started w) {write : Write} {j : Nat}
    (hslot : freeSlot w.flash = some j) : issued w write = appendOps j write.1 write.2 := by
  rw [issued, (afterWrite_of_freeSlot write h hslot).2, append_ops, List.drop_left]

/-- What power can fail with: the old flash, a torn entry, or the whole entry. -/
theorem crashed_cases {w : World} (h : Started w) {write : Write} {j : Nat}
    (hslot : freeSlot w.flash = some j) (n : Nat) :
    crashed w write n = w.flash ∨ crashed w write n = tornFlash w.flash j write.2 ∨
      crashed w write n = appendFlash w.flash j write.1 write.2 := by
  have hfree := slotFree_of_freeSlot hslot
  rw [crashed, issued_of_freeSlot h hslot]
  match n with
  | 0 => exact Or.inl rfl
  | 1 => exact Or.inr (Or.inl (program_apply_of_erased (slotFree_iff.mp hfree).1 write.2))
  | n + 2 =>
      have htake : (appendOps j write.1.1 write.2).take (n + 2) = appendOps j write.1.1 write.2 := by
        rw [appendOps, List.take_succ_cons, List.take_succ_cons, List.take_nil]
      rw [htake]
      exact Or.inr (Or.inr (applyOps_appendOps hfree write.1 write.2))

/-- The entry leaves the status words quiet. -/
theorem quiet_appendFlash {f : Content} (h : Quiet f) {j : Nat} {virtAddress data : HalfWord}
    (hstatus : j = statusSlot → virtAddress = validPage) (hfree : slotFree f j = true) :
    Quiet (appendFlash f j virtAddress data) := by
  by_cases hj : j = statusSlot
  · subst hj
    -- The status of page 1 was erased, so page 0 is the valid one.
    have h1 : f page1BaseAddress = erased := by
      have hva := (slotFree_iff.mp hfree).2
      rwa [slotAddress_add_two_eq_page1Base.mpr rfl] at hva
    have h0 : f page0BaseAddress = validPage := by
      rcases h with ⟨-, h⟩ | ⟨h, -⟩
      · exact absurd (h1.symm.trans h) (by decide)
      · exact h
    exact Or.inr ⟨appendFlash_page0Base.trans h0,
      Or.inr (appendFlash_page1Base_statusSlot.trans (hstatus rfl))⟩
  · unfold Quiet
    rw [appendFlash_page0Base, appendFlash_page1Base hj]
    exact h

/-- An undisturbed write survives a power loss. -/
theorem survivesPowerLoss_of_undisturbed {w : World} (h : Started w) {write : Write}
    (hundisturbed : Undisturbed w.flash write) : SurvivesPowerLoss w write := by
  obtain ⟨hquiet, j, hslot, hstatus⟩ := hundisturbed
  have hfree := slotFree_of_freeSlot hslot
  intro n w' hinit virtAddress old
  -- `EE_Init` changes nothing, so the reads are those on the crashed flash.
  have hsame : Quiet (crashed w write n) →
      readVariable w'.flash virtAddress old =
        readVariable (crashed w write n) virtAddress old := by
    intro hcrashed
    obtain ⟨w'', hrun, harea⟩ :=
      run_eeInit_quiet (World.boot_halOk (crashed w write n)) hcrashed
    rw [hinit] at hrun
    rw [(EStateM.Result.ok.inj hrun).2]
    exact harea.readVariable virtAddress old
  rcases crashed_cases h hslot n with hcrash | hcrash | hcrash
  · rw [hcrash] at hsame
    exact Or.inl (hsame hquiet)
  · rw [hcrash] at hsame
    have hquiet' : Quiet (tornFlash w.flash j write.2) := by
      unfold Quiet
      rw [tornFlash_page0Base, tornFlash_page1Base]
      exact hquiet
    exact Or.inl ((hsame hquiet').trans (readVariable_tornFlash hfree virtAddress.2 old))
  · rw [hcrash] at hsame
    rw [hsame (quiet_appendFlash hquiet hstatus hfree)]
    by_cases hv : virtAddress = write.1
    · subst hv
      rw [readVariable_eq, readVariable_eq, readPage_appendFlash hfree h.page, if_neg h.page,
        if_neg h.page]
      by_cases hsight : InSight w.flash write.1 j
      · rw [stored_appendFlash_self hfree h.page hsight]
        exact Or.inr ⟨rfl, rfl⟩
      · rw [stored_appendFlash_of_not_inSight hfree h.page hsight]
        exact Or.inl rfl
    · have hne : virtAddress.1 ≠ write.1.1 := fun heq => hv (Subtype.ext heq)
      exact Or.inl (readVariable_appendFlash_of_ne hfree h.page virtAddress.2 hne old)

/-- In every state that `EE_Init` and any writes lead to, an undisturbed write
survives a power loss at any moment. -/
theorem survivesPowerLoss_afterWrites {f : Content} {w : World}
    (hinit : eeInit.run (World.boot f) = .ok HalStatus.ok.toU16 w) (writes : List Write)
    {write : Write} (hundisturbed : Undisturbed (afterWrites w writes).flash write) :
    SurvivesPowerLoss (afterWrites w writes) write :=
  survivesPowerLoss_of_undisturbed (started_afterWrites (started_of_eeInit hinit) writes)
    hundisturbed

/-- In a log in order every write below slot `0xFFF` is undisturbed. -/
theorem undisturbed_of_inOrder {f : Content} {n : Nat} (h : InOrder f n) (hn : n < statusSlot)
    (write : Write) : Undisturbed f write := by
  refine ⟨Or.inr ⟨h.status0, Or.inl h.status1⟩, n, h.freeSlot, ?_⟩
  intro hstatus
  exact absurd hstatus (Nat.ne_of_lt hn)

/-- The second write to a device whose first slot is used. -/
theorem survivesPowerLoss_secondSlotNext :
    SurvivesPowerLoss
      (afterWrites (World.boot secondSlotNext) [(⟨3#16, by decide⟩, 7#16)])
      (⟨3#16, by decide⟩, 8#16) :=
  survivesPowerLoss_afterWrites
    (run_eeInit_inOrder (World.boot_halOk _) inOrder_secondSlotNext) _
    (undisturbed_of_inOrder
      (inOrder_afterWrite (World.boot_halOk _) inOrder_secondSlotNext (by decide) _)
      (by decide) _)

/-! ## A transfer resumed into page 1 -/

/-- Marking page 1 valid makes slot `0xFFF` an entry for variable 0. -/
theorem stored_zero_of_page1Valid {f : Content} (h0 : f page0BaseAddress = validPage)
    (h1 : f page1BaseAddress = validPage) : stored f 0#16 ≠ none := by
  intro hnone
  rw [stored, SlotLog.lookup_eq_none_iff, readPage_eq, if_pos h0, firstSlot_page0] at hnone
  apply hnone statusSlot (by decide) (by decide)
  have haddr : slotAddress statusSlot + 2 = page1BaseAddress :=
    slotAddress_add_two_eq_page1Base.mpr rfl
  rw [slots, haddr]
  exact h1

/-- After a transfer resumed into page 1 variable 0 is found, whether or not it
was ever written. -/
theorem readVariable_zero_of_resumed {w w' : World} (hok : w.HalOk)
    (h0 : w.flash page0BaseAddress = validPage)
    (hreach : Relation.ReflTransGen AppendStep w w') (old : HalfWord) :
    (readVariable (afterErase (w'.issue (.program page1BaseAddress validPage))
      page0BaseAddress page0Id).flash 0#16 old).1 = 0#16 := by
  have hok' := (evolves_appendSteps hreach).halOk hok
  have hsame := afterErase_sameArea (hok'.issue (.program page1BaseAddress validPage))
    page0BaseAddress page0Id_le
  have hevolves := IsTrans.trans _ _ _ (evolves_appendSteps hreach)
    (evolves_issue w' (.program page1BaseAddress validPage) trivial)
  have h0' := hsame.page0Base.trans (hevolves.cleared hok (Nat.le_refl _) h0)
  have h1' : (w'.issue (.program page1BaseAddress validPage)).flash page1BaseAddress =
      validPage := by
    rw [World.issue_flash hok', Op.apply, Function.update_self, validPage, BitVec.and_zero]
  have hpage : readPage (afterErase (w'.issue (.program page1BaseAddress validPage))
      page0BaseAddress page0Id).flash ≠ noValidPage :=
    fun hno => (readPage_eq_noValidPage_iff.mp hno).1 h0'
  rw [readVariable_of_page hpage]
  cases hstored : stored (afterErase (w'.issue (.program page1BaseAddress validPage))
      page0BaseAddress page0Id).flash 0#16 with
  | none => exact absurd hstored (stored_zero_of_page1Valid h0' (hsame.page1Base.trans h1'))
  | some data => rfl

/-- Both status words `RECEIVE_DATA`, everything else erased. -/
def receivingBoth : Content :=
  Function.update (Function.update blank page0BaseAddress receiveData) page1BaseAddress receiveData

/-- `EE_Init` formats it, which marks page 0 valid and leaves page 1 receiving. -/
theorem run_eeInit_receivingBoth :
    ∃ w, eeInit.run (World.boot receivingBoth) = .ok HalStatus.ok.toU16 w ∧
      SameArea w.flash (Function.update receivingBoth page0BaseAddress validPage) := by
  have hok := World.boot_halOk receivingBoth
  have h0 : (World.boot receivingBoth).flash page0BaseAddress = receiveData := by
    rw [World.boot_flash, receivingBoth, Function.update_of_ne page0Base_ne_page1Base,
      Function.update_self]
  have h1 : (World.boot receivingBoth).flash page1BaseAddress = receiveData := by
    rw [World.boot_flash, receivingBoth, Function.update_self]
  refine ⟨afterFormat (World.boot receivingBoth), ?_, afterFormat_sameArea hok⟩
  rw [run_eeInit hok, h0, h1, if_neg receiveData_ne_erased, if_pos rfl,
    if_neg receiveData_ne_validPage, if_neg receiveData_ne_erased]

/-- The log in it holds nothing: no half-word is a virtual address. -/
theorem stored_receiving {f : Content}
    (h : SameArea f (Function.update receivingBoth page0BaseAddress validPage))
    {virtAddress : HalfWord} (hva : virtAddress.toNat < eepromSizeU16) :
    stored f virtAddress = none := by
  rw [stored, SlotLog.lookup_eq_none_iff, h.slots_eq]
  intro i _ _ hkey
  rw [slots, Function.update_of_ne (slotAddress_add_two_ne_page0Base i), receivingBoth] at hkey
  by_cases hi : i = statusSlot
  · rw [slotAddress_add_two_eq_page1Base.mpr hi, Function.update_self] at hkey
    have hreceive : receiveData = virtAddress := hkey
    rw [← hreceive] at hva
    exact absurd hva (by decide)
  · rw [Function.update_of_ne (fun heq => hi (slotAddress_add_two_eq_page1Base.mp heq)),
      Function.update_of_ne (slotAddress_add_two_ne_page0Base i)] at hkey
    exact erased_ne_virtAddress hva hkey

/-- Power fails before the first operation of a write: the transfer that `EE_Init`
then resumes makes variable 0 appear, which was never written. -/
theorem receivingBoth_not_survives :
    ¬ ∀ (f : Content) (w : World), eeInit.run (World.boot f) = .ok HalStatus.ok.toU16 w →
      ∀ (writes : List Write) (write : Write), EachStep afterWrite ReturnsOk w writes →
        SurvivesPowerLoss (afterWrites w writes) write := by
  intro hclaim
  obtain ⟨w, hinit, harea⟩ := run_eeInit_receivingBoth
  have h0 : w.flash page0BaseAddress = validPage := by
    rw [harea.page0Base, Function.update_self]
  have h1 : w.flash page1BaseAddress = receiveData := by
    rw [harea.page1Base, Function.update_of_ne page0Base_ne_page1Base.symm, receivingBoth,
      Function.update_self]
  have hpage : readPage w.flash ≠ noValidPage := fun hno =>
    (readPage_eq_noValidPage_iff.mp hno).1 h0
  have hok := World.boot_halOk w.flash
  have hres : Resumes (World.boot w.flash).flash page1BaseAddress page0BaseAddress page0Id :=
    .intoPage1 h0 (by rw [World.boot_flash, h1]; decide) (by rw [World.boot_flash, h1]; decide)
  have hcarried : carried (skipReceived page1BaseAddress) (World.boot w.flash).flash
      virtAddresses = 0 := by
    rw [World.boot_flash, carried, List.countP_eq_zero]
    intro virtAddress hmem
    simp [stored_receiving harea (mem_virtAddresses hmem)]
  obtain ⟨w', hreach, ⟨-, hrun⟩ | ⟨hlt, -⟩⟩ :=
    run_resumeTransfer hok hres.settled page1Base_add_four page0BaseAddress page0Id
  · -- The start-up after the power loss is the one that resumes the transfer.
    have hstart : eeInit.run (World.boot w.flash) = .ok HalStatus.ok.toU16
        (afterErase (w'.issue (.program page1BaseAddress validPage)) page0BaseAddress
          page0Id) := by
      rw [run_eeInit hok, World.boot_flash, h0, h1, if_neg (by decide), if_neg (by decide),
        if_pos rfl, if_neg (by decide), if_neg (by decide)]
      exact hrun
    have hfound := readVariable_zero_of_resumed hok h0 hreach 0#16
    have hread := hclaim receivingBoth w hinit [] (⟨5#16, by decide⟩, 7#16) trivial 0 _ hstart
      ⟨0#16, by decide⟩ 0#16
    rcases hread with hread | ⟨hva, -⟩
    · rw [hread, afterWrites, List.foldl_nil, readVariable_of_page hpage,
        stored_receiving harea (by decide)] at hfound
      exact absurd hfound (by decide)
    · exact absurd hva (by decide)
  · rw [hcarried] at hlt
    exact absurd hlt (Nat.not_lt_zero _)

end WindradLogger.Eeprom
