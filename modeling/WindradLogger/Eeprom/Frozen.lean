import WindradLogger.Eeprom.Life
import WindradLogger.Eeprom.Compaction

set_option autoImplicit false

/-!
# The first page transfer is the last change

A page transfer that returns `HAL_OK` leaves both pages valid.  Reads then go to
page 0 and writes to page 1.  The windows of reader and writer share one slot,
the first one of page 1, and the transfer has seen to it that this slot is taken.
-/

namespace WindradLogger.Eeprom

open WindradLogger.Flash WindradLogger.Lib

/-- Both pages are valid, and the slot that the reader of page 0 shares with the
writer of page 1 is taken. -/
structure Frozen (f : Content) : Prop where
  page0 : f page0BaseAddress = validPage
  page1 : f page1BaseAddress = validPage
  shared : slotFree f slotsPerPage = false

section Frozen

variable {f : Content}

theorem Frozen.readPage (h : Frozen f) : readPage f = Eeprom.page0 := by
  rw [readPage_eq, if_pos h.page0]

theorem Frozen.writePage (h : Frozen f) : writePage f = Eeprom.page1 := by
  rw [writePage_eq, if_pos h.page1, h.page0, if_neg receiveData_ne_validPage.symm]

/-- The writer takes slots that the reader does not look at. -/
theorem Frozen.lt_freeSlot (h : Frozen f) {j : Nat} (hslot : freeSlot f = some j) :
    slotsPerPage < j := by
  obtain ⟨hfree, hlo, _⟩ := freeSlot_eq_some_iff.mp hslot
  rw [h.writePage] at hlo
  refine Nat.lt_of_le_of_ne hlo fun heq => ?_
  rw [← heq] at hfree
  exact Bool.false_ne_true (h.shared.symm.trans hfree)

end Frozen

/-- If the store was frozen it still is, with the same entries in sight of the reader. -/
def KeepsFrozen (f g : Content) : Prop :=
  Frozen f → Frozen g ∧ ∀ j, j ≤ slotsPerPage → slots g j = slots f j

instance : Std.Refl KeepsFrozen where
  refl _ h := ⟨h, fun _ _ => rfl⟩

instance : IsTrans Content KeepsFrozen where
  trans _ _ _ hfg hgk h := by
    obtain ⟨hg, hsame⟩ := hfg h
    obtain ⟨hk, hsame'⟩ := hgk hg
    exact ⟨hk, fun j hj => (hsame' j hj).trans (hsame j hj)⟩

/-- A change outside the status words and the slots in sight. -/
theorem keepsFrozen_of_above {f g : Content} {j : Nat}
    (hslots : ∀ i, i ≠ j → slots g i = slots f i)
    (h0 : g page0BaseAddress = f page0BaseAddress)
    (h1 : j ≠ statusSlot → g page1BaseAddress = f page1BaseAddress)
    (hslot : freeSlot f = some j) : KeepsFrozen f g := by
  intro h
  have hlt := h.lt_freeSlot hslot
  have hstatus : j ≠ statusSlot := by
    rintro rfl
    exact absurd hlt (by decide)
  have hsame : ∀ i, i ≤ slotsPerPage → slots g i = slots f i := fun i hi =>
    hslots i (Nat.ne_of_lt (Nat.lt_of_le_of_lt hi hlt))
  refine ⟨⟨h0.trans h.page0, (h1 hstatus).trans h.page1, ?_⟩, hsame⟩
  have hshared := h.shared
  have hentry := hsame slotsPerPage (Nat.le_refl _)
  rw [slots, slots, Prod.mk.injEq] at hentry
  rw [slotFree, hentry.1, hentry.2]
  exact hshared

/-- A status word that is `VALID_PAGE` cannot be changed, the sectors that are erased
are others, and entries go to slots out of sight. -/
theorem stepsChange_keepsFrozen : StepsChange KeepsFrozen where
  mark f address status haddress h := by
    have hclear : f address = 0#16 := by
      rcases haddress with rfl | rfl
      · exact h.page0
      · exact h.page1
    have hsame : (Op.program address status).apply f = f := by
      rw [Op.apply, hclear, BitVec.zero_and, ← hclear, Function.update_eq_self]
    rw [hsame]
    exact ⟨h, fun _ _ => rfl⟩
  erase f sector hsector h := by
    have hsame := sameArea_of_sector f hsector
    have hslots := hsame.slots_eq
    refine ⟨⟨hsame.page0Base.trans h.page0, hsame.page1Base.trans h.page1, ?_⟩, fun j _ => ?_⟩
    · have hentry := congrFun hslots slotsPerPage
      rw [slots, slots, Prod.mk.injEq] at hentry
      rw [slotFree, hentry.1, hentry.2]
      exact h.shared
    · rw [hslots]
  torn {f j} data _ hslot := by
    refine keepsFrozen_of_above (fun i hi => ?_) tornFlash_page0Base
      (fun _ => tornFlash_page1Base) hslot
    rw [slots_tornFlash, SlotLog.put, Function.update_of_ne hi]
  append {f j virtAddress} data _ _ hslot := by
    refine keepsFrozen_of_above (fun i hi => ?_) appendFlash_page0Base
      appendFlash_page1Base hslot
    rw [slots_appendFlash, SlotLog.put, Function.update_of_ne hi]

/-- The entries in sight decide what is read. -/
theorem KeepsFrozen.readVariable {f g : Content} (h : KeepsFrozen f g) (hf : Frozen f)
    (virtAddress old : HalfWord) :
    readVariable g virtAddress old = readVariable f virtAddress old := by
  obtain ⟨hg, hsame⟩ := h hf
  have hstored : stored g virtAddress = stored f virtAddress := by
    rw [stored, stored, hg.readPage, hf.readPage, firstSlot_page0]
    refine SlotLog.lookup_congr fun j _ hj _ => hsame j ?_
    rwa [Nat.zero_add] at hj
  rw [readVariable_eq, readVariable_eq, hg.readPage, hf.readPage, hstored]

/-! ## The transfer -/

section Transfer

variable {w w' : World} {virtAddress data : HalfWord}

/-- The last operation of a transfer marks the new page. -/
theorem newPage_of_restOfTransfer {newPageAddress oldPageId : Nat}
    {skip : Content → HalfWord → Bool}
    (hrun : (do
      let eepromStatus ← transferLoop skip virtAddresses
      if eepromStatus ≠ HalStatus.ok.toU16 then return eepromStatus
      let flashStatus ← halFlashExErase oldPageId
      if flashStatus ≠ .ok then return flashStatus.toU16
      let flashStatus ← halFlashProgram newPageAddress validPage
      return flashStatus.toU16 : Mcu HalfWord).run w = .ok HalStatus.ok.toU16 w') :
    w'.flash newPageAddress = validPage := by
  obtain ⟨status, u, _, hafterLoop⟩ := run_bind_eq_ok.mp hrun
  split at hafterLoop
  · rename_i hne
    injection hafterLoop with hstatus
    exact absurd hstatus hne
  · obtain ⟨erasing, v, _, hafterErase⟩ := run_bind_eq_ok.mp hafterLoop
    split at hafterErase
    · rename_i hne
      injection hafterErase with hstatus
      exact absurd hstatus (HalStatus.toU16_ne_ok hne)
    · obtain ⟨marking, v', hmark, hlast⟩ := run_bind_eq_ok.mp hafterErase
      cases hmark
      injection hlast with hstatus hworld
      have hok : v.hal v.ops.length = .ok := by
        by_contra hne
        exact HalStatus.toU16_ne_ok hne hstatus
      rw [← hworld, World.issue_flash_of_ok hok, Op.apply, Function.update_self]
      exact BitVec.and_zero

/-- The slot shared by reader and writer is taken when a transfer from a full page has
succeeded: it was taken before, or the first entry of the new page went there. -/
theorem shared_of_transfer (hva : virtAddress.toNat < eepromSizeU16)
    (hpage : writePage w.flash ≠ noValidPage) (hfull : freeSlot w.flash = none)
    (hrun : (eePageTransferTo (newPageAddress w.flash) (oldPageId w.flash) virtAddress data).run w =
      .ok HalStatus.ok.toU16 w') : slotFree w'.flash slotsPerPage = false := by
  by_contra hshared
  rw [Bool.not_eq_false] at hshared
  obtain ⟨v, hmarked, happend, happended, hcopied⟩ := stepsChange_keepsUsed.parts_of_transfer
    (newPageAddress_cases _) (oldPageId_cases _) hrun
  have hfreeMarked := happended _ (hcopied _ hshared)
  have hused : ∀ i, firstSlot (writePage w.flash) ≤ i →
      i < firstSlot (writePage w.flash) + slotsPerPage → slotFree w.flash i = false :=
    SlotLog.firstFree_eq_none_iff.mp hfull
  -- The full page is page 0: page 1 has a free slot.
  have hfullPage : writePage w.flash = page0 := by
    rcases writePage_cases hpage with h0 | h1
    · exact h0
    · rw [h1, firstSlot_page1] at hused
      have htaken := hused slotsPerPage (Nat.le_refl _) (by decide)
      exact absurd (hmarked _ hfreeMarked) (Bool.eq_false_iff.mp htaken)
  rw [hfullPage, firstSlot_page0] at hused
  obtain ⟨j, hpageMarked, hslot, hflash⟩ := append_of_ok hva happend
  obtain ⟨hfree, hlo, hhi, hfirst⟩ := freeSlot_eq_some_iff.mp hslot
  rcases writePage_cases hpageMarked with h0 | h1
  · rw [h0, firstSlot_page0] at hlo hhi
    exact absurd (hmarked j hfree) (Bool.eq_false_iff.mp (hused j hlo hhi))
  · rw [h1, firstSlot_page1] at hlo hfirst
    have hj : j = slotsPerPage := by
      refine Nat.le_antisymm (Nat.le_of_not_lt fun hlt => ?_) hlo
      exact absurd hfreeMarked (Bool.eq_false_iff.mp (hfirst slotsPerPage (Nat.le_refl _) hlt))
    have hfreeAfter := hcopied _ hshared
    rw [hflash, hj, slotFree_appendFlash_self hva] at hfreeAfter
    cases hfreeAfter

/-- The page that is read has `VALID_PAGE` as its status. -/
theorem oldPage_valid {f : Content} (hread : readPage f ≠ noValidPage) :
    f (oldPageAddress f) = validPage := by
  rw [oldPageAddress]
  by_cases h0 : f page0BaseAddress = validPage
  · rw [readPage_eq, if_pos h0, if_neg page0_ne_page1]
    exact h0
  · have h1 : f page1BaseAddress = validPage := by
      by_contra h1
      exact hread (readPage_eq_noValidPage_iff.mpr ⟨h0, h1⟩)
    rw [readPage_eq, if_neg h0, if_pos h1, if_pos rfl]
    exact h1

/-- A transfer from a full page that returns `HAL_OK` freezes the store. -/
theorem frozen_of_transfer (hva : virtAddress.toNat < eepromSizeU16)
    (hpage : writePage w.flash ≠ noValidPage) (hfull : freeSlot w.flash = none)
    (hrun : (eePageTransferTo (newPageAddress w.flash) (oldPageId w.flash) virtAddress data).run w =
      .ok HalStatus.ok.toU16 w') : Frozen w'.flash := by
  have hread := writePage_ne_noValidPage_iff.mp hpage
  have hshared := shared_of_transfer hva hpage hfull hrun
  have hnew : w'.flash (newPageAddress w.flash) = validPage := by
    obtain ⟨_, v, _, hrest⟩ := eePageTransferTo_of_ok hrun
    exact newPage_of_restOfTransfer hrest
  have hold : w'.flash (oldPageAddress w.flash) = validPage := by
    obtain ⟨status, v, hrun', hout⟩ := run_eePageTransfer_any hva data hread
    rw [run_eePageTransfer_eq hva data hread, hrun] at hrun'
    injection hrun' with hstatus hworld
    subst hstatus hworld
    cases hout with
    | done _ _ hreach =>
        exact finishTransfer_of_cleared hreach (start_le_oldPageAddress _) (oldPage_valid hread)
    | cut _ _ hne => exact absurd rfl hne
  rcases readPage_cases hread with h0 | h1
  · rw [newPageAddress, h0, if_neg page0_ne_page1] at hnew
    rw [oldPageAddress, h0, if_neg page0_ne_page1] at hold
    exact ⟨hold, hnew, hshared⟩
  · rw [newPageAddress, h1, if_pos rfl] at hnew
    rw [oldPageAddress, h1, if_pos rfl] at hold
    exact ⟨hnew, hold, hshared⟩

end Transfer

/-- From the first write on that finds its page full and nevertheless returns `HAL_OK`,
`EE_ReadVariable` gives the same result for every variable for the rest of the
device's life, whatever is written, however often the device restarts, and wherever
power or the HAL fails. -/
theorem transfer_freezes {w w' : World} {virtAddress data : HalfWord}
    (hva : virtAddress.toNat < eepromSizeU16) (hfull : freeSlot w.flash = none)
    (hrun : (eeWriteVariable virtAddress data).run w = .ok HalStatus.ok.toU16 w')
    (life : List LifeEvent) (other old : HalfWord) :
    readVariable (afterLife w' life).flash other old = readVariable w'.flash other old := by
  have hfrozen : Frozen w'.flash := by
    rcases eeWriteVariable_of_ok hva hrun with happend | ⟨hpage, _, htransfer⟩
    · obtain ⟨j, _, hslot, _⟩ := append_of_ok hva happend
      rw [hfull] at hslot
      cases hslot
    · exact frozen_of_transfer hva hpage hfull htransfer
  exact (stepsChange_keepsFrozen.afterLife w' life).readVariable hfrozen other old

/-- Page 0 is full of zeros; after the transfer the device loses power in the middle of
one write, starts again and writes once more. -/
theorem transfer_freezes_zeros :
    ∃ w', (eeWriteVariable 1#16 5#16).run (World.boot zerosInPage0) =
        .ok HalStatus.ok.toU16 w' ∧
      readVariable (afterLife w' [.powerLoss (.write (⟨1#16, by decide⟩, 6#16)) 1 fun _ => .ok,
        .call .init, .call (.write (⟨1#16, by decide⟩, 7#16))]).flash 1#16 0#16 =
          readVariable w'.flash 1#16 0#16 := by
  have hva : (1#16 : HalfWord).toNat < eepromSizeU16 := by decide
  have hok := World.boot_halOk zerosInPage0
  have hread : readPage (World.boot zerosInPage0).flash ≠ noValidPage := oneValid_zerosInPage0.page
  have hfull : freeSlot (World.boot zerosInPage0).flash = none := freeSlot_zerosInPage0
  obtain ⟨w', hrun⟩ := (transfer_returns_ok_iff hread hva 5#16).mpr
    ⟨transferFits_zerosInPage0 1#16, hok.halOkFor _⟩
  rw [← run_eeWriteVariable_of_full hok hva 5#16 (writePage_ne_noValidPage_iff.mpr hread)
    hfull] at hrun
  exact ⟨w', hrun, transfer_freezes hva hfull hrun _ 1#16 0#16⟩

end WindradLogger.Eeprom
