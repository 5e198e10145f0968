import WindradLogger.Eeprom.Interrupted
import WindradLogger.Eeprom.InOrder

set_option autoImplicit false

/-!
# What lies inside a page

Page `p` reaches from `EEPROM_START_ADDRESS + p * PAGE_SIZE` to its
`END_ADDRESS`.  Slot `0x7FFF` of a page has its data at the very end of the page
and its virtual address behind it, and the slot after that lies behind the page
altogether.  `EE_ReadVariable` looks at both of these first, and
`EE_VerifyPageFullWriteVariable` writes the former when all others are taken.
-/

namespace WindradLogger.Eeprom

open WindradLogger.Flash WindradLogger.Lib

/-- `PAGE0_END_ADDRESS` or `PAGE1_END_ADDRESS`. -/
def pageEndAddress (page : HalfWord) : Nat :=
  if page = page1 then page1EndAddress else page0EndAddress

/-- The half-word at `a` lies in a page. -/
def InPage (page : HalfWord) (a : Nat) : Prop :=
  eepromStartAddress + page.toNat * pageSize ≤ a ∧ a + 1 ≤ pageEndAddress page

/-- The slots of a page that lie in it with both half-words. -/
def wholeSlots : Nat := 0x7FFE

theorem slotsPerPage_eq : slotsPerPage = wholeSlots + 2 := rfl

section InPage

variable {page : HalfWord} (hpage : page = page0 ∨ page = page1)

include hpage

/-- The extent of a page in slots. -/
theorem inPage_iff {a : Nat} :
    InPage page a ↔ eepromStartAddress + 4 * firstSlot page ≤ a ∧
      a + 2 ≤ eepromStartAddress + 4 * (firstSlot page + slotsPerPage) := by
  have hstart : eepromStartAddress + page.toNat * pageSize =
      eepromStartAddress + 4 * firstSlot page := by
    rw [firstSlot, slotsPerPage, pageSize]
    omega
  have hend : pageEndAddress page + 1 =
      eepromStartAddress + 4 * (firstSlot page + slotsPerPage) := by
    rcases hpage with rfl | rfl
    · rfl
    · rfl
  rw [InPage, hstart, ← hend]
  omega

/-- The data of every slot of a page lies in it. -/
theorem inPage_slotAddress {j : Nat} (hlo : firstSlot page ≤ j)
    (hhi : j < firstSlot page + slotsPerPage) : InPage page (slotAddress j) := by
  rw [inPage_iff hpage, slotAddress]
  omega

/-- So does its virtual address, but for the last slot. -/
theorem inPage_slotAddress_add_two {j : Nat} (hlo : firstSlot page ≤ j)
    (hhi : j < firstSlot page + slotsPerPage) :
    InPage page (slotAddress j + 2) ↔ j ≠ firstSlot page + (wholeSlots + 1) := by
  rw [slotsPerPage_eq] at hhi
  rw [inPage_iff hpage, slotAddress, slotsPerPage_eq]
  omega

end InPage

/-! ## Reading -/

/-- The words that a scan looks at are all in flash exactly when it is page 0 that is
read: with page 1 it begins at `flashEnd + 2`. -/
theorem scan_insideFlash_iff {f : Content} (hpage : readPage f ≠ noValidPage) :
    (∀ j, firstSlot (readPage f) < j → j ≤ firstSlot (readPage f) + slotsPerPage →
      slotAddress j + 4 ≤ flashEnd) ↔ readPage f = page0 := by
  have hper : slotsPerPage = 0x8000 := rfl
  have hend : flashEnd = eepromStartAddress + 0x40000 := rfl
  constructor
  · intro hinside
    rcases readPage_cases hpage with h0 | h1
    · exact h0
    · rw [h1, firstSlot_page1] at hinside
      have htop := hinside (slotsPerPage + slotsPerPage) (by omega) (Nat.le_refl _)
      rw [slotAddress] at htop
      omega
  · intro h0 j _ hle
    rw [h0, firstSlot_page0] at hle
    rw [slotAddress]
    omega

/-- Two contents agree on the page status words and on the page that is read. -/
structure AgreeOnPage (f g : Content) : Prop where
  status0 : f page0BaseAddress = g page0BaseAddress
  status1 : f page1BaseAddress = g page1BaseAddress
  page : ∀ a, InPage (readPage f) a → f a = g a

/-- What the two slots that reach behind the page hold for a virtual address.
The reader looks at them first. -/
def pastEnd (f : Content) (virtAddress : HalfWord) : Option HalfWord :=
  SlotLog.lookup (slots f) (firstSlot (readPage f) + wholeSlots) virtAddress 2

/-- What the slots that lie in the page hold for a virtual address. -/
def withinPage (f : Content) (virtAddress : HalfWord) : Option HalfWord :=
  SlotLog.lookup (slots f) (firstSlot (readPage f)) virtAddress wholeSlots

theorem stored_eq_pastEnd_or (f : Content) (virtAddress : HalfWord) :
    stored f virtAddress = (pastEnd f virtAddress).or (withinPage f virtAddress) := by
  rw [stored, slotsPerPage_eq, SlotLog.lookup_add, pastEnd, withinPage]

/-- The slots behind the page decide alike in both contents: they hold the same,
or hold nothing in one of them and in the other what the page itself holds. -/
def PastEndAlike (f g : Content) (virtAddress : HalfWord) : Prop :=
  pastEnd f virtAddress = pastEnd g virtAddress ∨
    pastEnd f virtAddress = none ∧ pastEnd g virtAddress = withinPage f virtAddress ∨
    pastEnd g virtAddress = none ∧ pastEnd f virtAddress = withinPage f virtAddress

theorem or_eq_or_iff {α : Type} {x y r : Option α} :
    x.or r = y.or r ↔ x = y ∨ x = none ∧ y = r ∨ y = none ∧ x = r := by
  cases x with
  | none =>
      cases y with
      | none => simp
      | some b => simp [eq_comm]
  | some a =>
      cases y with
      | none => simp
      | some b => simp

section Agree

variable {f g : Content} (h : AgreeOnPage f g)

include h

theorem AgreeOnPage.readPage : readPage g = readPage f := by
  rw [readPage_eq, readPage_eq, h.status0, h.status1]

theorem AgreeOnPage.withinPage (hpage : Eeprom.readPage f ≠ noValidPage)
    (virtAddress : HalfWord) : withinPage g virtAddress = withinPage f virtAddress := by
  have hcases := readPage_cases hpage
  rw [Eeprom.withinPage, Eeprom.withinPage, h.readPage]
  refine SlotLog.lookup_congr fun j hlo hhi _ => ?_
  have hlast : j < firstSlot (Eeprom.readPage f) + slotsPerPage := by
    rw [slotsPerPage_eq]
    omega
  have hdata := h.page _ (inPage_slotAddress hcases (Nat.le_of_lt hlo) hlast)
  have hwhole : j ≠ firstSlot (Eeprom.readPage f) + (wholeSlots + 1) := by omega
  have hkey := h.page _
    ((inPage_slotAddress_add_two hcases (Nat.le_of_lt hlo) hlast).mpr hwhole)
  rw [slots, slots, hdata, hkey]

/-- A read gives the same on both contents exactly when the slots behind the page
decide alike. -/
theorem AgreeOnPage.readVariable_iff (virtAddress : HalfWord) :
    (∀ data, readVariable f virtAddress data = readVariable g virtAddress data) ↔
      (Eeprom.readPage f ≠ noValidPage → PastEndAlike f g virtAddress) := by
  rcases eq_or_ne (Eeprom.readPage f) noValidPage with hno | hpage
  · refine ⟨fun _ hne => absurd hno hne, fun _ data => ?_⟩
    rw [readVariable_eq, readVariable_eq, h.readPage, if_pos hno, if_pos hno]
  · have halike : PastEndAlike f g virtAddress ↔ stored f virtAddress = stored g virtAddress := by
      rw [stored_eq_pastEnd_or, stored_eq_pastEnd_or, h.withinPage hpage, or_eq_or_iff,
        PastEndAlike]
    have hpage' : Eeprom.readPage g ≠ noValidPage := h.readPage ▸ hpage
    simp only [readVariable_of_page hpage, readVariable_of_page hpage', halike, ne_eq, hpage,
      not_false_eq_true, forall_const]
    constructor
    · intro hsame
      exact readResult_inj (hsame 0#16)
    · intro hstored data
      rw [hstored]

end Agree

/-! ## Writing -/

/-- Every half-word in which `g` differs from `f` lies in the page that is written
in `f`, and is neither of the two page status words. -/
def ChangesInPage (f g : Content) : Prop :=
  ∀ a, g a ≠ f a → InPage (writePage f) a ∧ a ≠ page0BaseAddress ∧ a ≠ page1BaseAddress

/-- The next entry goes to the last slot of the page that is written, or to the
slot whose virtual address lies where page 1 has its status. -/
def WritesAcross (f : Content) : Prop :=
  writePage f ≠ noValidPage ∧ ∃ j, freeSlot f = some j ∧
    (j = firstSlot (writePage f) + (wholeSlots + 1) ∨ j = statusSlot)

theorem changesInPage_refl (f : Content) : ChangesInPage f f :=
  fun _ hne => absurd rfl hne

section Changes

variable {f : Content} (hpage : writePage f ≠ noValidPage) {j : Nat}
  (hslot : freeSlot f = some j)

include hpage hslot

theorem inPage_freeSlot : InPage (writePage f) (slotAddress j) := by
  obtain ⟨_, hlo, hhi, _⟩ := freeSlot_eq_some_iff.mp hslot
  exact inPage_slotAddress (writePage_cases hpage) hlo hhi

theorem inPage_freeSlot_add_two :
    InPage (writePage f) (slotAddress j + 2) ↔ j ≠ firstSlot (writePage f) + (wholeSlots + 1) := by
  obtain ⟨_, hlo, hhi, _⟩ := freeSlot_eq_some_iff.mp hslot
  exact inPage_slotAddress_add_two (writePage_cases hpage) hlo hhi

theorem changesInPage_tornFlash (data : HalfWord) : ChangesInPage f (tornFlash f j data) := by
  intro a hne
  have ha : a = slotAddress j := by
    by_contra ha
    exact hne (tornFlash_of_ne ha)
  rw [ha]
  exact ⟨inPage_freeSlot hpage hslot, slotAddress_ne_page0Base j, slotAddress_ne_page1Base j⟩

/-- The virtual address is always a change, since no variable has the address
`0xFFFF`; whether it stays in the page depends on the slot alone. -/
theorem changesInPage_appendFlash_iff {virtAddress : HalfWord}
    (hva : virtAddress.toNat < eepromSizeU16) (data : HalfWord) :
    ChangesInPage f (appendFlash f j virtAddress data) ↔
      ¬ (j = firstSlot (writePage f) + (wholeSlots + 1) ∨ j = statusSlot) := by
  rw [not_or]
  constructor
  · intro h
    have hkey : appendFlash f j virtAddress data (slotAddress j + 2) ≠ f (slotAddress j + 2) := by
      rw [appendFlash, Function.update_self, (slotFree_iff.mp (slotFree_of_freeSlot hslot)).2]
      exact (erased_ne_virtAddress hva).symm
    obtain ⟨hin, _, hne⟩ := h _ hkey
    exact ⟨(inPage_freeSlot_add_two hpage hslot).mp hin,
      fun hj => hne (slotAddress_add_two_eq_page1Base.mpr hj)⟩
  · rintro ⟨hlast, hstatus⟩ a hne
    rcases eq_or_ne a (slotAddress j) with rfl | hdata
    · exact ⟨inPage_freeSlot hpage hslot, slotAddress_ne_page0Base j, slotAddress_ne_page1Base j⟩
    · have ha : a = slotAddress j + 2 := by
        by_contra ha
        exact hne (appendFlash_of_ne hdata ha)
      rw [ha]
      exact ⟨(inPage_freeSlot_add_two hpage hslot).mpr hlast, slotAddress_add_two_ne_page0Base j,
        fun hj => hstatus (slotAddress_add_two_eq_page1Base.mp hj)⟩

end Changes

/-- A call changes half-words of its page alone unless it completes an entry whose
virtual address lies elsewhere. -/
theorem changesInPage_verifyWrite_iff (w : World) {virtAddress : HalfWord}
    (hva : virtAddress.toNat < eepromSizeU16) (data : HalfWord) :
    ∃ status w', (eeVerifyPageFullWriteVariable virtAddress data).run w = .ok status w' ∧
      (ChangesInPage w.flash w'.flash ↔ ¬ (WritesAcross w.flash ∧ w.HalOkFor 2)) := by
  rw [run_eeVerifyPageFullWriteVariable_any w hva data]
  split
  · rename_i hno
    exact ⟨_, _, rfl, iff_of_true (changesInPage_refl _) fun h => h.1.1 hno⟩
  · rename_i hpage
    cases hslot : freeSlot w.flash with
    | none =>
        refine ⟨_, _, rfl, iff_of_true (changesInPage_refl _) ?_⟩
        rintro ⟨⟨_, j, hj, _⟩, _⟩
        rw [hslot] at hj
        cases hj
    | some j =>
        have hfree := slotFree_of_freeSlot hslot
        have hcalls := halOkFor_append w j virtAddress data (n := 0)
        rcases eq_or_ne (w.hal w.ops.length) .ok with hfirst | hfirst
        · simp only [if_pos hfirst]
          refine ⟨_, _, rfl, ?_⟩
          rcases eq_or_ne (w.hal (w.ops.length + 1)) .ok with hsecond | hsecond
          · have hok : w.HalOkFor 2 := hcalls.mpr ⟨hfirst, hsecond, World.halOkFor_zero _⟩
            rw [append_flash_of_ok hfree hfirst hsecond,
              changesInPage_appendFlash_iff hpage hslot hva]
            simp [WritesAcross, hpage, hslot, hok]
          · rw [append_flash_of_ne_ok hfree hfirst hsecond]
            exact iff_of_true (changesInPage_tornFlash hpage hslot data)
              fun h => hsecond (hcalls.mp h.2).2.1
        · simp only [if_neg hfirst]
          refine ⟨_, _, rfl, ?_⟩
          rw [World.issue_flash_of_ne_ok hfirst]
          exact iff_of_true (changesInPage_refl _) fun h => hfirst (hcalls.mp h.2).1

/-! ## Both accesses -/

/-- A read depends on its page alone exactly when the slots behind the page decide
alike; a write changes its page alone unless it completes an entry in the last
slot of the page or in the slot where page 1 has its status. -/
theorem pageAccess_iff (w : World) {virtAddress : HalfWord}
    (hva : virtAddress.toNat < eepromSizeU16) (data : HalfWord) :
    (∀ g, AgreeOnPage w.flash g →
      ((∀ old, readVariable w.flash virtAddress old = readVariable g virtAddress old) ↔
        (readPage w.flash ≠ noValidPage → PastEndAlike w.flash g virtAddress))) ∧
    ∃ status w', (eeVerifyPageFullWriteVariable virtAddress data).run w = .ok status w' ∧
      (ChangesInPage w.flash w'.flash ↔ ¬ (WritesAcross w.flash ∧ w.HalOkFor 2)) :=
  ⟨fun _ h => h.readVariable_iff virtAddress, changesInPage_verifyWrite_iff w hva data⟩

/-- The device `EE_Init` makes of a blank one, with an entry in the slot behind
page 0. -/
def entryBehind : Content := appendFlash blankStarted.flash slotsPerPage 1#16 7#16

theorem agreeOnPage_entryBehind : AgreeOnPage blankStarted.flash entryBehind where
  status0 := appendFlash_page0Base.symm
  status1 := (appendFlash_page1Base (by decide)).symm
  page := by
    intro a hin
    rw [inOrder_blankStarted.readPage] at hin
    have hend : a + 1 ≤ page0EndAddress := hin.2
    have hslot : slotAddress slotsPerPage = page0EndAddress + 3 := rfl
    exact (appendFlash_of_ne (by omega) (by omega)).symm

/-- Page 0 is valid and full up to the slot where page 1 has its status. -/
def filledToStatus : Content := fun a => if a + 2 < page1BaseAddress then 0#16 else 0xFFFF#16

theorem freeSlot_filledToStatus : freeSlot filledToStatus = some statusSlot := by
  have hwrite : writePage filledToStatus = page0 := writePage_page0Valid rfl rfl
  rw [freeSlot_eq_some_iff, hwrite]
  refine ⟨rfl, Nat.zero_le _, by decide, fun i _ hi => ?_⟩
  have hused : filledToStatus (slotAddress i) = 0#16 := by
    refine if_pos ?_
    rw [statusSlot] at hi
    rw [slotAddress_eq, page1BaseAddress_eq]
    omega
  simp [slotFree, hused]

/-- Two contents that agree on page 0 read differently, and an append overwrites
the status of page 1. -/
theorem not_pageAccess :
    (AgreeOnPage blankStarted.flash entryBehind ∧
      readVariable blankStarted.flash 1#16 0#16 = (1#16, 0#16) ∧
      readVariable entryBehind 1#16 0#16 = (0#16, 7#16)) ∧
    ∃ status w', (eeVerifyPageFullWriteVariable 1#16 5#16).run (World.boot filledToStatus) =
        .ok status w' ∧ ¬ ChangesInPage filledToStatus w'.flash := by
  have hblank := inOrder_blankStarted
  have hva : (1#16 : HalfWord).toNat < eepromSizeU16 := by decide
  refine ⟨⟨agreeOnPage_entryBehind, ?_, ?_⟩, ?_⟩
  · rw [readVariable_of_page hblank.page, hblank.stored_eq_none (Nat.zero_le 1) hva, readResult]
  · have hpage : readPage entryBehind ≠ noValidPage := by
      rw [agreeOnPage_entryBehind.readPage]
      exact hblank.page
    have hfree : slotFree blankStarted.flash slotsPerPage = true :=
      hblank.blank _ (Nat.zero_le _) (Nat.le_refl _)
    have hsight : InSight blankStarted.flash 1#16 slotsPerPage := by
      rw [InSight, hblank.readPage, firstSlot_page0]
      refine ⟨by decide, Nat.le_add_left _ _, fun i hi hle => ?_⟩
      rw [Nat.zero_add] at hle
      exact absurd hi (Nat.not_lt.mpr hle)
    rw [readVariable_of_page hpage, entryBehind, stored_appendFlash_self hfree hblank.page hsight,
      readResult]
  · obtain ⟨status, w', hrun, hiff⟩ :=
      changesInPage_verifyWrite_iff (World.boot filledToStatus) hva 5#16
    refine ⟨status, w', hrun, fun hin => hiff.mp hin ⟨⟨?_, statusSlot, ?_, Or.inr rfl⟩, ?_⟩⟩
    · rw [World.boot_flash, writePage_page0Valid rfl rfl]
      exact page0_ne_noValidPage
    · exact freeSlot_filledToStatus
    · exact (World.boot_halOk _).halOkFor 2

/-- An entry for variable 1 behind an empty page 0 does not matter to variable 2,
and the first entry written stays in the page. -/
theorem pageAccess_iff_blankStarted :
    (∀ old, readVariable blankStarted.flash 2#16 old = readVariable entryBehind 2#16 old) ∧
    ∃ status w', (eeVerifyPageFullWriteVariable 2#16 5#16).run blankStarted = .ok status w' ∧
      ChangesInPage blankStarted.flash w'.flash := by
  have hva : (2#16 : HalfWord).toNat < eepromSizeU16 := by decide
  obtain ⟨hread, status, w', hrun, hwrite⟩ := pageAccess_iff blankStarted hva 5#16
  have hblank := inOrder_blankStarted
  refine ⟨(hread _ agreeOnPage_entryBehind).mpr fun _ => Or.inl ?_, status, w', hrun,
    hwrite.mpr ?_⟩
  · rw [pastEnd, pastEnd, agreeOnPage_entryBehind.readPage, entryBehind, slots_appendFlash]
    refine (SlotLog.lookup_put_of_ne (by decide) ?_).symm
    rw [hblank.slots_blank (Nat.zero_le _) (Nat.le_refl _)]
    exact erased_ne_virtAddress hva
  · rintro ⟨⟨_, j, hj, hbad⟩, _⟩
    rw [hblank.freeSlot] at hj
    cases hj
    rw [hblank.writePage] at hbad
    revert hbad
    decide

end WindradLogger.Eeprom
