import WindradLogger.Eeprom.Emulation
import WindradLogger.Lib.SlotLog

set_option autoImplicit false

/-!
# The emulation area as a slot log

Writer and reader walk the emulation area in steps of four bytes, from two bytes
above `EEPROM_START_ADDRESS`.  Numbering these words from the start of the area
gives one sequence of slots for both pages: slot `j` has its data half-word at
`slotAddress j` and its virtual address two bytes above.

In these numbers page `p` is written in the slots `p * 0x8000, …,
p * 0x8000 + 0x7FFF` and read from `p * 0x8000 + 0x8000` down to
`p * 0x8000 + 1`.  The two ranges differ by one slot at either end.
-/

namespace WindradLogger.Eeprom

open WindradLogger.Flash WindradLogger.Lib

/-- Address of the data half-word of slot `j`. -/
def slotAddress (j : Nat) : Nat := eepromStartAddress + 2 + 4 * j

/-- Slots in a page. -/
def slotsPerPage : Nat := 0x8000

/-- First slot of a page. -/
def firstSlot (page : HalfWord) : Nat := page.toNat * slotsPerPage

/-- The log held in flash: virtual address and data of every slot. -/
def slots (f : Content) : SlotLog HalfWord HalfWord := fun j =>
  (f (slotAddress j + 2), f (slotAddress j))

/-- A slot the writer takes for free. -/
def slotFree (f : Content) (j : Nat) : Bool :=
  f (slotAddress j) = 0xFFFF#16 ∧ f (slotAddress j + 2) = 0xFFFF#16

theorem slotFree_iff {f : Content} {j : Nat} :
    slotFree f j = true ↔ f (slotAddress j) = 0xFFFF#16 ∧ f (slotAddress j + 2) = 0xFFFF#16 := by
  simp [slotFree]

/-- The page that is read. -/
def readPage (f : Content) : HalfWord := eeFindValidPage f readFromValidPage

/-- The page that is written. -/
def writePage (f : Content) : HalfWord := eeFindValidPage f writeInValidPage

theorem eeFindValidPage_read (f : Content) :
    eeFindValidPage f readFromValidPage = readPage f := rfl

theorem eeFindValidPage_write (f : Content) :
    eeFindValidPage f writeInValidPage = writePage f := rfl

/-- The slot the next entry goes to. -/
def freeSlot (f : Content) : Option Nat :=
  SlotLog.firstFree (slotFree f) (firstSlot (writePage f)) slotsPerPage

/-- The data the page that is read holds for a virtual address. -/
def stored (f : Content) (virtAddress : HalfWord) : Option HalfWord :=
  SlotLog.lookup (slots f) (firstSlot (readPage f)) virtAddress slotsPerPage

/-! ## Addresses -/

theorem slotAddress_eq (j : Nat) : slotAddress j = 0x080C0002 + 4 * j := rfl
theorem eepromStartAddress_eq : eepromStartAddress = 0x080C0000 := rfl
theorem page0BaseAddress_eq : page0BaseAddress = 0x080C0000 := rfl
theorem page1BaseAddress_eq : page1BaseAddress = 0x080C4000 := rfl

theorem start_le_slotAddress (j : Nat) : eepromStartAddress ≤ slotAddress j := by
  rw [slotAddress_eq, eepromStartAddress_eq]
  omega

theorem slotAddress_inj {i j : Nat} : slotAddress i = slotAddress j ↔ i = j := by
  rw [slotAddress_eq, slotAddress_eq]
  omega

theorem slotAddress_ne_add_two (i j : Nat) : slotAddress i ≠ slotAddress j + 2 := by
  rw [slotAddress_eq, slotAddress_eq]
  omega

theorem slotAddress_ne_page0Base (j : Nat) : slotAddress j ≠ page0BaseAddress := by
  rw [slotAddress_eq, page0BaseAddress_eq]
  omega

theorem slotAddress_add_two_ne_page0Base (j : Nat) : slotAddress j + 2 ≠ page0BaseAddress := by
  rw [slotAddress_eq, page0BaseAddress_eq]
  omega

theorem slotAddress_ne_page1Base (j : Nat) : slotAddress j ≠ page1BaseAddress := by
  rw [slotAddress_eq, page1BaseAddress_eq]
  omega

/-- The slot of page 0 whose virtual address lies where page 1 has its status. -/
def statusSlot : Nat := 0xFFF

theorem slotAddress_add_two_eq_page1Base {j : Nat} :
    slotAddress j + 2 = page1BaseAddress ↔ j = statusSlot := by
  rw [slotAddress_eq, page1BaseAddress_eq, statusSlot]
  omega

/-! ## The two loops -/

theorem eeReadVariableLoop_eq (f : Content) (virtAddress : HalfWord) (lo n : Nat) :
    eeReadVariableLoop f virtAddress (eepromStartAddress + 4 * lo) (slotAddress (lo + n)) =
      SlotLog.lookup (slots f) lo virtAddress n := by
  induction n with
  | zero =>
      rw [eeReadVariableLoop, if_neg (by simp only [slotAddress]; omega)]
      rfl
  | succ n ih =>
      have hprev : slotAddress (lo + (n + 1)) - 4 = slotAddress (lo + n) := by
        simp only [slotAddress]
        omega
      rw [eeReadVariableLoop, if_pos (by simp only [slotAddress]; omega)]
      simp only [readWord_high, readWord_low, hprev, ih, SlotLog.lookup, slots]
      rfl

theorem freeSlotLoop_eq (f : Content) (lo n : Nat) :
    freeSlotLoop f (slotAddress lo) (eepromStartAddress - 1 + 4 * (lo + n)) =
      (SlotLog.firstFree (slotFree f) lo n).map slotAddress := by
  have hstart : eepromStartAddress = 0x080C0000 := rfl
  induction n generalizing lo with
  | zero =>
      rw [freeSlotLoop, if_neg (by simp only [slotAddress]; omega)]
      rfl
  | succ n ih =>
      have hnext : slotAddress lo + 4 = slotAddress (lo + 1) := by
        simp only [slotAddress]
        omega
      have hend : lo + (n + 1) = lo + 1 + n := by omega
      rw [freeSlotLoop, if_pos (by simp only [slotAddress]; omega),
        SlotLog.firstFree_succ, hnext, hend, ih (lo + 1)]
      by_cases hfree : slotFree f lo = true
      · rw [if_pos ((readWord_eq_ones_iff f _).mpr (slotFree_iff.mp hfree)), if_pos hfree]
        rfl
      · rw [if_neg (fun h => hfree (slotFree_iff.mpr ((readWord_eq_ones_iff f _).mp h))),
          if_neg hfree]

/-- `EE_VerifyPageFullWriteVariable` writes at the first free slot of the page. -/
theorem nextFreeSlot_eq (f : Content) : nextFreeSlot f = (freeSlot f).map slotAddress := by
  rw [freeSlot, ← freeSlotLoop_eq]
  have hlo : eepromStartAddress + 2 + (writePage f).toNat * pageSize =
      slotAddress (firstSlot (writePage f)) := by
    simp only [firstSlot, slotsPerPage, slotAddress, pageSize]
    omega
  have hhi : (eepromStartAddress - 1) + ((writePage f).toNat + 1) * pageSize =
      eepromStartAddress - 1 + 4 * (firstSlot (writePage f) + slotsPerPage) := by
    simp only [firstSlot, slotsPerPage, pageSize]
    omega
  rw [← hlo, ← hhi]
  rfl

/-- Status and `*Data` after a search that began with `data` in `*Data`. -/
def readResult (data : HalfWord) : Option HalfWord → HalfWord × HalfWord
  | some found => (0#16, found)
  | none => (1#16, data)

/-- Status and data tell what was found. -/
theorem readResult_inj {data : HalfWord} {x y : Option HalfWord}
    (h : readResult data x = readResult data y) : x = y := by
  cases x with
  | none =>
      cases y with
      | none => rfl
      | some b =>
          have hstatus : (1#16 : HalfWord) = 0#16 := congrArg Prod.fst h
          exact absurd hstatus (by decide)
  | some a =>
      cases y with
      | none =>
          have hstatus : (0#16 : HalfWord) = 1#16 := congrArg Prod.fst h
          exact absurd hstatus (by decide)
      | some b => exact congrArg some (congrArg Prod.snd h)

/-- `EE_ReadVariable` in terms of the slot log. -/
theorem readVariable_eq (f : Content) (virtAddress data : HalfWord) :
    readVariable f virtAddress data =
      if readPage f = noValidPage then (noValidPage, data)
      else readResult data (stored f virtAddress) := by
  have hlo : eepromStartAddress + (readPage f).toNat * pageSize =
      eepromStartAddress + 4 * firstSlot (readPage f) := by
    simp only [firstSlot, slotsPerPage, pageSize]
    omega
  have hhi : (eepromStartAddress + 2) + (1 + (readPage f).toNat) * pageSize =
      slotAddress (firstSlot (readPage f) + slotsPerPage) := by
    simp only [firstSlot, slotsPerPage, pageSize, slotAddress]
    omega
  simp only [readVariable, eeFindValidPage_read, hlo, hhi, eeReadVariableLoop_eq, stored]
  cases SlotLog.lookup (slots f) (firstSlot (readPage f)) virtAddress slotsPerPage <;> rfl

/-- The status and data of a read, when a page can be read. -/
theorem readVariable_of_page {f : Content} (hpage : readPage f ≠ noValidPage)
    (virtAddress data : HalfWord) :
    readVariable f virtAddress data = readResult data (stored f virtAddress) := by
  rw [readVariable_eq, if_neg hpage]

/-! ## Page selection -/

theorem readPage_eq (f : Content) :
    readPage f =
      if f page0BaseAddress = validPage then page0
      else if f page1BaseAddress = validPage then page1
      else noValidPage := rfl

theorem writePage_eq (f : Content) :
    writePage f =
      if f page1BaseAddress = validPage then
        if f page0BaseAddress = receiveData then page0 else page1
      else if f page0BaseAddress = validPage then
        if f page1BaseAddress = receiveData then page1 else page0
      else noValidPage := rfl

theorem readPage_eq_noValidPage_iff {f : Content} :
    readPage f = noValidPage ↔
      f page0BaseAddress ≠ validPage ∧ f page1BaseAddress ≠ validPage := by
  rw [readPage_eq]
  by_cases hs0 : f page0BaseAddress = validPage
  · simp [hs0]
  · by_cases hs1 : f page1BaseAddress = validPage
    · simp [hs0, hs1]
    · simp [hs0, hs1]

theorem writePage_eq_noValidPage_iff {f : Content} :
    writePage f = noValidPage ↔
      f page0BaseAddress ≠ validPage ∧ f page1BaseAddress ≠ validPage := by
  rw [writePage_eq]
  by_cases hs1 : f page1BaseAddress = validPage
  · by_cases hr : f page0BaseAddress = receiveData
    · simp [hs1, hr]
    · simp [hs1, hr]
  · by_cases hs0 : f page0BaseAddress = validPage
    · by_cases hr : f page1BaseAddress = receiveData
      · simp [hs0, hr]
      · simp [hs0, hs1, hr]
    · simp [hs0, hs1]

/-- With page 0 valid and the status of page 1 erased, page 0 is written. -/
theorem writePage_page0Valid {f : Content} (h0 : f page0BaseAddress = validPage)
    (h1 : f page1BaseAddress = erased) : writePage f = page0 := by
  rw [writePage_eq, h1, if_neg erased_ne_validPage, if_pos h0, if_neg erased_ne_receiveData]

/-- A page can be written exactly when one can be read. -/
theorem writePage_eq_noValidPage_iff_readPage {f : Content} :
    writePage f = noValidPage ↔ readPage f = noValidPage := by
  rw [writePage_eq_noValidPage_iff, readPage_eq_noValidPage_iff]

theorem writePage_ne_noValidPage_iff {f : Content} :
    writePage f ≠ noValidPage ↔ readPage f ≠ noValidPage :=
  not_congr writePage_eq_noValidPage_iff_readPage

/-- A page chosen for writing is page 0 or page 1. -/
theorem writePage_cases {f : Content} (h : writePage f ≠ noValidPage) :
    writePage f = page0 ∨ writePage f = page1 := by
  have heq := writePage_eq f
  split at heq
  · split at heq
    · exact Or.inl heq
    · exact Or.inr heq
  · split at heq
    · split at heq
      · exact Or.inr heq
      · exact Or.inl heq
    · exact absurd heq h

theorem readPage_cases {f : Content} (h : readPage f ≠ noValidPage) :
    readPage f = page0 ∨ readPage f = page1 := by
  have heq := readPage_eq f
  split at heq
  · exact Or.inl heq
  · split at heq
    · exact Or.inr heq
    · exact absurd heq h

@[simp] theorem firstSlot_page0 : firstSlot page0 = 0 := rfl
@[simp] theorem firstSlot_page1 : firstSlot page1 = 0x8000 := rfl

/-- Only the half-words of the emulation area, and the one slot that follows it,
are read. -/
theorem readVariable_congr {f g : Content} (h : ∀ a, eepromStartAddress ≤ a → f a = g a)
    (virtAddress data : HalfWord) :
    readVariable f virtAddress data = readVariable g virtAddress data := by
  have h0 : f page0BaseAddress = g page0BaseAddress := h _ (Nat.le_refl _)
  have h1 : f page1BaseAddress = g page1BaseAddress := h _ (Nat.le_add_right _ _)
  have hslots : slots f = slots g := by
    funext j
    simp only [slots, slotAddress]
    rw [h _ (by omega), h _ (by omega)]
  have hpage : readPage f = readPage g := by rw [readPage_eq, readPage_eq, h0, h1]
  rw [readVariable_eq, readVariable_eq, stored, stored, hpage, hslots]

end WindradLogger.Eeprom
