import WindradLogger.Eeprom.Recovery

set_option autoImplicit false

/-!
# A log in order

Page 0 is valid, its slots are used up to some slot, and everything above is
blank.  This is how a device looks that was never anything but written to, as
long as slot `0xFFF`, where the status of page 1 lies, has not been reached.
`EE_Init` leaves such a log alone, and the next entry is in sight of the reader
unless it is the very first one: slot 0 is written but never read.
-/

namespace WindradLogger.Eeprom

open WindradLogger.Flash WindradLogger.Lib

/-- The slots below `n` are used, those from `n` on are blank. -/
structure InOrder (f : Content) (n : Nat) : Prop where
  status0 : f page0BaseAddress = validPage
  bound : n ≤ statusSlot
  used : ∀ i, i < n → slotFree f i = false
  blank : ∀ i, n ≤ i → i ≤ slotsPerPage → slotFree f i = true

namespace InOrder

variable {f : Content} {n : Nat}

theorem status1 (h : InOrder f n) : f page1BaseAddress = erased := by
  have hslot := (slotFree_iff.mp (h.blank statusSlot h.bound (by decide))).2
  rwa [slotAddress_add_two_eq_page1Base.mpr rfl] at hslot

theorem readPage (h : InOrder f n) : readPage f = page0 := by
  rw [readPage_eq, if_pos h.status0]

theorem page (h : InOrder f n) : Eeprom.readPage f ≠ noValidPage := by
  rw [h.readPage]
  decide

theorem writePage (h : InOrder f n) : writePage f = page0 :=
  writePage_page0Valid h.status0 h.status1

/-- The next entry goes to slot `n`. -/
theorem freeSlot (h : InOrder f n) : freeSlot f = some n := by
  have hbound := h.bound
  have hstatus : statusSlot = 0xFFF := rfl
  have hslots : slotsPerPage = 0x8000 := rfl
  rw [freeSlot_eq_some_iff, h.writePage, firstSlot_page0]
  refine ⟨h.blank n (Nat.le_refl _) (by omega), Nat.zero_le _, by omega, ?_⟩
  intro i _ hi
  exact h.used i hi

theorem slots_blank (h : InOrder f n) {i : Nat} (hn : n ≤ i) (hi : i ≤ slotsPerPage) :
    (slots f i).1 = 0xFFFF#16 :=
  (slotFree_iff.mp (h.blank i hn hi)).2

/-- An entry in slot `n` is in sight unless it is the first of all. -/
theorem inSight_iff (h : InOrder f n) {virtAddress : HalfWord}
    (hva : virtAddress.toNat < eepromSizeU16) : InSight f virtAddress n ↔ 0 < n := by
  have hbound := h.bound
  have hstatus : statusSlot = 0xFFF := rfl
  have hslots : slotsPerPage = 0x8000 := rfl
  rw [InSight, h.readPage, firstSlot_page0]
  constructor
  · intro hsight
    exact hsight.above
  · intro hn
    refine ⟨hn, by omega, ?_⟩
    intro i hni hi
    rw [h.slots_blank (Nat.le_of_lt hni) (by omega)]
    exact erased_ne_virtAddress hva

/-- In a log without entries in sight nothing is stored. -/
theorem stored_eq_none (h : InOrder f n) (hn : n ≤ 1) {virtAddress : HalfWord}
    (hva : virtAddress.toNat < eepromSizeU16) : stored f virtAddress = none := by
  rw [stored, SlotLog.lookup_eq_none_iff, h.readPage, firstSlot_page0]
  intro i hlo hi
  rw [h.slots_blank (Nat.le_trans hn hlo) (by omega)]
  exact erased_ne_virtAddress hva

/-- The log stays in order until the status of page 1 is overwritten. -/
theorem append (h : InOrder f n) (hn : n < statusSlot) {virtAddress : HalfWord}
    (hva : virtAddress.toNat < eepromSizeU16) (data : HalfWord) :
    InOrder (appendFlash f n virtAddress data) (n + 1) where
  status0 := by rw [appendFlash_page0Base, h.status0]
  bound := hn
  used := by
    intro i hi
    by_cases hin : i = n
    · rw [hin]
      exact slotFree_appendFlash_self hva
    · rw [slotFree_appendFlash_of_ne hin]
      exact h.used i (by omega)
  blank := by
    intro i hi hle
    rw [slotFree_appendFlash_of_ne (by omega)]
    exact h.blank i (by omega) hle

/-- The erase check of page 1 looks at blank half-words only. -/
theorem verify_page1 (h : InOrder f n) :
    eeVerifyPageFullyErased f page1BaseAddress = true := by
  rw [eeVerifyPageFullyErased_iff]
  intro k hk
  have hbound := h.bound
  have hstatus : statusSlot = 0xFFF := rfl
  have hslots : slotsPerPage = 0x8000 := rfl
  have hend : page0EndAddress = 0x080DFFFF := rfl
  have haddr : page1BaseAddress + 4 * k = slotAddress (statusSlot + k) + 2 := by
    rw [slotAddress_eq, page1BaseAddress_eq, hstatus]
    omega
  rw [page1BaseAddress_eq, hend] at hk
  rw [haddr]
  exact (slotFree_iff.mp (h.blank (statusSlot + k) (by omega) (by omega))).2

end InOrder

/-- `EE_Init` does nothing to a log in order. -/
theorem run_eeInit_inOrder {w : World} (hok : w.HalOk) {n : Nat} (h : InOrder w.flash n) :
    eeInit.run w = .ok HalStatus.ok.toU16 w := by
  rw [run_eeInit_page0Valid hok h.status0 h.status1, afterErase, if_pos h.verify_page1]

/-! ## A blank device -/

/-- The world `EE_Init` leaves when it finds a blank device. -/
def blankStarted : World := (World.boot blank).issue (.program page0BaseAddress validPage)

theorem blankStarted_halOk : blankStarted.HalOk := fun _ => rfl

theorem blankStarted_flash :
    blankStarted.flash = Function.update blank page0BaseAddress validPage := by
  have herased : blank page0BaseAddress = 0xFFFF#16 := rfl
  rw [blankStarted, World.issue_flash (World.boot_halOk blank), World.boot_flash]
  exact program_apply_of_erased herased validPage

/-- It is a log in order without entries. -/
theorem inOrder_blankStarted : InOrder blankStarted.flash 0 where
  status0 := by rw [blankStarted_flash, Function.update_self]
  bound := Nat.zero_le _
  used := fun i hi => absurd hi (Nat.not_lt_zero i)
  blank := by
    intro i _ _
    rw [slotFree_iff, blankStarted_flash, Function.update_of_ne (slotAddress_ne_page0Base i),
      Function.update_of_ne (slotAddress_add_two_ne_page0Base i)]
    exact ⟨rfl, rfl⟩

theorem run_eeInit_blank : eeInit.run (World.boot blank) = .ok HalStatus.ok.toU16 blankStarted := by
  have hok := World.boot_halOk blank
  have h0 : (World.boot blank).flash page0BaseAddress = erased := rfl
  have h1 : (World.boot blank).flash page1BaseAddress = erased := rfl
  have hverify : eeVerifyPageFullyErased (World.boot blank).flash page0BaseAddress = true :=
    (eeVerifyPageFullyErased_iff _ _).mpr fun _ _ => rfl
  have hformat : afterErase (World.boot blank) page0BaseAddress page0Id = World.boot blank := by
    rw [afterErase, if_pos hverify]
  rw [run_eeInit hok, h0, h1, if_pos rfl, if_neg erased_ne_validPage,
    if_neg erased_ne_receiveData, afterFormat, hformat]
  change EStateM.Result.ok _ (afterErase blankStarted page1BaseAddress page1Id) = _
  rw [afterErase, if_pos inOrder_blankStarted.verify_page1]

/-! ## A device whose first slot is used -/

/-- A blank device but for the status of page 0 and the data half-word of slot 0. -/
def secondSlotNext : Content :=
  Function.update (Function.update blank page0BaseAddress validPage) (slotAddress 0) 0#16

theorem inOrder_secondSlotNext : InOrder secondSlotNext 1 where
  status0 := by
    rw [secondSlotNext, Function.update_of_ne (slotAddress_ne_page0Base 0).symm,
      Function.update_self]
  bound := by decide
  used := by
    intro i hi
    have hi0 : i = 0 := by omega
    rw [← Bool.not_eq_true, slotFree_iff, hi0, secondSlotNext, Function.update_self]
    intro h
    exact absurd h.1 (by decide)
  blank := by
    intro i hi _
    have hne : slotAddress i ≠ slotAddress 0 := by
      rw [slotAddress_eq, slotAddress_eq]
      omega
    rw [slotFree_iff, secondSlotNext, Function.update_of_ne hne,
      Function.update_of_ne (slotAddress_ne_page0Base i),
      Function.update_of_ne (slotAddress_ne_add_two 0 i).symm,
      Function.update_of_ne (slotAddress_add_two_ne_page0Base i)]
    exact ⟨rfl, rfl⟩

end WindradLogger.Eeprom
