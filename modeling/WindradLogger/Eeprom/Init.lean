import WindradLogger.Eeprom.Append
import WindradLogger.Eeprom.Evolution

set_option autoImplicit false

/-!
# Start-up

`EE_Init` branch by branch, for a HAL whose calls succeed.  Every branch that
does not carry variables over returns `HAL_OK`.  Since the erase calls name
sectors 2 and 3, which end far below `EEPROM_START_ADDRESS`, none of them changes
the emulation area: the area is only ever changed by half-word programs.
-/

namespace WindradLogger.Eeprom

open WindradLogger.Flash WindradLogger.Lib

/-! ## The erase check -/

/-- The half-words the erase check looks at are all erased. -/
theorem eeVerifyPageFullyErased_iff (f : Content) (address : Nat) :
    eeVerifyPageFullyErased f address = true ↔
      ∀ k, address + 4 * k ≤ page0EndAddress → f (address + 4 * k) = erased := by
  fun_induction eeVerifyPageFullyErased f address with
  | case1 address hle hne =>
      simp only [Bool.false_eq_true, false_iff]
      intro h
      exact hne (h 0 hle)
  | case2 address hle herased ih =>
      rw [ih]
      have h0 : f address = erased := by simpa using herased
      constructor
      · intro h k hk
        cases k with
        | zero => exact h0
        | succ k =>
            have hk' : address + 4 * (k + 1) = address + 4 + 4 * k := by omega
            rw [hk'] at hk ⊢
            exact h k hk
      · intro h k hk
        have hk' : address + 4 + 4 * k = address + 4 * (k + 1) := by omega
        rw [hk'] at hk ⊢
        exact h (k + 1) hk
  | case3 address hle =>
      simp only [true_iff]
      intro k hk
      omega

/-- The check of page 1 looks at part of what the check of page 0 looks at. -/
theorem eeVerifyPageFullyErased_page1_of_page0 {f : Content}
    (h : eeVerifyPageFullyErased f page0BaseAddress = true) :
    eeVerifyPageFullyErased f page1BaseAddress = true := by
  rw [eeVerifyPageFullyErased_iff] at h ⊢
  intro k hk
  have hk' : page1BaseAddress + 4 * k = page0BaseAddress + 4 * (0x1000 + k) := by
    rw [page1BaseAddress_eq, page0BaseAddress_eq]
    omega
  rw [hk'] at hk ⊢
  exact h _ hk

theorem page0BaseAddress_le_page0End : page0BaseAddress ≤ page0EndAddress := by decide
theorem page1BaseAddress_le_page0End : page1BaseAddress ≤ page0EndAddress := by decide

theorem page0Base_of_verify {f : Content}
    (h : eeVerifyPageFullyErased f page0BaseAddress = true) : f page0BaseAddress = erased :=
  (eeVerifyPageFullyErased_iff f _).mp h 0 page0BaseAddress_le_page0End

theorem page1Base_of_verify {f : Content}
    (h : eeVerifyPageFullyErased f page1BaseAddress = true) : f page1BaseAddress = erased :=
  (eeVerifyPageFullyErased_iff f _).mp h 0 page1BaseAddress_le_page0End

/-! ## The emulation area -/

/-- Two contents agree from the start of the emulation area on. -/
def SameArea (f g : Content) : Prop := ∀ a, eepromStartAddress ≤ a → f a = g a

theorem SameArea.refl (f : Content) : SameArea f f := fun _ _ => rfl

theorem SameArea.symm {f g : Content} (h : SameArea f g) : SameArea g f :=
  fun a ha => (h a ha).symm

theorem SameArea.trans {f g k : Content} (h : SameArea f g) (h' : SameArea g k) :
    SameArea f k :=
  fun a ha => (h a ha).trans (h' a ha)

theorem SameArea.page0Base {f g : Content} (h : SameArea f g) :
    f page0BaseAddress = g page0BaseAddress := h _ (Nat.le_refl _)

theorem SameArea.page1Base {f g : Content} (h : SameArea f g) :
    f page1BaseAddress = g page1BaseAddress := h _ (Nat.le_add_right _ _)

theorem SameArea.slots_eq {f g : Content} (h : SameArea f g) : slots f = slots g := by
  funext j
  rw [slots, slots, h _ (start_le_slotAddress j),
    h _ (Nat.le_add_right_of_le (start_le_slotAddress j))]

theorem SameArea.readVariable {f g : Content} (h : SameArea f g) (virtAddress data : HalfWord) :
    readVariable f virtAddress data = readVariable g virtAddress data :=
  readVariable_congr h virtAddress data

/-- The erase check reads no address below the one it is given. -/
theorem eeVerifyPageFullyErased_congr {f g : Content} {base : Nat}
    (h : ∀ a, base ≤ a → f a = g a) :
    eeVerifyPageFullyErased f base = eeVerifyPageFullyErased g base := by
  rw [Bool.eq_iff_iff, eeVerifyPageFullyErased_iff, eeVerifyPageFullyErased_iff]
  refine forall_congr' fun k => ?_
  rw [h _ (Nat.le_add_right _ _)]

theorem SameArea.verify {f g : Content} (h : SameArea f g) {base : Nat}
    (hbase : eepromStartAddress ≤ base) :
    eeVerifyPageFullyErased f base = eeVerifyPageFullyErased g base :=
  eeVerifyPageFullyErased_congr fun a ha => h a (Nat.le_trans hbase ha)

/-- Sectors 0 to 9 end at or below the start of the emulation area. -/
theorem sectorEnd_le_start {n : Nat} (hn : n ≤ 9) : sectorEnd n ≤ eepromStartAddress := by
  have hstart := eepromStartAddress_eq
  simp only [sectorEnd, sectorStart]
  split <;> omega

theorem sameArea_erase (f : Content) {n : Nat} (hn : n ≤ 9) :
    SameArea ((Op.erase n).apply f) f := by
  intro a ha
  have hend := sectorEnd_le_start hn
  simp only [Op.apply]
  rw [if_neg]
  omega

/-! ## The erase step -/

/-- The world after the erase step of `EE_Format` and `EE_Init`. -/
def afterErase (w : World) (base sector : Nat) : World :=
  if eeVerifyPageFullyErased w.flash base then w else w.issue (.erase sector)

theorem run_eraseUnlessErased {w : World} (h : w.HalOk) (base sector : Nat) :
    (eraseUnlessErased base sector).run w = .ok .ok (afterErase w base sector) := by
  simp only [eraseUnlessErased, EStateM.run_bind, run_readFlash, afterErase]
  split
  · rfl
  · exact run_halFlashExErase h sector

theorem afterErase_halOk {w : World} (h : w.HalOk) (base sector : Nat) :
    (afterErase w base sector).HalOk := by
  unfold afterErase
  split
  · exact h
  · exact h.issue _

theorem afterErase_sameArea {w : World} (h : w.HalOk) (base : Nat) {sector : Nat}
    (hs : sector ≤ 9) : SameArea (afterErase w base sector).flash w.flash := by
  unfold afterErase
  split
  · exact SameArea.refl _
  · rw [World.issue_flash h]
    exact sameArea_erase _ hs

/-! ## Formatting -/

/-- The world after `EE_Format`. -/
def afterFormat (w : World) : World :=
  afterErase ((afterErase w page0BaseAddress page0Id).issue (.program page0BaseAddress validPage))
    page1BaseAddress page1Id

theorem run_eeFormat {w : World} (h : w.HalOk) : eeFormat.run w = .ok .ok (afterFormat w) := by
  have h1 := afterErase_halOk h page0BaseAddress page0Id
  simp only [eeFormat, EStateM.run_bind, run_eraseUnlessErased h, run_halFlashProgram h1,
    run_eraseUnlessErased (h1.issue _), ne_eq, not_true_eq_false, if_false, afterFormat]

/-- Formatting leaves the area as it is but for the status of page 0. -/
theorem afterFormat_sameArea {w : World} (h : w.HalOk) :
    SameArea (afterFormat w).flash (Function.update w.flash page0BaseAddress validPage) := by
  have h1 := afterErase_halOk h page0BaseAddress page0Id
  refine (afterErase_sameArea (h1.issue _) _ (by decide)).trans ?_
  intro a ha
  have hflash := afterErase_sameArea h page0BaseAddress page0Id_le
  rw [World.issue_flash h1, Op.apply]
  by_cases ha0 : a = page0BaseAddress
  · subst ha0
    simp [validPage]
  · rw [Function.update_of_ne ha0, Function.update_of_ne ha0]
    exact hflash a ha

/-! ## EE_Init -/

/-- The specification of `EE_Init`. -/
theorem run_eeInit {w : World} (h : w.HalOk) :
    eeInit.run w =
      if w.flash page0BaseAddress = erased then
        if w.flash page1BaseAddress = validPage then
          .ok HalStatus.ok.toU16 (afterErase w page0BaseAddress page0Id)
        else if w.flash page1BaseAddress = receiveData then
          .ok HalStatus.ok.toU16
            ((afterErase w page0BaseAddress page0Id).issue (.program page1BaseAddress validPage))
        else .ok HalStatus.ok.toU16 (afterFormat w)
      else if w.flash page0BaseAddress = receiveData then
        if w.flash page1BaseAddress = validPage then
          (resumeTransfer page0BaseAddress page1BaseAddress page1Id).run w
        else if w.flash page1BaseAddress = erased then
          .ok HalStatus.ok.toU16
            ((afterErase w page1BaseAddress page1Id).issue (.program page0BaseAddress validPage))
        else .ok HalStatus.ok.toU16 (afterFormat w)
      else if w.flash page0BaseAddress = validPage then
        if w.flash page1BaseAddress = validPage then .ok HalStatus.ok.toU16 (afterFormat w)
        else if w.flash page1BaseAddress = erased then
          .ok HalStatus.ok.toU16 (afterErase w page1BaseAddress page1Id)
        else (resumeTransfer page1BaseAddress page0BaseAddress page0Id).run w
      else .ok HalStatus.ok.toU16 (afterFormat w) := by
  have hformat : (do return (← eeFormat).toU16 : Mcu HalfWord).run w =
      .ok HalStatus.ok.toU16 (afterFormat w) := by
    simp only [EStateM.run_bind, run_eeFormat h, EStateM.run_pure]
  have herase : ∀ base sector,
      (do return (← eraseUnlessErased base sector).toU16 : Mcu HalfWord).run w =
        .ok HalStatus.ok.toU16 (afterErase w base sector) := by
    intro base sector
    simp only [EStateM.run_bind, run_eraseUnlessErased h, EStateM.run_pure]
  have hmark : ∀ base sector target,
      (do
        let flashStatus ← eraseUnlessErased base sector
        if flashStatus ≠ .ok then return flashStatus.toU16
        let flashStatus ← halFlashProgram target validPage
        return flashStatus.toU16 : Mcu HalfWord).run w =
        .ok HalStatus.ok.toU16 ((afterErase w base sector).issue (.program target validPage)) := by
    intro base sector target
    simp only [EStateM.run_bind, run_eraseUnlessErased h, ne_eq, not_true_eq_false, if_false,
      run_halFlashProgram (afterErase_halOk h base sector), EStateM.run_pure]
  simp only [eeInit, EStateM.run_bind, run_readFlash]
  split
  · split
    · exact herase _ _
    · split
      · exact hmark _ _ _
      · exact hformat
  · split
    · split
      · rfl
      · split
        · exact hmark _ _ _
        · exact hformat
    · split
      · split
        · exact hformat
        · split
          · exact herase _ _
          · rfl
      · exact hformat

/-- With page 0 valid and the status of page 1 erased only page 1 is looked at. -/
theorem run_eeInit_page0Valid {w : World} (h : w.HalOk)
    (h0 : w.flash page0BaseAddress = validPage) (h1 : w.flash page1BaseAddress = erased) :
    eeInit.run w = .ok HalStatus.ok.toU16 (afterErase w page1BaseAddress page1Id) := by
  rw [run_eeInit h, h0, h1, if_neg validPage_ne_erased, if_neg validPage_ne_receiveData,
    if_pos rfl, if_neg erased_ne_validPage, if_pos rfl]

/-- With both pages valid the area is formatted. -/
theorem run_eeInit_bothValid {w : World} (h : w.HalOk)
    (h0 : w.flash page0BaseAddress = validPage) (h1 : w.flash page1BaseAddress = validPage) :
    eeInit.run w = .ok HalStatus.ok.toU16 (afterFormat w) := by
  rw [run_eeInit h, h0, h1, if_neg validPage_ne_erased, if_neg validPage_ne_receiveData,
    if_pos rfl, if_pos rfl]

end WindradLogger.Eeprom
