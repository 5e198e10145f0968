import WindradLogger.Eeprom.Extent

set_option autoImplicit false

/-!
# What a page transfer leaves of the old page

`EE_PageTransfer` carries the variables over, erases the sector it knows as the
old page and marks the new page valid.  The sectors `PAGE0_ID` and `PAGE1_ID` lie
below the emulation area, so the old page is not erased, and programming cannot
take `VALID_PAGE` back: its bits are all cleared already.  Whenever a transfer
returns `HAL_OK` both pages are valid.
-/

namespace WindradLogger.Eeprom

open WindradLogger.Flash WindradLogger.Lib

/-! ## Cleared half-words -/

/-- No flash operation of the code changes a cleared half-word of the emulation
area, whether or not it succeeds. -/
theorem issue_of_cleared {w : World} {op : Op} (hop : NamesPage op) {a : Nat}
    (ha : eepromStartAddress ≤ a) (hclear : w.flash a = 0#16) : (w.issue op).flash a = 0#16 := by
  rcases eq_or_ne (w.hal w.ops.length) .ok with hok | hok
  · rw [World.issue_flash_of_ok hok]
    exact apply_of_cleared hop ha hclear
  · rwa [World.issue_flash_of_ne_ok hok]

theorem namesPage_program (a : Nat) (v : HalfWord) : NamesPage (.program a v) := trivial

theorem appendSteps_of_cleared {w w' : World} (h : Relation.ReflTransGen AppendStep w w')
    {a : Nat} (ha : eepromStartAddress ≤ a) (hclear : w.flash a = 0#16) : w'.flash a = 0#16 := by
  induction h with
  | refl => exact hclear
  | tail _ hstep ih =>
      obtain ⟨data, hva, hslot⟩ := hstep
      exact issue_of_cleared (namesPage_program _ _) ha
        (issue_of_cleared (namesPage_program _ _) ha ih)

theorem oldPageId_names (f : Content) : NamesPage (.erase (oldPageId f)) := by
  rw [NamesPage, oldPageId]
  split
  · exact Or.inr rfl
  · exact Or.inl rfl

/-- A whole transfer changes none either. -/
theorem finishTransfer_of_cleared {w w' : World}
    (h : Relation.ReflTransGen AppendStep (w.issue (markOp w.flash)) w') {a : Nat}
    (ha : eepromStartAddress ≤ a) (hclear : w.flash a = 0#16) :
    (finishTransfer w.flash w').flash a = 0#16 := by
  have hnames : NamesPage (markOp w.flash) := namesPage_program _ _
  have hmarked := issue_of_cleared hnames ha hclear
  have hcopied := appendSteps_of_cleared h ha hmarked
  exact issue_of_cleared (namesPage_program _ _) ha
    (issue_of_cleared (oldPageId_names w.flash) ha hcopied)

/-! ## The transfer -/

/-- One page is `VALID_PAGE`, the status of the other one is `ERASED`. -/
def OneValid (f : Content) : Prop :=
  f page0BaseAddress = validPage ∧ f page1BaseAddress = erased ∨
    f page0BaseAddress = erased ∧ f page1BaseAddress = validPage

/-- Where the page that is read has its status. -/
def oldPageAddress (f : Content) : Nat :=
  if readPage f = page1 then page1BaseAddress else page0BaseAddress

theorem start_le_oldPageAddress (f : Content) : eepromStartAddress ≤ oldPageAddress f := by
  rw [oldPageAddress]
  split
  · exact Nat.le_add_right _ _
  · exact Nat.le_refl _

theorem OneValid.page {f : Content} (h : OneValid f) : readPage f ≠ noValidPage := by
  intro hno
  obtain ⟨h0, h1⟩ := readPage_eq_noValidPage_iff.mp hno
  rcases h with ⟨hvalid, -⟩ | ⟨-, hvalid⟩
  · exact h0 hvalid
  · exact h1 hvalid

theorem OneValid.oldPage {f : Content} (h : OneValid f) : f (oldPageAddress f) = validPage := by
  rcases h with ⟨h0, -⟩ | ⟨h0, h1⟩
  · have hread : readPage f = page0 := by rw [readPage_eq, if_pos h0]
    rw [oldPageAddress, hread, if_neg page0_ne_page1, h0]
  · have hread : readPage f = page1 := by
      rw [readPage_eq, h0, if_neg erased_ne_validPage, if_pos h1]
    rw [oldPageAddress, hread, if_pos rfl, h1]

/-- What a transfer from `f` to `g` is meant to achieve: the map is preserved but
for the variable passed, the new page is the only valid one, and the old page,
the other page's status aside, is erased. -/
structure Compacted (f g : Content) (virtAddress data : HalfWord) : Prop where
  written : ∀ old, readVariable g virtAddress old = (0#16, data)
  others : ∀ other old : HalfWord, other.toNat < eepromSizeU16 → other ≠ virtAddress →
    readVariable g other old = readVariable f other old
  newValid : g (newPageAddress f) = validPage
  oldInvalid : g (oldPageAddress f) ≠ validPage
  oldErased : ∀ a, a = oldPageAddress f ∨ InPage (readPage f) a → a ≠ newPageAddress f →
    g a = erased

/-- After a transfer that returned `HAL_OK` the old page is still valid. -/
theorem oldPage_of_transfer {w : World} (hone : OneValid w.flash) {virtAddress : HalfWord}
    (hva : virtAddress.toNat < eepromSizeU16) (data : HalfWord) {w' : World}
    (hrun : (eePageTransfer virtAddress data).run w = .ok HalStatus.ok.toU16 w') :
    w'.flash (oldPageAddress w.flash) = validPage := by
  obtain ⟨status, v, hrun', hout⟩ := run_eePageTransfer_any hva data hone.page
  rw [hrun] at hrun'
  obtain ⟨rfl, rfl⟩ := EStateM.Result.ok.inj hrun'
  cases hout with
  | done _ _ hreach =>
      exact finishTransfer_of_cleared hreach (start_le_oldPageAddress _) hone.oldPage
  | cut _ _ hstatus => exact absurd rfl hstatus

/-- When `EE_PageTransfer` returns `HAL_OK`: after the marking there is room in the
new page, and every HAL call of the transfer succeeds. -/
theorem transfer_returns_ok_iff {w : World} (hpage : readPage w.flash ≠ noValidPage)
    {virtAddress : HalfWord} (hva : virtAddress.toNat < eepromSizeU16) (data : HalfWord) :
    (∃ w', (eePageTransfer virtAddress data).run w = .ok HalStatus.ok.toU16 w') ↔
      TransferFits w.flash virtAddress ∧ w.HalOkFor (transferCalls w.flash virtAddress) := by
  obtain ⟨status, v, hrun, hout⟩ := run_eePageTransfer_any hva data hpage
  constructor
  · rintro ⟨w', hok⟩
    rw [hok] at hrun
    obtain ⟨rfl, rfl⟩ := EStateM.Result.ok.inj hrun
    cases hout with
    | done hfits hcalls _ => exact ⟨hfits, hcalls⟩
    | cut _ _ hstatus => exact absurd rfl hstatus
  · rintro ⟨hfits, hcalls⟩
    cases hout with
    | done => exact ⟨_, hrun⟩
    | full hno => exact absurd hfits hno
    | cut hno hle _ => exact absurd (hcalls.mono (hle hfits)) hno

/-- A transfer never achieves what it is meant to when it returns `HAL_OK`, so
that "if it returns `HAL_OK` then …" is right exactly when it does not. -/
theorem compacted_iff {w : World} (hone : OneValid w.flash) {virtAddress : HalfWord}
    (hva : virtAddress.toNat < eepromSizeU16) (data : HalfWord) :
    (∀ w', (eePageTransfer virtAddress data).run w = .ok HalStatus.ok.toU16 w' →
        Compacted w.flash w'.flash virtAddress data) ↔
      ¬ (TransferFits w.flash virtAddress ∧
        w.HalOkFor (transferCalls w.flash virtAddress)) := by
  rw [← transfer_returns_ok_iff hone.page hva data]
  constructor
  · rintro hachieves ⟨w', hrun⟩
    exact (hachieves w' hrun).oldInvalid (oldPage_of_transfer hone hva data hrun)
  · intro hno w' hrun
    exact absurd ⟨w', hrun⟩ hno

/-! ## A full page 0 -/

/-- Page 0 is valid and full of zeros, page 1 and its status are erased. -/
def zerosInPage0 : Content := fun a =>
  if a = page1BaseAddress then 0xFFFF#16 else if a ≤ page0EndAddress then 0#16 else 0xFFFF#16

theorem oneValid_zerosInPage0 : OneValid zerosInPage0 := Or.inl ⟨rfl, rfl⟩

theorem freeSlot_zerosInPage0 : freeSlot zerosInPage0 = none := by
  have hwrite : writePage zerosInPage0 = page0 := writePage_page0Valid rfl rfl
  rw [freeSlot, hwrite, SlotLog.firstFree_eq_none_iff]
  intro i _ hi
  have hle : slotAddress i ≤ page0EndAddress := by
    have hend : page0EndAddress = 0x080DFFFF := rfl
    have hslots : slotsPerPage = 0x8000 := rfl
    rw [firstSlot_page0] at hi
    rw [slotAddress_eq]
    omega
  have hused : zerosInPage0 (slotAddress i) = 0#16 := by
    rw [zerosInPage0, if_neg (slotAddress_ne_page1Base i), if_pos hle]
  simp [slotFree, hused]

/-- Page 1 has room for all variables. -/
theorem transferFits_zerosInPage0 (virtAddress : HalfWord) :
    TransferFits zerosInPage0 virtAddress := by
  have h0 : zerosInPage0 page0BaseAddress = validPage := rfl
  have h1 : zerosInPage0 page1BaseAddress = 0xFFFF#16 := rfl
  have hread : readPage zerosInPage0 = page0 := by rw [readPage_eq, if_pos h0]
  have hnew : newPageAddress zerosInPage0 = page1BaseAddress := by
    rw [newPageAddress, hread, if_neg page0_ne_page1]
  have hmarked : marked zerosInPage0 =
      Function.update zerosInPage0 page1BaseAddress receiveData := by
    rw [marked, markOp, hnew]
    exact program_apply_of_erased h1 receiveData
  have hwrite : writePage (marked zerosInPage0) = page1 := by
    rw [writePage_eq, hmarked, Function.update_self,
      Function.update_of_ne page0Base_ne_page1Base, if_neg receiveData_ne_validPage, if_pos h0,
      if_pos rfl]
  have hblank : ∀ a, page0EndAddress < a → marked zerosInPage0 a = 0xFFFF#16 := by
    intro a ha
    have hne : a ≠ page1BaseAddress := by
      rintro rfl
      exact absurd ha (by decide)
    rw [hmarked, Function.update_of_ne hne, zerosInPage0, if_neg hne,
      if_neg (Nat.not_le.mpr ha)]
  have hroom : freeSlots (marked zerosInPage0) = slotsPerPage := by
    rw [freeSlots, hwrite, SlotLog.freeCount_eq_of_free]
    intro i hi _
    have hlt : page0EndAddress < slotAddress i := by
      have hend : page0EndAddress = 0x080DFFFF := rfl
      rw [firstSlot_page1] at hi
      rw [slotAddress_eq]
      omega
    exact slotFree_iff.mpr ⟨hblank _ hlt, hblank _ (Nat.lt_add_right 2 hlt)⟩
  have hcarried : carried (skipWritten virtAddress) (marked zerosInPage0) virtAddresses ≤
      eepromSizeU16 := by
    rw [← virtAddresses_length]
    exact List.countP_le_length
  have hlt : eepromSizeU16 < slotsPerPage := by decide
  rw [TransferFits, hroom]
  exact Nat.lt_of_le_of_lt hcarried hlt

/-- The append finds page 0 full, the transfer returns `HAL_OK`, and page 0 is
still valid. -/
theorem not_compacted_zerosInPage0 :
    OneValid zerosInPage0 ∧
      (eeVerifyPageFullWriteVariable 1#16 5#16).run (World.boot zerosInPage0) =
        .ok pageFull (World.boot zerosInPage0) ∧
      ∃ w', (eePageTransfer 1#16 5#16).run (World.boot zerosInPage0) =
          .ok HalStatus.ok.toU16 w' ∧
        w'.flash page0BaseAddress = validPage ∧ ¬ Compacted zerosInPage0 w'.flash 1#16 5#16 := by
  have hva : (1#16 : HalfWord).toNat < eepromSizeU16 := by decide
  have hone := oneValid_zerosInPage0
  refine ⟨hone, ?_, ?_⟩
  · rw [run_eeVerifyPageFullWriteVariable_any _ hva, World.boot_flash,
      if_neg (writePage_ne_noValidPage_iff.mpr hone.page), freeSlot_zerosInPage0]
  · have hcalls := (World.boot_halOk zerosInPage0).halOkFor (transferCalls zerosInPage0 1#16)
    have hboot : readPage (World.boot zerosInPage0).flash ≠ noValidPage := hone.page
    obtain ⟨w', hrun⟩ := (transfer_returns_ok_iff hboot hva 5#16).mpr
      ⟨transferFits_zerosInPage0 1#16, hcalls⟩
    have hold := oldPage_of_transfer hone hva 5#16 hrun
    exact ⟨w', hrun, hold, fun h => h.oldInvalid hold⟩

/-- On the same device a HAL that refuses every call makes the transfer fail. -/
theorem compacted_iff_refused :
    let w : World := { flash := zerosInPage0, ops := [], hal := fun _ => .error }
    ∀ w', (eePageTransfer 1#16 5#16).run w = .ok HalStatus.ok.toU16 w' →
      Compacted w.flash w'.flash 1#16 5#16 := by
  intro w
  have hone : OneValid w.flash := oneValid_zerosInPage0
  refine (compacted_iff hone (by decide) 5#16).mpr fun h => ?_
  have hfirst := h.2 0 (Nat.succ_pos _)
  cases hfirst

end WindradLogger.Eeprom
