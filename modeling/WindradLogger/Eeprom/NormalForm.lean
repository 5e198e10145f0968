import WindradLogger.Eeprom.KeyValue

set_option autoImplicit false

/-!
# The page status words

In normal form one page is valid and the other is erased, status word and all.
`EE_Init` reaches it only on a flash whose page 1 is erased to begin with: its
own erase calls do not reach the emulation area, and since page 1 starts inside
page 0 a valid page 1 is incompatible with an erased page 0.  For the same reason
writes keep the normal form only while they stay below slot `0xFFF`.
-/

namespace WindradLogger.Eeprom

open WindradLogger.Flash WindradLogger.Lib

/-- Every half-word from `first` to `last` is erased. -/
def PageErased (f : Content) (first last : Nat) : Prop :=
  ∀ k, first + 2 * k ≤ last → f (first + 2 * k) = erased

/-- One page is valid, the other has the status `ERASED` and is erased. -/
def NormalForm (f : Content) : Prop :=
  f page0BaseAddress = validPage ∧ f page1BaseAddress = erased ∧
      PageErased f page1BaseAddress page1EndAddress ∨
    f page0BaseAddress = erased ∧ f page1BaseAddress = validPage ∧
      PageErased f page0BaseAddress page0EndAddress

section PageErased

variable {f g : Content}

theorem pageErased_congr {first last : Nat} (h : ∀ a, first ≤ a → f a = g a) :
    PageErased f first last ↔ PageErased g first last := by
  refine forall_congr' fun k => ?_
  rw [h _ (Nat.le_add_right _ _)]

theorem PageErased.page1Base (h : PageErased f page1BaseAddress page1EndAddress) :
    f page1BaseAddress = erased :=
  h 0 (by decide)

/-- An erased page passes its check. -/
theorem PageErased.verify (h : PageErased f page1BaseAddress page1EndAddress) :
    eeVerifyPageFullyErased f page1BaseAddress = true := by
  rw [eeVerifyPageFullyErased_iff]
  intro k hk
  have hle : page0EndAddress ≤ page1EndAddress := by decide
  have hstep : page1BaseAddress + 4 * k = page1BaseAddress + 2 * (2 * k) := by omega
  rw [hstep] at hk ⊢
  exact h (2 * k) (Nat.le_trans hk hle)

/-- Page 0 cannot be erased while page 1 is valid: it contains the status of
page 1. -/
theorem page1Base_of_pageErased_page0 (h : PageErased f page0BaseAddress page0EndAddress) :
    f page1BaseAddress = erased :=
  h 0x2000 (by decide)

theorem normalForm_iff_page0 :
    NormalForm f ↔
      f page0BaseAddress = validPage ∧ PageErased f page1BaseAddress page1EndAddress := by
  constructor
  · rintro (⟨h0, -, herased⟩ | ⟨-, h1, herased⟩)
    · exact ⟨h0, herased⟩
    · exact absurd ((page1Base_of_pageErased_page0 herased).symm.trans h1) erased_ne_validPage
  · rintro ⟨h0, herased⟩
    exact Or.inl ⟨h0, herased.page1Base, herased⟩

end PageErased

/-! ## After start-up -/

/-- In normal form `EE_Init` does nothing. -/
theorem run_eeInit_normalForm {w : World} (hok : w.HalOk) (h : NormalForm w.flash) :
    eeInit.run w = .ok HalStatus.ok.toU16 w := by
  obtain ⟨h0, herased⟩ := normalForm_iff_page0.mp h
  rw [run_eeInit_page0Valid hok h0 herased.page1Base, afterErase, if_pos herased.verify]

theorem page1Base_above_page0Base {a : Nat} (ha : page1BaseAddress ≤ a) :
    eepromStartAddress ≤ a ∧ a ≠ page0BaseAddress := by
  rw [page1BaseAddress_eq] at ha
  rw [eepromStartAddress_eq, page0BaseAddress_eq]
  omega

/-- When page 1 is not marked, start-up leaves it as it was. -/
theorem pageErased_page1_congr {f g : Content} (v : HalfWord)
    (h : SameArea g (Function.update f page0BaseAddress v) ∨ SameArea g f) :
    PageErased g page1BaseAddress page1EndAddress ↔
      PageErased f page1BaseAddress page1EndAddress := by
  apply pageErased_congr
  intro a ha
  obtain ⟨hstart, hne⟩ := page1Base_above_page0Base ha
  rcases h with h | h
  · rw [h a hstart, Function.update_of_ne hne]
  · exact h a hstart

/-- Erasing page 1 and marking page 0 as valid changes the status of page 0 only. -/
theorem sameArea_afterErase_markPage0 {w : World} (hok : w.HalOk) :
    SameArea ((afterErase w page1BaseAddress page1Id).issue
        (.program page0BaseAddress validPage)).flash
      (Function.update w.flash page0BaseAddress validPage) := by
  intro a ha
  have hsame := afterErase_sameArea hok page1BaseAddress page1Id_le a ha
  rw [World.issue_flash (afterErase_halOk hok _ _), Op.apply]
  rcases eq_or_ne a page0BaseAddress with rfl | hbase
  · rw [Function.update_self, Function.update_self, validPage, BitVec.and_zero]
  · rw [Function.update_of_ne hbase, Function.update_of_ne hbase, hsame]

/-- What `EE_Init` leaves is in normal form exactly when it found page 1 erased. -/
theorem normalForm_of_eeInit_iff {w w' : World} (hok : w.HalOk)
    (hrun : eeInit.run w = .ok HalStatus.ok.toU16 w') :
    NormalForm w'.flash ↔ PageErased w.flash page1BaseAddress page1EndAddress := by
  rw [normalForm_iff_page0]
  -- A status of page 1 that is not erased, before and after, rules both sides out.
  have hfalse : w.flash page1BaseAddress ≠ erased → w'.flash page1BaseAddress ≠ erased →
      (w'.flash page0BaseAddress = validPage ∧
        PageErased w'.flash page1BaseAddress page1EndAddress ↔
        PageErased w.flash page1BaseAddress page1EndAddress) := by
    intro h h'
    refine iff_of_false ?_ ?_
    · rintro ⟨-, herased⟩
      exact h' herased.page1Base
    · exact fun herased => h herased.page1Base
  cases hout : initOutcome_of_run hok hrun with
  | page1Valid h0 h1 =>
      refine hfalse (h1.trans_ne validPage_ne_erased) ?_
      rw [(afterErase_sameArea hok _ page0Id_le).page1Base, h1]
      exact validPage_ne_erased
  | page1Received h0 h1 =>
      refine hfalse (by rw [h1]; decide) ?_
      rw [World.issue_flash (afterErase_halOk hok _ _), Op.apply, Function.update_self, validPage,
        BitVec.and_zero]
      exact validPage_ne_erased
  | page0Received h0 h1 =>
      have hflash := sameArea_afterErase_markPage0 hok
      rw [pageErased_page1_congr validPage (Or.inl hflash), hflash.page0Base,
        Function.update_self]
      simp
  | page0Valid h0 h1 =>
      have hflash := afterErase_sameArea hok page1BaseAddress page1Id_le
      rw [pageErased_page1_congr validPage (Or.inr hflash), hflash.page0Base, h0]
      simp
  | formatted hformat =>
      have hflash := afterFormat_sameArea hok
      rw [pageErased_page1_congr validPage (Or.inl hflash), hflash.page0Base,
        Function.update_self]
      simp
  | @resumed newBase oldBase oldId w₁ hres hreach hfits =>
      have hok₁ := (evolves_appendSteps hreach).halOk hok
      cases hres with
      | intoPage0 h0 h1 =>
          refine hfalse (h1.trans_ne validPage_ne_erased) ?_
          have hvalid := (IsTrans.trans _ _ _ (evolves_appendSteps hreach)
            (evolves_issue w₁ (.program page0BaseAddress validPage) trivial)).cleared hok
            (Nat.le_add_right _ _) h1
          rw [(afterErase_sameArea (hok₁.issue _) _ page1Id_le).page1Base]
          exact hvalid.trans_ne validPage_ne_erased
      | intoPage1 h0 h1 h1' =>
          refine hfalse h1' ?_
          rw [(afterErase_sameArea (hok₁.issue _) _ page0Id_le).page1Base, World.issue_flash hok₁,
            Op.apply, Function.update_self, validPage, BitVec.and_zero]
          exact validPage_ne_erased

/-! ## After a write -/

/-- A slot whose half-words both lie in page 1. -/
theorem slotFree_of_pageErased {f : Content} (h : PageErased f page1BaseAddress page1EndAddress)
    {j : Nat} (hj : statusSlot < j) (hlt : j < 2 * slotsPerPage - 1) : slotFree f j = true := by
  have hstatus : statusSlot = 0xFFF := rfl
  have hslots : slotsPerPage = 0x8000 := rfl
  have hend : page1EndAddress = 0x080FFFFF := rfl
  have hdata : slotAddress j = page1BaseAddress + 2 * (2 * j - 0x1FFF) := by
    rw [slotAddress_eq, page1BaseAddress_eq]
    omega
  have hva : slotAddress j + 2 = page1BaseAddress + 2 * (2 * j - 0x1FFE) := by
    rw [slotAddress_eq, page1BaseAddress_eq]
    omega
  rw [slotFree_iff, hva, hdata]
  refine ⟨h _ ?_, h _ ?_⟩
  · rw [page1BaseAddress_eq, hend]
    omega
  · rw [page1BaseAddress_eq, hend]
    omega

/-- In normal form page 0 is read and written. -/
theorem normalForm_pages {f : Content} (h : NormalForm f) :
    readPage f = page0 ∧ writePage f = page0 := by
  obtain ⟨h0, herased⟩ := normalForm_iff_page0.mp h
  exact ⟨by rw [readPage_eq, if_pos h0], writePage_page0Valid h0 herased.page1Base⟩

/-- In normal form there is a free slot, at slot `0x1000` at the latest. -/
theorem normalForm_freeSlot {f : Content} (h : NormalForm f) :
    ∃ j, freeSlot f = some j ∧ j < slotsPerPage := by
  have herased := (normalForm_iff_page0.mp h).2
  have hwrite := (normalForm_pages h).2
  cases hslot : freeSlot f with
  | some j =>
      have hlt := (freeSlot_eq_some_iff.mp hslot).2.2.1
      rw [hwrite, firstSlot_page0, Nat.zero_add] at hlt
      exact ⟨j, rfl, hlt⟩
  | none =>
      have hused := SlotLog.firstFree_eq_none_iff.mp hslot 0x1000
        (by rw [hwrite, firstSlot_page0]; decide) (by rw [hwrite, firstSlot_page0]; decide)
      rw [slotFree_of_pageErased herased (by decide) (by decide)] at hused
      cases hused

/-- An append keeps the normal form exactly when it stays below page 1. -/
theorem normalForm_appendFlash_iff {f : Content} (h : NormalForm f) {j : Nat}
    (hlt : j < slotsPerPage) {virtAddress : HalfWord}
    (hva : virtAddress.toNat < eepromSizeU16) (data : HalfWord) :
    NormalForm (appendFlash f j virtAddress data) ↔ j < statusSlot := by
  obtain ⟨h0, herased⟩ := normalForm_iff_page0.mp h
  have hstatus : statusSlot = 0xFFF := rfl
  have hend : page1EndAddress = 0x080FFFFF := rfl
  have hne : virtAddress ≠ erased := (erased_ne_virtAddress hva).symm
  rw [normalForm_iff_page0, appendFlash_page0Base]
  constructor
  · rintro ⟨-, herased'⟩
    by_contra hj
    -- The virtual address lands in page 1 and is not 0xFFFF.
    have hmem := herased' (2 * (j - 0xFFF)) ?_
    · have haddr : page1BaseAddress + 2 * (2 * (j - 0xFFF)) = slotAddress j + 2 := by
        rw [slotAddress_eq, page1BaseAddress_eq]
        omega
      rw [haddr, appendFlash, Function.update_self] at hmem
      exact hne hmem
    · have hslots : slotsPerPage = 0x8000 := rfl
      rw [page1BaseAddress_eq, hend]
      omega
  · intro hj
    refine ⟨h0, (pageErased_congr fun a ha => ?_).mpr herased⟩
    rw [page1BaseAddress_eq] at ha
    refine appendFlash_of_ne ?_ ?_
    · rw [slotAddress_eq]
      omega
    · rw [slotAddress_eq]
      omega

/-- Start-up and writes against the normal form.  For every flash content on which
`EE_Init` succeeds, what it leaves is in normal form and a second `EE_Init` issues
no operation exactly when page 1 was erased to begin with.  From a state in normal
form every write returns `HAL_OK`, and ends in normal form exactly when its entry
goes to a slot below `0xFFF`. -/
theorem normalForm_started_iff {f : Content} {w : World}
    (hinit : eeInit.run (World.boot f) = .ok HalStatus.ok.toU16 w) :
    (NormalForm w.flash ∧ (finalState (eeInit.run w)).ops = w.ops ↔
        PageErased f page1BaseAddress page1EndAddress) ∧
      ∀ (v : World) (write : Write), v.HalOk → NormalForm v.flash →
        ReturnsOk v write ∧
          (NormalForm (afterWrite v write).flash ↔
            ∃ j, freeSlot v.flash = some j ∧ j < statusSlot) := by
  have hboot := World.boot_halOk f
  have hok := (moves_eeInit.of_run hinit).halOk hboot
  constructor
  · rw [← World.boot_flash f, ← normalForm_of_eeInit_iff hboot hinit]
    refine and_iff_left_of_imp fun h => ?_
    rw [run_eeInit_normalForm hok h, finalState_ok]
  · intro v write hv h
    obtain ⟨j, hslot, hlt⟩ := normalForm_freeSlot h
    have hpage : readPage v.flash ≠ noValidPage := by
      rw [(normalForm_pages h).1]
      decide
    obtain ⟨hreturns, hafter⟩ := afterWrite_of_freeSlot write ⟨hv, hpage⟩ hslot
    refine ⟨hreturns, ?_⟩
    rw [hafter, append_flash hv (slotFree_of_freeSlot hslot),
      normalForm_appendFlash_iff h hlt write.1.2, hslot]
    simp

/-- A blank device comes up in normal form and is so after the first write. -/
theorem normalForm_blankStarted :
    NormalForm blankStarted.flash ∧
      NormalForm (afterWrite blankStarted (⟨0#16, by decide⟩, 5#16)).flash := by
  have hblank : PageErased blank page1BaseAddress page1EndAddress := fun _ _ => rfl
  obtain ⟨hinit, hwrite⟩ := normalForm_started_iff run_eeInit_blank
  have hnormal := (hinit.mpr hblank).1
  refine ⟨hnormal, ?_⟩
  exact (hwrite _ _ blankStarted_halOk hnormal).2.mpr
    ⟨0, inOrder_blankStarted.freeSlot, by decide⟩

/-- A flash full of zeros comes up with two valid pages. -/
theorem zeros_not_normalForm :
    ¬ ∀ (f : Content) (w : World), eeInit.run (World.boot f) = .ok HalStatus.ok.toU16 w →
      NormalForm w.flash := by
  intro hclaim
  have hnormal := normalForm_iff_page0.mp (hclaim zeros zerosStarted run_eeInit_zeros)
  have hstatus := zerosStarted_sameArea.page1Base
  rw [hnormal.2.page1Base] at hstatus
  exact absurd hstatus (by unfold zeros; decide)

end WindradLogger.Eeprom
