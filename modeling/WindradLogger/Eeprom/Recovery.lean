import WindradLogger.Eeprom.Transfer

set_option autoImplicit false

/-!
# What start-up can do

`EE_Init` said once: six ways to end with `HAL_OK` and one with `PAGE_FULL`, each
with the status words it starts from and the world it leaves.  A page that is
valid stays valid whatever else is programmed or erased, since programming only
clears bits and the sectors the code erases lie below the emulation area.
-/

namespace WindradLogger.Eeprom

open WindradLogger.Flash WindradLogger.Lib

/-! ## A valid page stays valid -/

/-- No operation of the code changes a cleared half-word of the emulation area. -/
theorem apply_of_cleared {f : Content} {op : Op} (hop : NamesPage op) {a : Nat}
    (ha : eepromStartAddress ≤ a) (hclear : f a = 0#16) : op.apply f a = 0#16 := by
  cases op with
  | program b v =>
      simp only [Op.apply]
      by_cases hab : a = b
      · rw [← hab, Function.update_self, hclear, BitVec.zero_and]
      · rw [Function.update_of_ne hab, hclear]
  | erase n =>
      have hn : n ≤ 9 := by
        rcases hop with rfl | rfl <;> decide
      rw [sameArea_erase f hn a ha, hclear]

theorem applyOps_of_cleared {ops : List Op} (hops : ∀ op ∈ ops, NamesPage op) {a : Nat}
    (ha : eepromStartAddress ≤ a) : ∀ {f : Content}, f a = 0#16 → applyOps ops f a = 0#16 := by
  induction ops with
  | nil =>
      intro f hclear
      exact hclear
  | cons op rest ih =>
      intro f hclear
      rw [applyOps_cons]
      exact ih (fun op' hop' => hops op' (List.mem_cons_of_mem _ hop'))
        (apply_of_cleared (hops op List.mem_cons_self) ha hclear)

theorem Evolves.cleared {w w' : World} (h : Evolves w w') (hok : w.HalOk) {a : Nat}
    (ha : eepromStartAddress ≤ a) (hclear : w.flash a = 0#16) : w'.flash a = 0#16 := by
  obtain ⟨new, _, hflash, hnames⟩ := h.ops
  rw [hflash hok]
  exact applyOps_of_cleared hnames ha hclear

/-- Once a page is valid, one can be read ever after. -/
theorem Evolves.readPage {w w' : World} (h : Evolves w w') (hok : w.HalOk)
    (hpage : readPage w.flash ≠ noValidPage) : readPage w'.flash ≠ noValidPage := by
  intro hno
  obtain ⟨h0, h1⟩ := readPage_eq_noValidPage_iff.mp hno
  apply hpage
  rw [readPage_eq_noValidPage_iff]
  refine ⟨fun hv => h0 ?_, fun hv => h1 ?_⟩
  · exact h.cleared hok (Nat.le_refl _) hv
  · exact h.cleared hok (Nat.le_add_right _ _) hv

/-! ## EE_Init -/

/-- The status words for which `EE_Init` formats. -/
def Formats (f : Content) : Prop :=
  f page0BaseAddress = erased ∧ f page1BaseAddress ≠ validPage ∧
      f page1BaseAddress ≠ receiveData ∨
    f page0BaseAddress = receiveData ∧ f page1BaseAddress ≠ validPage ∧
      f page1BaseAddress ≠ erased ∨
    f page0BaseAddress = validPage ∧ f page1BaseAddress = validPage ∨
    f page0BaseAddress ≠ erased ∧ f page0BaseAddress ≠ receiveData ∧
      f page0BaseAddress ≠ validPage

/-- The status words for which `EE_Init` resumes a page transfer: which page
receives, which page it received from, and the identifier of the latter. -/
inductive Resumes (f : Content) : Nat → Nat → Nat → Prop where
  | intoPage0 (h0 : f page0BaseAddress = receiveData) (h1 : f page1BaseAddress = validPage) :
      Resumes f page0BaseAddress page1BaseAddress page1Id
  | intoPage1 (h0 : f page0BaseAddress = validPage) (h1 : f page1BaseAddress ≠ validPage)
      (h1' : f page1BaseAddress ≠ erased) :
      Resumes f page1BaseAddress page0BaseAddress page0Id

theorem Resumes.settled {f : Content} {newBase oldBase oldId : Nat}
    (h : Resumes f newBase oldBase oldId) : Settled f := by
  cases h with
  | intoPage0 h0 h1 =>
      refine ⟨fun hno => (readPage_eq_noValidPage_iff.mp hno).2 h1, ?_⟩
      rw [h1]
      decide
  | intoPage1 h0 h1 h1' =>
      exact ⟨fun hno => (readPage_eq_noValidPage_iff.mp hno).1 h0, h1'⟩

/-- The slot whose virtual address the resumed loop compares with. -/
theorem Resumes.slot {f : Content} {newBase oldBase oldId : Nat}
    (h : Resumes f newBase oldBase oldId) : ∃ i, newBase + 4 = slotAddress i + 2 := by
  cases h with
  | intoPage0 => exact ⟨0, page0Base_add_four⟩
  | intoPage1 => exact ⟨0x1000, page1Base_add_four⟩

/-- Everything `EE_Init` can do: the status it returns and the world it leaves. -/
inductive InitOutcome (w : World) : HalfWord → World → Prop where
  | page1Valid (h0 : w.flash page0BaseAddress = erased)
      (h1 : w.flash page1BaseAddress = validPage) :
      InitOutcome w HalStatus.ok.toU16 (afterErase w page0BaseAddress page0Id)
  | page1Received (h0 : w.flash page0BaseAddress = erased)
      (h1 : w.flash page1BaseAddress = receiveData) :
      InitOutcome w HalStatus.ok.toU16
        ((afterErase w page0BaseAddress page0Id).issue (.program page1BaseAddress validPage))
  | page0Received (h0 : w.flash page0BaseAddress = receiveData)
      (h1 : w.flash page1BaseAddress = erased) :
      InitOutcome w HalStatus.ok.toU16
        ((afterErase w page1BaseAddress page1Id).issue (.program page0BaseAddress validPage))
  | page0Valid (h0 : w.flash page0BaseAddress = validPage)
      (h1 : w.flash page1BaseAddress = erased) :
      InitOutcome w HalStatus.ok.toU16 (afterErase w page1BaseAddress page1Id)
  | formatted (hformat : Formats w.flash) : InitOutcome w HalStatus.ok.toU16 (afterFormat w)
  | resumed {newBase oldBase oldId : Nat} {w' : World}
      (hres : Resumes w.flash newBase oldBase oldId)
      (hreach : Relation.ReflTransGen AppendStep w w')
      (hfits : carried (skipReceived newBase) w.flash virtAddresses ≤ freeSlots w.flash) :
      InitOutcome w HalStatus.ok.toU16
        (afterErase (w'.issue (.program newBase validPage)) oldBase oldId)
  | full {newBase oldBase oldId : Nat} {w' : World}
      (hres : Resumes w.flash newBase oldBase oldId)
      (hreach : Relation.ReflTransGen AppendStep w w')
      (hfits : freeSlots w.flash < carried (skipReceived newBase) w.flash virtAddresses)
      (hslot : freeSlot w'.flash = none) :
      InitOutcome w pageFull w'

theorem run_resumeTransfer_outcome {w : World} (h : w.HalOk) {newBase oldBase oldId : Nat}
    (hres : Resumes w.flash newBase oldBase oldId) :
    ∃ status w', (resumeTransfer newBase oldBase oldId).run w = .ok status w' ∧
      InitOutcome w status w' := by
  obtain ⟨i, hi⟩ := hres.slot
  obtain ⟨w', hreach, ⟨hfits, hrun⟩ | ⟨hfits, hrun, hslot⟩⟩ :=
    run_resumeTransfer h hres.settled hi oldBase oldId
  · exact ⟨_, _, hrun, .resumed hres hreach hfits⟩
  · exact ⟨_, _, hrun, .full hres hreach hfits hslot⟩

/-- `EE_Init` always returns, in one of the ways of `InitOutcome`. -/
theorem run_eeInit_outcome {w : World} (h : w.HalOk) :
    ∃ status w', eeInit.run w = .ok status w' ∧ InitOutcome w status w' := by
  rw [run_eeInit h]
  split
  · rename_i h0
    split
    · rename_i h1
      exact ⟨_, _, rfl, .page1Valid h0 h1⟩
    · rename_i h1
      split
      · rename_i h1'
        exact ⟨_, _, rfl, .page1Received h0 h1'⟩
      · rename_i h1'
        exact ⟨_, _, rfl, .formatted (Or.inl ⟨h0, h1, h1'⟩)⟩
  · rename_i h0
    split
    · rename_i h0'
      split
      · rename_i h1
        exact run_resumeTransfer_outcome h (.intoPage0 h0' h1)
      · rename_i h1
        split
        · rename_i h1'
          exact ⟨_, _, rfl, .page0Received h0' h1'⟩
        · rename_i h1'
          exact ⟨_, _, rfl, .formatted (Or.inr (Or.inl ⟨h0', h1, h1'⟩))⟩
    · rename_i h0'
      split
      · rename_i h0''
        split
        · rename_i h1
          exact ⟨_, _, rfl, .formatted (Or.inr (Or.inr (Or.inl ⟨h0'', h1⟩)))⟩
        · rename_i h1
          split
          · rename_i h1'
            exact ⟨_, _, rfl, .page0Valid h0'' h1'⟩
          · rename_i h1'
            exact run_resumeTransfer_outcome h (.intoPage1 h0'' h1 h1')
      · rename_i h0''
        exact ⟨_, _, rfl, .formatted (Or.inr (Or.inr (Or.inr ⟨h0, h0', h0''⟩)))⟩

/-- The outcome of a run that is given. -/
theorem initOutcome_of_run {w w' : World} (h : w.HalOk) {status : HalfWord}
    (hrun : eeInit.run w = .ok status w') : InitOutcome w status w' := by
  obtain ⟨status', w'', hrun', hout⟩ := run_eeInit_outcome h
  rw [hrun] at hrun'
  obtain ⟨rfl, rfl⟩ := EStateM.Result.ok.inj hrun'
  exact hout

theorem afterErase_readPage {w : World} (h : w.HalOk) (base : Nat) {sector : Nat}
    (hs : sector ≤ 9) :
    readPage (afterErase w base sector).flash = readPage w.flash := by
  have hsame := afterErase_sameArea h base hs
  rw [readPage_eq, readPage_eq, hsame.page0Base, hsame.page1Base]

/-- Programming `VALID_PAGE` makes the page readable. -/
theorem readPage_program_validPage {w : World} (h : w.HalOk) {base : Nat}
    (hbase : base = page0BaseAddress ∨ base = page1BaseAddress) :
    readPage (w.issue (.program base validPage)).flash ≠ noValidPage := by
  have hvalid : (w.issue (.program base validPage)).flash base = validPage := by
    rw [World.issue_flash h, Op.apply, Function.update_self, validPage, BitVec.and_zero]
  intro hno
  obtain ⟨h0, h1⟩ := readPage_eq_noValidPage_iff.mp hno
  rcases hbase with rfl | rfl
  · exact h0 hvalid
  · exact h1 hvalid

/-- After `EE_Init` a page can be read, whatever it returned. -/
theorem readPage_of_eeInit {w w' : World} (h : w.HalOk) {status : HalfWord}
    (hrun : eeInit.run w = .ok status w') : readPage w'.flash ≠ noValidPage := by
  cases initOutcome_of_run h hrun with
  | page1Valid h0 h1 =>
      rw [afterErase_readPage h _ page0Id_le]
      exact fun hno => (readPage_eq_noValidPage_iff.mp hno).2 h1
  | page1Received h0 h1 =>
      exact readPage_program_validPage (afterErase_halOk h _ _) (Or.inr rfl)
  | page0Received h0 h1 =>
      exact readPage_program_validPage (afterErase_halOk h _ _) (Or.inl rfl)
  | page0Valid h0 h1 =>
      rw [afterErase_readPage h _ page1Id_le]
      exact fun hno => (readPage_eq_noValidPage_iff.mp hno).1 h0
  | formatted hformat =>
      rw [afterFormat, afterErase_readPage ((afterErase_halOk h _ _).issue _) _ page1Id_le]
      exact readPage_program_validPage (afterErase_halOk h _ _) (Or.inl rfl)
  | resumed hres hreach hfits =>
      have hok := (evolves_appendSteps hreach).halOk h
      cases hres with
      | intoPage0 h0 h1 =>
          rw [afterErase_readPage (hok.issue _) _ page1Id_le]
          exact readPage_program_validPage hok (Or.inl rfl)
      | intoPage1 h0 h1 h1' =>
          rw [afterErase_readPage (hok.issue _) _ page0Id_le]
          exact readPage_program_validPage hok (Or.inr rfl)
  | full hres hreach hfits hslot =>
      exact (evolves_appendSteps hreach).readPage h hres.settled.page

/-! ## A flash full of zeros -/

/-- Every half-word programmed to zero. -/
def zeros : Content := fun _ => 0#16

/-- The world `EE_Init` leaves when it finds zeros: it has erased sectors 2 and 3
of the program, and the emulation area is as it was. -/
def zerosStarted : World :=
  (((World.boot zeros).issue (.erase page0Id)).issue
    (.program page0BaseAddress validPage)).issue (.erase page1Id)

/-- Cleared half-words of the emulation area stay cleared. -/
theorem sameArea_zeros {w : World} (h : Evolves (World.boot zeros) w) : SameArea w.flash zeros :=
  fun _ ha => h.cleared (World.boot_halOk zeros) ha rfl

theorem evolves_zerosMarked : Evolves (World.boot zeros)
    (((World.boot zeros).issue (.erase page0Id)).issue (.program page0BaseAddress validPage)) :=
  IsTrans.trans _ _ _ (evolves_issue _ (.erase page0Id) (Or.inl rfl))
    (evolves_issue _ (.program _ _) trivial)

theorem zerosStarted_sameArea : SameArea zerosStarted.flash zeros :=
  sameArea_zeros (IsTrans.trans _ _ _ evolves_zerosMarked
    (evolves_issue _ (.erase page1Id) (Or.inr rfl)))

theorem run_eeInit_zeros : eeInit.run (World.boot zeros) = .ok HalStatus.ok.toU16 zerosStarted := by
  have hok := World.boot_halOk zeros
  have h0 : (World.boot zeros).flash page0BaseAddress = validPage := rfl
  have h1 : (World.boot zeros).flash page1BaseAddress = validPage := rfl
  have hverify0 : eeVerifyPageFullyErased (World.boot zeros).flash page0BaseAddress = false := by
    rw [← Bool.not_eq_true]
    intro h
    exact erased_ne_validPage ((page0Base_of_verify h).symm.trans h0)
  have hverify1 : eeVerifyPageFullyErased (((World.boot zeros).issue (.erase page0Id)).issue
      (.program page0BaseAddress validPage)).flash page1BaseAddress = false := by
    rw [← Bool.not_eq_true]
    intro h
    have hzero := (sameArea_zeros evolves_zerosMarked).page1Base
    exact erased_ne_validPage ((page1Base_of_verify h).symm.trans hzero)
  rw [run_eeInit_bothValid hok h0 h1]
  simp only [afterFormat, afterErase, hverify0, hverify1, Bool.false_eq_true, if_false,
    zerosStarted]

/-- There both pages are valid, page 0 is read and page 1, which is full, written. -/
theorem readPage_zerosStarted : readPage zerosStarted.flash = page0 := by
  rw [readPage_eq, zerosStarted_sameArea.page0Base]
  exact if_pos rfl

theorem slotFree_zerosStarted (j : Nat) : slotFree zerosStarted.flash j = false := by
  have hdata := zerosStarted_sameArea (slotAddress j) (start_le_slotAddress j)
  simp [slotFree, hdata, zeros]

theorem freeSlot_zerosStarted : freeSlot zerosStarted.flash = none :=
  SlotLog.firstFree_eq_none_iff.mpr fun i _ _ => slotFree_zerosStarted i

/-- A page transfer does not help: page 1 is still the page that is written. -/
theorem not_transferFits_zerosStarted (virtAddress : HalfWord) :
    ¬ TransferFits zerosStarted.flash virtAddress := by
  have hnew : newPageAddress zerosStarted.flash = page1BaseAddress := by
    rw [newPageAddress, readPage_zerosStarted, if_neg (by decide)]
  have hfree : ∀ i, slotFree (marked zerosStarted.flash) i = false := by
    intro i
    have hne : slotAddress i ≠ newPageAddress zerosStarted.flash := by
      rw [hnew]
      exact slotAddress_ne_page1Base i
    have hdata : marked zerosStarted.flash (slotAddress i) = zerosStarted.flash (slotAddress i) :=
      Function.update_of_ne hne _ _
    have harea := zerosStarted_sameArea (slotAddress i) (start_le_slotAddress i)
    simp [slotFree, hdata, harea, zeros]
  have hnone : freeSlots (marked zerosStarted.flash) = 0 :=
    freeSlots_eq_zero_iff.mpr (SlotLog.firstFree_eq_none_iff.mpr fun i _ _ => hfree i)
  rw [TransferFits, hnone]
  exact Nat.not_lt_zero _

end WindradLogger.Eeprom
