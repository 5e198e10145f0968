import WindradLogger.Eeprom.KeyValue

set_option autoImplicit false

/-!
# Where the code programs and erases

Which calls keep to the emulation area.  The two sectors named by `PAGE0_ID` and
`PAGE1_ID` lie in the program, so every erase is out of place; a half-word
program is in place but for one: the virtual address of the last slot of page 1
would go to the first half-word after flash.  Both are decided before the call by
the status words, the erase checks and the slot the next entry goes to.
-/

namespace WindradLogger.Eeprom

open WindradLogger.Flash WindradLogger.Lib

/-- The operation keeps to the emulation area. -/
def InArea (op : Op) : Prop :=
  op.Inside eepromStartAddress (eepromStartAddress + 2 * pageSize)

instance (op : Op) : Decidable (InArea op) := inferInstanceAs (Decidable (op.Inside _ _))

/-- Every operation issued so far keeps to the emulation area. -/
def OpsInArea (w : World) : Prop := ∀ op ∈ w.ops, InArea op

/-- The last slot of page 1.  Its virtual address lies after the end of flash. -/
def lastSlot : Nat := 0xFFFF

section Ops

variable {w : World}

theorem opsInArea_issue_iff {op : Op} : OpsInArea (w.issue op) ↔ OpsInArea w ∧ InArea op := by
  simp only [OpsInArea, World.issue_ops, List.mem_append, List.mem_singleton]
  constructor
  · intro h
    exact ⟨fun op' hop' => h op' (Or.inl hop'), h op (Or.inr rfl)⟩
  · rintro ⟨hold, hnew⟩ op' (hop' | rfl)
    · exact hold op' hop'
    · exact hnew

/-- Neither named sector belongs to the emulation area. -/
theorem not_inArea_erase {n : Nat} (h : n = page0Id ∨ n = page1Id) : ¬ InArea (.erase n) := by
  rcases h with rfl | rfl <;> decide

theorem inArea_markPage0 (v : HalfWord) : InArea (.program page0BaseAddress v) := by
  constructor <;> decide

theorem inArea_markPage1 (v : HalfWord) : InArea (.program page1BaseAddress v) := by
  constructor <;> decide

theorem inArea_markOp (f : Content) : InArea (markOp f) := by
  unfold markOp newPageAddress
  split
  · exact inArea_markPage0 _
  · exact inArea_markPage1 _

/-- An entry stays in the area unless it goes to the last slot. -/
theorem opsInArea_append_iff {j : Nat} (hj : j ≤ lastSlot) {virtAddress data : HalfWord} :
    OpsInArea (append w j virtAddress data) ↔ OpsInArea w ∧ j ≠ lastSlot := by
  have hlast : lastSlot = 0xFFFF := rfl
  have hend : eepromStartAddress + 2 * pageSize = 0x08100000 := rfl
  have hdata : InArea (.program (slotAddress j) data) := by
    unfold InArea Op.Inside
    rw [hend, slotAddress_eq, eepromStartAddress_eq]
    omega
  have hva : InArea (.program (slotAddress j + 2) virtAddress) ↔ j ≠ lastSlot := by
    unfold InArea Op.Inside
    rw [hend, slotAddress_eq, eepromStartAddress_eq]
    omega
  rw [append, opsInArea_issue_iff, opsInArea_issue_iff, hva]
  simp only [hdata, and_true]

end Ops

theorem freeSlot_le_lastSlot {f : Content} {j : Nat} (hpage : readPage f ≠ noValidPage)
    (hslot : freeSlot f = some j) : j ≤ lastSlot := by
  have hlast : lastSlot = 0xFFFF := rfl
  have hslots : slotsPerPage = 0x8000 := rfl
  have hlt := (freeSlot_eq_some_iff.mp hslot).2.2.1
  rcases writePage_cases (writePage_ne_noValidPage_iff.mpr hpage) with
    hp | hp
  · rw [hp, firstSlot_page0] at hlt
    omega
  · rw [hp, firstSlot_page1] at hlt
    omega

/-! ## Filling a page -/

/-- Filling up the page that is written would use its last slot. -/
def FillsLastSlot (f : Content) : Prop := writePage f = page1 ∧ slotFree f lastSlot = true

/-- Along a run of appends the written page stays the same, free slots only get
fewer, and the operations stay in the area as long as the last slot is not taken. -/
structure Filled (w w' : World) : Prop where
  settled : Settled w'.flash
  writePage : writePage w'.flash = writePage w.flash
  mono : slotFree w'.flash lastSlot = true → slotFree w.flash lastSlot = true
  inArea : OpsInArea w' ↔
    OpsInArea w ∧ slotFree w'.flash lastSlot = slotFree w.flash lastSlot
  /-- Page 0 is filled without touching the last slot of page 1. -/
  other : Eeprom.writePage w.flash = page0 → slotFree w'.flash lastSlot = slotFree w.flash lastSlot

theorem filled_of_appendSteps {w w' : World} (hok : w.HalOk) (hs : Settled w.flash)
    (hreach : Relation.ReflTransGen AppendStep w w') : Filled w w' := by
  induction hreach with
  | refl => exact ⟨hs, rfl, id, by simp, fun _ => rfl⟩
  | @tail u v hreach hstep ih =>
      obtain ⟨data, hva, hslot⟩ := hstep
      rename_i j virtAddress
      have hfree := slotFree_of_freeSlot hslot
      have hflash := append_flash ((evolves_appendSteps hreach).halOk hok) hfree virtAddress data
      have hle := freeSlot_le_lastSlot ih.settled.page hslot
      have hlt := (freeSlot_eq_some_iff.mp hslot).2.2.1
      refine ⟨?_, ?_, ?_, ?_, ?_⟩
      · rw [hflash]
        exact ih.settled.append hfree
      · rw [hflash, ih.settled.writePage hfree, ih.writePage]
      · rw [hflash]
        by_cases hj : lastSlot = j
        · rw [hj, slotFree_appendFlash_self hva]
          intro h
          cases h
        · rw [slotFree_appendFlash_of_ne hj]
          exact ih.mono
      · rw [opsInArea_append_iff hle, ih.inArea, hflash, and_assoc]
        refine and_congr_right fun _ => ?_
        by_cases hj : lastSlot = j
        · -- The last slot is filled: it was free before and is not any more.
          rw [← hj] at hfree ⊢
          rw [slotFree_appendFlash_self hva, ih.mono hfree]
          simp
        · rw [slotFree_appendFlash_of_ne hj]
          simp [Ne.symm hj]
      · intro hp
        have hlast : lastSlot = 0xFFFF := rfl
        have hslots : slotsPerPage = 0x8000 := rfl
        rw [ih.writePage, hp, firstSlot_page0] at hlt
        rw [hflash, slotFree_appendFlash_of_ne (by omega), ih.other hp]

/-- Appends that fill the page stay in the area unless the page is page 1 and
its last slot was free. -/
theorem opsInArea_full_iff {w w' : World} (hok : w.HalOk) (hs : Settled w.flash)
    (hreach : Relation.ReflTransGen AppendStep w w') (hfull : freeSlot w'.flash = none) :
    OpsInArea w' ↔ OpsInArea w ∧ ¬ FillsLastSlot w.flash := by
  have hfilled := filled_of_appendSteps hok hs hreach
  rw [hfilled.inArea]
  refine and_congr_right fun _ => ?_
  rcases writePage_cases (writePage_ne_noValidPage_iff.mpr hs.page) with
    hp | hp
  · have hne : page0 ≠ page1 := by decide
    simp [FillsLastSlot, hp, hne, hfilled.other hp]
  · have hused : slotFree w'.flash lastSlot = false := by
      refine SlotLog.firstFree_eq_none_iff.mp hfull lastSlot ?_ ?_
      · rw [hfilled.writePage, hp, firstSlot_page1]
        decide
      · rw [hfilled.writePage, hp, firstSlot_page1]
        decide
    rw [hused, FillsLastSlot, not_and]
    constructor
    · intro heq _
      rw [← heq]
      exact Bool.false_ne_true
    · intro h
      exact ((Bool.not_eq_true _).mp (h hp)).symm

/-! ## One write -/

/-- The calls of `EE_WriteVariable` that stay in the area: no page is valid; or
the entry goes to another slot than the last; or the page is full, a transfer
does not fit, and giving up on it does not fill the last slot. -/
def WriteSafe (f : Content) (virtAddress : HalfWord) : Prop :=
  readPage f = noValidPage ∨
    (∃ j, freeSlot f = some j ∧ j ≠ lastSlot) ∨
    (freeSlot f = none ∧ ¬ TransferFits f virtAddress ∧ ¬ FillsLastSlot (marked f))

theorem opsInArea_afterWrite_iff {w : World} (hok : w.HalOk) (write : Write) :
    OpsInArea (afterWrite w write) ↔ OpsInArea w ∧ WriteSafe w.flash write.1 := by
  obtain ⟨status, -, hout⟩ := writeOutcome hok write
  generalize afterWrite w write = w' at hout
  cases hout with
  | noValidPage hpage => simp [WriteSafe, hpage]
  | @appended j hpage hslot =>
      rw [opsInArea_append_iff (freeSlot_le_lastSlot hpage hslot)]
      simp [WriteSafe, hpage, hslot]
  | @transferred w' hpage hslot hfits hreach =>
      -- The old page's identifier names a sector of the program.
      have hid : oldPageId w.flash = page0Id ∨ oldPageId w.flash = page1Id := by
        unfold oldPageId
        split
        · exact Or.inr rfl
        · exact Or.inl rfl
      rw [finishTransfer, opsInArea_issue_iff, opsInArea_issue_iff]
      simp [WriteSafe, hpage, hslot, hfits, not_inArea_erase hid]
  | full hpage hslot hfits hreach hfull =>
      have hmark : (w.issue (markOp w.flash)).flash = marked w.flash := World.issue_flash hok _
      have hs : Settled (w.issue (markOp w.flash)).flash := hmark ▸ settled_marked hpage
      rw [opsInArea_full_iff (hok.issue _) hs hreach hfull, opsInArea_issue_iff, hmark]
      simp [WriteSafe, hpage, hslot, hfits, inArea_markOp]

/-! ## Start-up -/

/-- The world after `EE_Init`, whatever it returned. -/
def afterInit (w : World) : World := finalState (eeInit.run w)

/-- The flash contents on which `EE_Init` stays in the area: page 0 passes the
erase check; or page 0 is receiving or valid and page 1 passes it; or a transfer
is resumed that does not fit, and giving up on it does not fill the last slot. -/
def InitSafe (f : Content) : Prop :=
  eeVerifyPageFullyErased f page0BaseAddress = true ∨
    (f page0BaseAddress = receiveData ∨ f page0BaseAddress = validPage) ∧
      eeVerifyPageFullyErased f page1BaseAddress = true ∨
    ∃ newBase oldBase oldId, Resumes f newBase oldBase oldId ∧
      freeSlots f < carried (skipReceived newBase) f virtAddresses ∧ ¬ FillsLastSlot f

/-- The erase step stays in the area only when it erases nothing. -/
theorem opsInArea_afterErase_iff {w : World} {base n : Nat} (hn : n = page0Id ∨ n = page1Id) :
    OpsInArea (afterErase w base n) ↔
      OpsInArea w ∧ eeVerifyPageFullyErased w.flash base = true := by
  unfold afterErase
  split
  · rename_i hverify
    simp [hverify]
  · rename_i hverify
    rw [opsInArea_issue_iff]
    simp [hverify, not_inArea_erase hn]

/-- Formatting stays in the area only when it erases nothing. -/
theorem opsInArea_afterFormat_iff {w : World} (hok : w.HalOk) :
    OpsInArea (afterFormat w) ↔
      OpsInArea w ∧ eeVerifyPageFullyErased w.flash page0BaseAddress = true := by
  rw [afterFormat, opsInArea_afterErase_iff (Or.inr rfl), opsInArea_issue_iff,
    opsInArea_afterErase_iff (Or.inl rfl)]
  constructor
  · rintro ⟨⟨h, -⟩, -⟩
    exact h
  · rintro ⟨hops, hverify⟩
    refine ⟨⟨⟨hops, hverify⟩, inArea_markPage0 _⟩, ?_⟩
    have hsame : afterErase w page0BaseAddress page0Id = w := by
      rw [afterErase, if_pos hverify]
    have hcongr : eeVerifyPageFullyErased
        (w.issue (.program page0BaseAddress validPage)).flash page1BaseAddress =
        eeVerifyPageFullyErased w.flash page1BaseAddress := by
      apply eeVerifyPageFullyErased_congr
      intro a ha
      have hne : a ≠ page0BaseAddress := by
        rw [page1BaseAddress_eq] at ha
        rw [page0BaseAddress_eq]
        omega
      rw [World.issue_flash hok, Op.apply, Function.update_of_ne hne]
    rw [hsame, hcongr]
    exact eeVerifyPageFullyErased_page1_of_page0 hverify

section InitSafe

variable {f : Content}


/-- No page that is not erased passes its check, and no transfer is resumed with
a status word erased. -/
theorem initSafe_iff_of_erased0 (h0 : f page0BaseAddress = erased) :
    InitSafe f ↔ eeVerifyPageFullyErased f page0BaseAddress = true := by
  constructor
  · rintro (h | ⟨h | h, -⟩ | ⟨_, _, _, hres, -, -⟩)
    · exact h
    · exact absurd (h0.symm.trans h) erased_ne_receiveData
    · exact absurd (h0.symm.trans h) erased_ne_validPage
    · cases hres with
      | intoPage0 h => exact absurd (h0.symm.trans h) erased_ne_receiveData
      | intoPage1 h => exact absurd (h0.symm.trans h) erased_ne_validPage
  · exact Or.inl

theorem initSafe_iff_of_erased1 (h1 : f page1BaseAddress = erased)
    (h0 : f page0BaseAddress = receiveData ∨ f page0BaseAddress = validPage) :
    InitSafe f ↔ eeVerifyPageFullyErased f page1BaseAddress = true := by
  constructor
  · rintro (h | ⟨-, h⟩ | ⟨_, _, _, hres, -, -⟩)
    · exact eeVerifyPageFullyErased_page1_of_page0 h
    · exact h
    · cases hres with
      | intoPage0 _ h => exact absurd (h1.symm.trans h) erased_ne_validPage
      | intoPage1 _ _ h => exact absurd h1 h
  · exact fun h => Or.inr (Or.inl ⟨h0, h⟩)

theorem initSafe_iff_of_formats (hformat : Formats f) :
    InitSafe f ↔ eeVerifyPageFullyErased f page0BaseAddress = true := by
  constructor
  · rintro (h | ⟨h0, h⟩ | ⟨_, _, _, hres, -, -⟩)
    · exact h
    · have h1 := page1Base_of_verify h
      rcases hformat with ⟨hf, -⟩ | ⟨-, -, hf⟩ | ⟨-, hf⟩ | ⟨-, hr, hv⟩
      · exact (initSafe_iff_of_erased0 hf).mp (Or.inr (Or.inl ⟨h0, h⟩))
      · exact absurd h1 hf
      · exact absurd (h1.symm.trans hf) erased_ne_validPage
      · rcases h0 with h0 | h0
        · exact absurd h0 hr
        · exact absurd h0 hv
    · exfalso
      cases hres with
      | intoPage0 h0 h1 =>
          rcases hformat with ⟨hf, -⟩ | ⟨-, hf, -⟩ | ⟨hf, -⟩ | ⟨-, hr, -⟩
          · exact erased_ne_receiveData (hf.symm.trans h0)
          · exact hf h1
          · exact receiveData_ne_validPage (h0.symm.trans hf)
          · exact hr h0
      | intoPage1 h0 h1 h1' =>
          rcases hformat with ⟨hf, -⟩ | ⟨hf, -⟩ | ⟨-, hf⟩ | ⟨-, -, hv⟩
          · exact erased_ne_validPage (hf.symm.trans h0)
          · exact receiveData_ne_validPage (hf.symm.trans h0)
          · exact h1 hf
          · exact hv h0
  · exact Or.inl

theorem Resumes.verify {newBase oldBase oldId : Nat} (h : Resumes f newBase oldBase oldId) :
    eeVerifyPageFullyErased f page0BaseAddress = false ∧
      eeVerifyPageFullyErased f page1BaseAddress = false := by
  rw [← Bool.not_eq_true, ← Bool.not_eq_true]
  cases h with
  | intoPage0 h0 h1 =>
      refine ⟨fun hv => ?_, fun hv => ?_⟩
      · exact erased_ne_receiveData ((page0Base_of_verify hv).symm.trans h0)
      · exact erased_ne_validPage ((page1Base_of_verify hv).symm.trans h1)
  | intoPage1 h0 h1 h1' =>
      refine ⟨fun hv => ?_, fun hv => ?_⟩
      · exact erased_ne_validPage ((page0Base_of_verify hv).symm.trans h0)
      · exact h1' (page1Base_of_verify hv)

theorem Resumes.unique {newBase oldBase oldId newBase' oldBase' oldId' : Nat}
    (h : Resumes f newBase oldBase oldId) (h' : Resumes f newBase' oldBase' oldId') :
    newBase' = newBase := by
  cases h with
  | intoPage0 h0 h1 =>
      cases h' with
      | intoPage0 => rfl
      | intoPage1 h0' h1' => exact absurd h1 h1'
  | intoPage1 h0 h1 =>
      cases h' with
      | intoPage0 h0' h1' => exact absurd h1' h1
      | intoPage1 => rfl

theorem initSafe_iff_of_resumes {newBase oldBase oldId : Nat}
    (hres : Resumes f newBase oldBase oldId) :
    InitSafe f ↔
      freeSlots f < carried (skipReceived newBase) f virtAddresses ∧ ¬ FillsLastSlot f := by
  constructor
  · rintro (h | ⟨-, h⟩ | ⟨newBase', _, _, hres', hfits, hlast⟩)
    · rw [hres.verify.1] at h
      cases h
    · rw [hres.verify.2] at h
      cases h
    · rw [hres.unique hres'] at hfits
      exact ⟨hfits, hlast⟩
  · rintro ⟨hfits, hlast⟩
    exact Or.inr (Or.inr ⟨_, _, _, hres, hfits, hlast⟩)

/-- A resumed transfer ends with an erase: the page it received from is valid and
fails the erase check. -/
theorem Resumes.erases {w : World} {newBase oldBase oldId : Nat}
    (h : Resumes w.flash newBase oldBase oldId) (hok : w.HalOk) {w' : World}
    (hreach : Relation.ReflTransGen AppendStep w w') :
    ¬ OpsInArea (afterErase (w'.issue (.program newBase validPage)) oldBase oldId) := by
  have hevolves := IsTrans.trans _ _ _ (evolves_appendSteps hreach)
    (evolves_issue w' (.program newBase validPage) trivial)
  cases h with
  | intoPage0 h0 h1 =>
      rw [opsInArea_afterErase_iff (Or.inr rfl)]
      rintro ⟨-, hverify⟩
      have hvalid := hevolves.cleared hok (Nat.le_add_right _ _) h1
      exact erased_ne_validPage ((page1Base_of_verify hverify).symm.trans hvalid)
  | intoPage1 h0 h1 h1' =>
      rw [opsInArea_afterErase_iff (Or.inl rfl)]
      rintro ⟨-, hverify⟩
      have hvalid := hevolves.cleared hok (Nat.le_refl _) h0
      exact erased_ne_validPage ((page0Base_of_verify hverify).symm.trans hvalid)

end InitSafe

theorem opsInArea_afterInit_iff {w : World} (hok : w.HalOk) :
    OpsInArea (afterInit w) ↔ OpsInArea w ∧ InitSafe w.flash := by
  obtain ⟨status, w', hrun, hout⟩ := run_eeInit_outcome hok
  have hafter : afterInit w = w' := by rw [afterInit, hrun, finalState_ok]
  rw [hafter]
  cases hout with
  | page1Valid h0 h1 =>
      rw [opsInArea_afterErase_iff (Or.inl rfl), initSafe_iff_of_erased0 h0]
  | page1Received h0 h1 =>
      rw [opsInArea_issue_iff, opsInArea_afterErase_iff (Or.inl rfl), initSafe_iff_of_erased0 h0]
      exact and_iff_left (inArea_markPage1 _)
  | page0Received h0 h1 =>
      rw [opsInArea_issue_iff, opsInArea_afterErase_iff (Or.inr rfl),
        initSafe_iff_of_erased1 h1 (Or.inl h0)]
      exact and_iff_left (inArea_markPage0 _)
  | page0Valid h0 h1 =>
      rw [opsInArea_afterErase_iff (Or.inr rfl), initSafe_iff_of_erased1 h1 (Or.inr h0)]
  | formatted hformat =>
      rw [opsInArea_afterFormat_iff hok, initSafe_iff_of_formats hformat]
  | resumed hres hreach hfits =>
      rw [initSafe_iff_of_resumes hres]
      refine iff_of_false (hres.erases hok hreach) ?_
      rintro ⟨-, hlt, -⟩
      exact absurd hfits (Nat.not_le.mpr hlt)
  | full hres hreach hfits hslot =>
      rw [opsInArea_full_iff hok hres.settled hreach hslot, initSafe_iff_of_resumes hres]
      simp [hfits]

theorem evolves_afterInit (w : World) : Evolves w (afterInit w) := moves_eeInit w

/-- For every flash content and every sequence of writes after `EE_Init`, when all HAL
calls succeed: all that is programmed and erased lies in the emulation area exactly
when start-up and each write are safe in the state they find. -/
theorem opsInArea_afterWrites_iff (f : Content) (writes : List Write) :
    OpsInArea (afterWrites (afterInit (World.boot f)) writes) ↔
      InitSafe f ∧ EachStep afterWrite (fun w write => WriteSafe w.flash write.1)
        (afterInit (World.boot f)) writes := by
  have hok := World.boot_halOk f
  have hempty : OpsInArea (World.boot f) := by simp [OpsInArea]
  have hrun := EachStep.holds_iff World.HalOk OpsInArea
    (fun w write hs => (evolves_afterWrite w write).halOk hs)
    (fun w write hs => opsInArea_afterWrite_iff hs write)
    writes ((evolves_afterInit (World.boot f)).halOk hok)
  rw [afterWrites, hrun, opsInArea_afterInit_iff hok]
  simp [hempty]

/-- On a flash full of zeros `EE_Init` erases a sector of the program. -/
theorem zeros_program_erased :
    ¬ ∀ (f : Content) (writes : List Write),
      OpsInArea (afterWrites (afterInit (World.boot f)) writes) := by
  intro hclaim
  have hops := hclaim zeros []
  have hinit : afterInit (World.boot zeros) = zerosStarted := by
    rw [afterInit, run_eeInit_zeros, finalState_ok]
  rw [afterWrites, List.foldl_nil, hinit] at hops
  have herase : Op.erase page0Id ∈ zerosStarted.ops := by decide
  exact not_inArea_erase (Or.inl rfl) (hops _ herase)

end WindradLogger.Eeprom
