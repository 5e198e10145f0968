import WindradLogger.Eeprom.Slots

set_option autoImplicit false

/-!
# Appending an entry

What one call of `EE_VerifyPageFullWriteVariable` does when the HAL calls
succeed, said once: it returns `NO_VALID_PAGE`, or it returns `PAGE_FULL`, or it
fills one free slot.  Everything later is derived from this and from what
filling a slot does to the log, to the two page status words and to the reads.
-/

namespace WindradLogger.Eeprom

open WindradLogger.Flash WindradLogger.Lib

/-- Flash after an entry has been programmed into the free slot `j`. -/
def appendFlash (f : Content) (j : Nat) (virtAddress data : HalfWord) : Content :=
  Function.update (Function.update f (slotAddress j) data) (slotAddress j + 2) virtAddress

/-- The two operations that write an entry. -/
def appendOps (j : Nat) (virtAddress data : HalfWord) : List Op :=
  [.program (slotAddress j) data, .program (slotAddress j + 2) virtAddress]

theorem erased_and (v : HalfWord) : 0xFFFF#16 &&& v = v := by
  have hones : (0xFFFF#16) = BitVec.allOnes 16 := by decide
  rw [hones, BitVec.allOnes_and]

/-- No variable has the address an erased half-word reads as. -/
theorem erased_ne_virtAddress {virtAddress : HalfWord}
    (hva : virtAddress.toNat < eepromSizeU16) : 0xFFFF#16 ≠ virtAddress := by
  rintro rfl
  exact absurd hva (by decide)

/-- Programming an erased half-word stores the data. -/
theorem program_apply_of_erased {f : Content} {a : Nat} (h : f a = 0xFFFF#16) (v : HalfWord) :
    (Op.program a v).apply f = Function.update f a v := by
  rw [Op.apply, h, erased_and]

theorem applyOps_appendOps {f : Content} {j : Nat} (hfree : slotFree f j = true)
    (virtAddress data : HalfWord) :
    applyOps (appendOps j virtAddress data) f = appendFlash f j virtAddress data := by
  obtain ⟨hdata, hva⟩ := slotFree_iff.mp hfree
  have hne : slotAddress j + 2 ≠ slotAddress j := (slotAddress_ne_add_two j j).symm
  have hva' : Function.update f (slotAddress j) data (slotAddress j + 2) = 0xFFFF#16 := by
    rw [Function.update_of_ne hne, hva]
  rw [appendOps, applyOps_cons, applyOps_cons, applyOps_nil, program_apply_of_erased hdata,
    program_apply_of_erased hva', appendFlash]

/-- The world after an entry has been written into slot `j`. -/
def append (w : World) (j : Nat) (virtAddress data : HalfWord) : World :=
  (w.issue (.program (slotAddress j) data)).issue (.program (slotAddress j + 2) virtAddress)

section Append

variable {w : World} {j : Nat} {virtAddress data : HalfWord}

@[simp] theorem append_ops :
    (append w j virtAddress data).ops = w.ops ++ appendOps j virtAddress data := by
  simp [append, appendOps]

theorem append_ops_length :
    (append w j virtAddress data).ops.length = w.ops.length + 2 := by
  rw [append_ops, List.length_append]
  rfl

end Append

theorem append_flash {w : World} (h : w.HalOk) {j : Nat} (hfree : slotFree w.flash j = true)
    (virtAddress data : HalfWord) :
    (append w j virtAddress data).flash = appendFlash w.flash j virtAddress data := by
  rw [← applyOps_appendOps hfree, append, World.issue_flash (h.issue _), World.issue_flash h]
  rfl

theorem freeSlot_eq_some_iff {f : Content} {j : Nat} :
    freeSlot f = some j ↔
      slotFree f j = true ∧ firstSlot (writePage f) ≤ j ∧
        j < firstSlot (writePage f) + slotsPerPage ∧
        ∀ i, firstSlot (writePage f) ≤ i → i < j → slotFree f i = false :=
  SlotLog.firstFree_eq_some_iff

theorem slotFree_of_freeSlot {f : Content} {j : Nat} (h : freeSlot f = some j) :
    slotFree f j = true :=
  (freeSlot_eq_some_iff.mp h).1

/-! ## The call -/

theorem run_eeReadVariable {virtAddress : HalfWord} (hva : virtAddress.toNat < eepromSizeU16)
    (data : HalfWord) (w : World) :
    (eeReadVariable virtAddress data).run w = .ok (readVariable w.flash virtAddress data) w := by
  simp only [eeReadVariable, hva, decide_true, EStateM.run_bind, run_assert_true, run_readFlash,
    EStateM.run_pure]

/-- The specification of `EE_VerifyPageFullWriteVariable`, whatever its HAL calls
return: the second one is made only when the first one succeeded. -/
theorem run_eeVerifyPageFullWriteVariable_any (w : World) {virtAddress : HalfWord}
    (hva : virtAddress.toNat < eepromSizeU16) (data : HalfWord) :
    (eeVerifyPageFullWriteVariable virtAddress data).run w =
      if writePage w.flash = noValidPage then .ok noValidPage w
      else match freeSlot w.flash with
        | some j =>
            if w.hal w.ops.length = .ok then
              .ok (w.hal (w.ops.length + 1)).toU16 (append w j virtAddress data)
            else .ok (w.hal w.ops.length).toU16 (w.issue (.program (slotAddress j) data))
        | none => .ok pageFull w := by
  simp only [eeVerifyPageFullWriteVariable, hva, decide_true, EStateM.run_bind, run_assert_true,
    run_readFlash, nextFreeSlot_eq, eeFindValidPage_write]
  by_cases hpage : writePage w.flash = noValidPage
  · rw [if_pos hpage, if_pos hpage]
    rfl
  · rw [if_neg hpage, if_neg hpage]
    cases hslot : freeSlot w.flash with
    | none => rfl
    | some j =>
        have hlen (op : Op) : (w.issue op).ops.length = w.ops.length + 1 := by
          rw [World.issue_ops, List.length_append, List.length_singleton]
        simp only [Option.map_some, EStateM.run_bind, run_halFlashProgram_any]
        rcases eq_or_ne (w.hal w.ops.length) .ok with hfirst | hfirst
        · rw [if_neg (not_not.mpr hfirst), if_pos hfirst]
          simp only [EStateM.run_bind, run_halFlashProgram_any, World.issue_hal, hlen, append]
          rfl
        · rw [if_pos hfirst, if_neg hfirst]
          rfl

/-- The same when the HAL calls succeed. -/
theorem run_eeVerifyPageFullWriteVariable {w : World} (h : w.HalOk) {virtAddress : HalfWord}
    (hva : virtAddress.toNat < eepromSizeU16) (data : HalfWord) :
    (eeVerifyPageFullWriteVariable virtAddress data).run w =
      if writePage w.flash = noValidPage then .ok noValidPage w
      else match freeSlot w.flash with
        | some j => .ok HalStatus.ok.toU16 (append w j virtAddress data)
        | none => .ok pageFull w := by
  rw [run_eeVerifyPageFullWriteVariable_any w hva data, h, h]
  rfl

theorem pageFull_ne_ok : pageFull ≠ HalStatus.ok.toU16 := by decide
theorem noValidPage_ne_pageFull : noValidPage ≠ pageFull := by decide

/-- With a free slot in the page that is written, `EE_WriteVariable` fills it. -/
theorem run_eeWriteVariable_of_freeSlot {w : World} (h : w.HalOk) {virtAddress : HalfWord}
    (hva : virtAddress.toNat < eepromSizeU16) (data : HalfWord)
    (hpage : writePage w.flash ≠ noValidPage) {j : Nat} (hslot : freeSlot w.flash = some j) :
    (eeWriteVariable virtAddress data).run w =
      .ok HalStatus.ok.toU16 (append w j virtAddress data) := by
  have hwrite := run_eeVerifyPageFullWriteVariable h hva data
  rw [if_neg hpage, hslot] at hwrite
  simp only at hwrite
  have hne : HalStatus.ok.toU16 ≠ pageFull := pageFull_ne_ok.symm
  simp [eeWriteVariable, hva, hwrite, hne]

/-- Without one it goes on to `EE_PageTransfer`. -/
theorem run_eeWriteVariable_of_full {w : World} (h : w.HalOk) {virtAddress : HalfWord}
    (hva : virtAddress.toNat < eepromSizeU16) (data : HalfWord)
    (hpage : writePage w.flash ≠ noValidPage) (hslot : freeSlot w.flash = none) :
    (eeWriteVariable virtAddress data).run w = (eePageTransfer virtAddress data).run w := by
  have hwrite := run_eeVerifyPageFullWriteVariable h hva data
  rw [if_neg hpage, hslot] at hwrite
  simp only at hwrite
  simp [eeWriteVariable, hva, hwrite]

theorem run_eeWriteVariable_of_noValidPage {w : World} (h : w.HalOk) {virtAddress : HalfWord}
    (hva : virtAddress.toNat < eepromSizeU16) (data : HalfWord)
    (hpage : writePage w.flash = noValidPage) :
    (eeWriteVariable virtAddress data).run w = .ok noValidPage w := by
  have hwrite := run_eeVerifyPageFullWriteVariable h hva data
  rw [if_pos hpage] at hwrite
  simp [eeWriteVariable, hva, hwrite, noValidPage_ne_pageFull]

/-! ## What filling a slot changes -/

section AppendFlash

variable {f : Content} {j : Nat} {virtAddress data : HalfWord}

theorem appendFlash_of_ne {a : Nat} (h1 : a ≠ slotAddress j) (h2 : a ≠ slotAddress j + 2) :
    appendFlash f j virtAddress data a = f a := by
  rw [appendFlash, Function.update_of_ne h2, Function.update_of_ne h1]

/-- In the log, filling a slot is `SlotLog.put`. -/
theorem slots_appendFlash (f : Content) (j : Nat) (virtAddress data : HalfWord) :
    slots (appendFlash f j virtAddress data) = SlotLog.put (slots f) j virtAddress data := by
  funext i
  by_cases hij : i = j
  · subst hij
    simp [slots, SlotLog.put, appendFlash]
  · have h1 : slotAddress i ≠ slotAddress j := fun h => hij (slotAddress_inj.mp h)
    have h2 : slotAddress i + 2 ≠ slotAddress j + 2 := by
      intro h
      exact h1 (Nat.add_right_cancel h)
    simp only [slots, SlotLog.put, Function.update_of_ne hij]
    rw [appendFlash_of_ne h1 (slotAddress_ne_add_two i j),
      appendFlash_of_ne (slotAddress_ne_add_two j i).symm h2]

theorem slotFree_appendFlash_of_ne {i : Nat} (h : i ≠ j) :
    slotFree (appendFlash f j virtAddress data) i = slotFree f i := by
  have hi : slots (appendFlash f j virtAddress data) i = slots f i := by
    rw [slots_appendFlash, SlotLog.put, Function.update_of_ne h]
  have h1 := congrArg Prod.fst hi
  have h2 := congrArg Prod.snd hi
  simp only [slots] at h1 h2
  simp only [slotFree, h1, h2]

/-- A filled slot is not free: no virtual address in use is `0xFFFF`. -/
theorem slotFree_appendFlash_self (hva : virtAddress.toNat < eepromSizeU16) :
    slotFree (appendFlash f j virtAddress data) j = false := by
  simp [slotFree, appendFlash, (erased_ne_virtAddress hva).symm]

theorem appendFlash_page0Base :
    appendFlash f j virtAddress data page0BaseAddress = f page0BaseAddress :=
  appendFlash_of_ne (slotAddress_ne_page0Base j).symm (slotAddress_add_two_ne_page0Base j).symm

theorem appendFlash_page1Base (h : j ≠ statusSlot) :
    appendFlash f j virtAddress data page1BaseAddress = f page1BaseAddress :=
  appendFlash_of_ne (slotAddress_ne_page1Base j).symm
    fun heq => h (slotAddress_add_two_eq_page1Base.mp heq.symm)

/-- The entry in slot `0xFFF` overwrites the status of page 1 by its virtual
address. -/
theorem appendFlash_page1Base_statusSlot :
    appendFlash f statusSlot virtAddress data page1BaseAddress = virtAddress := by
  rw [← slotAddress_add_two_eq_page1Base.mpr rfl, appendFlash, Function.update_self]

theorem readPage_appendFlash (hfree : slotFree f j = true) (hpage : readPage f ≠ noValidPage) :
    readPage (appendFlash f j virtAddress data) = readPage f := by
  rw [readPage_eq, readPage_eq, appendFlash_page0Base]
  by_cases h0 : f page0BaseAddress = validPage
  · rw [if_pos h0, if_pos h0]
  · -- The status of page 1 is VALID_PAGE, so slot 0xFFF is taken already.
    have h1 : f page1BaseAddress = validPage := by
      by_contra h1
      exact hpage (readPage_eq_noValidPage_iff.mpr ⟨h0, h1⟩)
    have hj : j ≠ statusSlot := by
      intro hj
      have hva := (slotFree_iff.mp hfree).2
      rw [slotAddress_add_two_eq_page1Base.mpr hj, h1] at hva
      exact absurd hva (by decide)
    rw [appendFlash_page1Base hj]

/-- An append does not change what is stored for another virtual address. -/
theorem stored_appendFlash_of_ne (hfree : slotFree f j = true) (hpage : readPage f ≠ noValidPage)
    {other : HalfWord} (hother : other.toNat < eepromSizeU16) (hne : other ≠ virtAddress) :
    stored (appendFlash f j virtAddress data) other = stored f other := by
  have hold : (slots f j).1 ≠ other := by
    simp only [slots, (slotFree_iff.mp hfree).2]
    exact erased_ne_virtAddress hother
  rw [stored, stored, readPage_appendFlash hfree hpage, slots_appendFlash]
  exact SlotLog.lookup_put_of_ne hne hold

theorem readVariable_appendFlash_of_ne (hfree : slotFree f j = true)
    (hpage : readPage f ≠ noValidPage) {other : HalfWord}
    (hother : other.toNat < eepromSizeU16) (hne : other ≠ virtAddress) (old : HalfWord) :
    readVariable (appendFlash f j virtAddress data) other old = readVariable f other old := by
  rw [readVariable_eq, readVariable_eq, readPage_appendFlash hfree hpage,
    stored_appendFlash_of_ne hfree hpage hother hne]

end AppendFlash

/-! ## Visibility -/

/-- A read of `virtAddress` would stop at an entry for it in slot `j`: the slot is
among those the reader scans, and no slot above it is for `virtAddress`. -/
def InSight (f : Content) (virtAddress : HalfWord) (j : Nat) : Prop :=
  SlotLog.Visible (slots f) (firstSlot (readPage f)) slotsPerPage virtAddress j

theorem stored_appendFlash_self {f : Content} {j : Nat} {virtAddress data : HalfWord}
    (hfree : slotFree f j = true) (hpage : readPage f ≠ noValidPage)
    (hsight : InSight f virtAddress j) :
    stored (appendFlash f j virtAddress data) virtAddress = some data := by
  rw [stored, readPage_appendFlash hfree hpage, slots_appendFlash]
  exact SlotLog.lookup_put_self hsight

/-- An append out of the reader's sight leaves its variable as it was. -/
theorem stored_appendFlash_of_not_inSight {f : Content} {j : Nat} {virtAddress data : HalfWord}
    (hfree : slotFree f j = true) (hpage : readPage f ≠ noValidPage)
    (hsight : ¬ InSight f virtAddress j) :
    stored (appendFlash f j virtAddress data) virtAddress = stored f virtAddress := by
  rw [stored, stored, readPage_appendFlash hfree hpage, slots_appendFlash]
  exact SlotLog.lookup_put_of_not_visible hsight

/-- The data of an append is what a read returns exactly when the entry is in
sight or the variable held that data before. -/
theorem stored_appendFlash_self_iff {f : Content} {j : Nat} {virtAddress data : HalfWord}
    (hfree : slotFree f j = true) (hpage : readPage f ≠ noValidPage) :
    stored (appendFlash f j virtAddress data) virtAddress = some data ↔
      InSight f virtAddress j ∨ stored f virtAddress = some data := by
  by_cases hsight : InSight f virtAddress j
  · simp [stored_appendFlash_self hfree hpage hsight, hsight]
  · simp [stored_appendFlash_of_not_inSight hfree hpage hsight, hsight]

end WindradLogger.Eeprom
