import WindradLogger.Eeprom.Append

set_option autoImplicit false

/-!
# Appends that a HAL call cuts short

The two half-words of an entry are programmed by two HAL calls, and either may
fail.  If the first one fails nothing changes; if the second one fails the slot
keeps its data and gets no virtual address.  Such a slot is neither free nor an
entry for any variable.  Whatever the calls return, `EE_VerifyPageFullWriteVariable`
changes one slot only, and no variable but the one it was called for.
-/

namespace WindradLogger.Eeprom

open WindradLogger.Flash WindradLogger.Lib

section Torn

variable {f : Content} {j : Nat} {data : HalfWord}

/-- Flash after the data half-word only. -/
def tornFlash (f : Content) (j : Nat) (data : HalfWord) : Content :=
  Function.update f (slotAddress j) data

theorem tornFlash_of_ne {a : Nat} (h : a ≠ slotAddress j) : tornFlash f j data a = f a :=
  Function.update_of_ne h _ _

theorem tornFlash_page0Base : tornFlash f j data page0BaseAddress = f page0BaseAddress :=
  tornFlash_of_ne (slotAddress_ne_page0Base j).symm

theorem tornFlash_page1Base : tornFlash f j data page1BaseAddress = f page1BaseAddress :=
  tornFlash_of_ne (slotAddress_ne_page1Base j).symm

theorem tornFlash_key (i : Nat) : tornFlash f j data (slotAddress i + 2) = f (slotAddress i + 2) :=
  tornFlash_of_ne (slotAddress_ne_add_two j i).symm

/-- In the log, the slot has new data under the key it had before. -/
theorem slots_tornFlash :
    slots (tornFlash f j data) = SlotLog.put (slots f) j (f (slotAddress j + 2)) data := by
  funext i
  rcases eq_or_ne i j with rfl | hij
  · have hdata : tornFlash f i data (slotAddress i) = data := Function.update_self _ _ _
    simp only [slots, tornFlash_key, hdata, SlotLog.put, Function.update_self]
  · have hdata : tornFlash f j data (slotAddress i) = f (slotAddress i) :=
      tornFlash_of_ne fun h => hij (slotAddress_inj.mp h)
    simp only [slots, tornFlash_key, hdata, SlotLog.put, Function.update_of_ne hij]

/-- A torn entry is for no variable. -/
theorem readVariable_tornFlash (hfree : slotFree f j = true) {virtAddress : HalfWord}
    (hva : virtAddress.toNat < eepromSizeU16) (old : HalfWord) :
    readVariable (tornFlash f j data) virtAddress old = readVariable f virtAddress old := by
  have hkey := (slotFree_iff.mp hfree).2
  have hne := erased_ne_virtAddress hva
  have hpage : readPage (tornFlash f j data) = readPage f := by
    rw [readPage_eq, readPage_eq, tornFlash_page0Base, tornFlash_page1Base]
  have hstored : stored (tornFlash f j data) virtAddress = stored f virtAddress := by
    rw [stored, stored, hpage, slots_tornFlash, hkey]
    refine SlotLog.lookup_put_of_ne hne.symm ?_
    simp only [slots, hkey]
    exact hne
  rw [readVariable_eq, readVariable_eq, hpage, hstored]

end Torn

/-! ## The call -/

/-- What `EE_VerifyPageFullWriteVariable` can leave in flash. -/
inductive VerifyWriteFlash (f : Content) (virtAddress data : HalfWord) : Content → Prop where
  | unchanged : VerifyWriteFlash f virtAddress data f
  | torn {j : Nat} (hslot : freeSlot f = some j) :
      VerifyWriteFlash f virtAddress data (tornFlash f j data)
  | appended {j : Nat} (hpage : readPage f ≠ noValidPage) (hslot : freeSlot f = some j) :
      VerifyWriteFlash f virtAddress data (appendFlash f j virtAddress data)

section Issue

variable {w : World} {j : Nat} {virtAddress data : HalfWord}

theorem issue_hal_length (op : Op) :
    (w.issue op).hal (w.issue op).ops.length = w.hal (w.ops.length + 1) := by
  rw [World.issue_hal, World.issue_ops, List.length_append, List.length_singleton]

/-- The two calls of an append come before all others. -/
theorem halOkFor_append (w : World) (j : Nat) (virtAddress data : HalfWord) {n : Nat} :
    w.HalOkFor (n + 2) ↔ w.hal w.ops.length = .ok ∧ w.hal (w.ops.length + 1) = .ok ∧
      (append w j virtAddress data).HalOkFor n := by
  rw [World.halOkFor_succ (.program (slotAddress j) data),
    World.halOkFor_succ (.program (slotAddress j + 2) virtAddress), issue_hal_length, append]

/-- The first call, when it succeeds. -/
theorem issue_data_flash (hfree : slotFree w.flash j = true)
    (hfirst : w.hal w.ops.length = .ok) :
    (w.issue (.program (slotAddress j) data)).flash = tornFlash w.flash j data := by
  rw [World.issue_flash_of_ok hfirst, program_apply_of_erased (slotFree_iff.mp hfree).1, tornFlash]

/-- Both calls, when the second one fails. -/
theorem append_flash_of_ne_ok (hfree : slotFree w.flash j = true)
    (hfirst : w.hal w.ops.length = .ok) (hsecond : w.hal (w.ops.length + 1) ≠ .ok) :
    (append w j virtAddress data).flash = tornFlash w.flash j data := by
  rw [append, World.issue_flash_of_ne_ok (by rwa [issue_hal_length]),
    issue_data_flash hfree hfirst]

/-- Both calls, when both succeed. -/
theorem append_flash_of_ok (hfree : slotFree w.flash j = true)
    (hfirst : w.hal w.ops.length = .ok) (hsecond : w.hal (w.ops.length + 1) = .ok) :
    (append w j virtAddress data).flash = appendFlash w.flash j virtAddress data := by
  have hkey : tornFlash w.flash j data (slotAddress j + 2) = 0xFFFF#16 :=
    (tornFlash_key j).trans (slotFree_iff.mp hfree).2
  rw [append, World.issue_flash_of_ok (by rwa [issue_hal_length]),
    issue_data_flash hfree hfirst, program_apply_of_erased hkey, appendFlash, tornFlash]

end Issue

/-- Flash after a call, whatever the HAL returns. -/
theorem verifyWriteFlash (w : World) {virtAddress : HalfWord}
    (hva : virtAddress.toNat < eepromSizeU16) (data : HalfWord) :
    ∃ status w', (eeVerifyPageFullWriteVariable virtAddress data).run w = .ok status w' ∧
      VerifyWriteFlash w.flash virtAddress data w'.flash := by
  rw [run_eeVerifyPageFullWriteVariable_any w hva data]
  split
  · exact ⟨_, _, rfl, .unchanged⟩
  · rename_i hpage
    cases hslot : freeSlot w.flash with
    | none => exact ⟨_, _, rfl, .unchanged⟩
    | some j =>
        have hfree := slotFree_of_freeSlot hslot
        have hread := writePage_ne_noValidPage_iff.mp hpage
        rcases eq_or_ne (w.hal w.ops.length) .ok with hfirst | hfirst
        · simp only [if_pos hfirst]
          refine ⟨_, _, rfl, ?_⟩
          rcases eq_or_ne (w.hal (w.ops.length + 1)) .ok with hsecond | hsecond
          · rw [append_flash_of_ok hfree hfirst hsecond]
            exact .appended hread hslot
          · rw [append_flash_of_ne_ok hfree hfirst hsecond]
            exact .torn hslot
        · simp only [if_neg hfirst]
          refine ⟨_, _, rfl, ?_⟩
          rw [World.issue_flash_of_ne_ok hfirst]
          exact .unchanged

theorem VerifyWriteFlash.readVariable {f g : Content} {virtAddress data : HalfWord}
    (h : VerifyWriteFlash f virtAddress data g) {other : HalfWord}
    (hother : other.toNat < eepromSizeU16) (hne : other ≠ virtAddress) (old : HalfWord) :
    readVariable g other old = readVariable f other old := by
  cases h with
  | unchanged => rfl
  | torn hslot => exact readVariable_tornFlash (slotFree_of_freeSlot hslot) hother old
  | appended hpage hslot =>
      exact readVariable_appendFlash_of_ne (slotFree_of_freeSlot hslot) hpage hother hne old

/-- After `EE_VerifyPageFullWriteVariable`, whichever of its HAL calls failed and
whatever it returned, `EE_ReadVariable` gives every other variable the status and
the data it gave before. -/
theorem verifyWrite_keeps_others (w : World) {virtAddress : HalfWord}
    (hva : virtAddress.toNat < eepromSizeU16) (data : HalfWord) :
    ∃ status w', (eeVerifyPageFullWriteVariable virtAddress data).run w = .ok status w' ∧
      ∀ other old : HalfWord, other.toNat < eepromSizeU16 → other ≠ virtAddress →
        ∃ result, (eeReadVariable other old).run w = .ok result w ∧
          (eeReadVariable other old).run w' = .ok result w' := by
  obtain ⟨status, w', hrun, hflash⟩ := verifyWriteFlash w hva data
  refine ⟨status, w', hrun, fun other old hother hne => ?_⟩
  refine ⟨_, run_eeReadVariable hother old w, ?_⟩
  rw [run_eeReadVariable hother old w', hflash.readVariable hother hne]

/-- Page 0 is valid and empty, and the HAL refuses the second half-word. -/
theorem verifyWrite_keeps_others_cut :
    let w : World :=
      { flash := Function.update blank page0BaseAddress validPage, ops := [],
        hal := fun n => if n = 0 then .ok else .error }
    ∃ status w', (eeVerifyPageFullWriteVariable 1#16 5#16).run w = .ok status w' ∧
      ∃ result, (eeReadVariable 2#16 0#16).run w = .ok result w ∧
        (eeReadVariable 2#16 0#16).run w' = .ok result w' := by
  intro w
  have hva : (1#16 : HalfWord).toNat < eepromSizeU16 := by decide
  obtain ⟨status, w', hrun, hothers⟩ := verifyWrite_keeps_others w hva 5#16
  exact ⟨status, w', hrun, hothers 2#16 0#16 (by decide) (by decide)⟩

end WindradLogger.Eeprom
