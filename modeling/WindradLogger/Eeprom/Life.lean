import WindradLogger.Eeprom.KeyValue
import Mathlib.Data.Finset.Card

set_option autoImplicit false

/-!
# The life of a device

Any HAL call may fail, and power may fail after any flash operation; the program
then starts again on what is in flash.  What one step of the emulation does to
flash is so done over the whole life of a device: `Throughout` carries a relation
between contents from the steps to every point at which power can fail.

The sectors that the emulation erases are not those it writes to, so no slot ever
becomes free again, and each write that succeeds takes one.
-/

namespace WindradLogger.Eeprom

open WindradLogger.Flash WindradLogger.Lib

/-! ## Between two operations -/

/-- The world after some more operations, whether or not the HAL carries them out. -/
def replay (w : World) (ops : List Op) : World := ops.foldl World.issue w

theorem replay_append (w : World) (ops ops' : List Op) :
    replay w (ops ++ ops') = replay (replay w ops) ops' := List.foldl_append

theorem replay_ops (w : World) (ops : List Op) : (replay w ops).ops = w.ops ++ ops := by
  induction ops generalizing w with
  | nil => exact (List.append_nil _).symm
  | cons op rest ih =>
      change (replay (w.issue op) rest).ops = w.ops ++ op :: rest
      rw [ih, World.issue_ops, List.append_assoc, List.singleton_append]

/-- The operations between `w` and `w'`. -/
def between (w w' : World) : List Op := w'.ops.drop w.ops.length

theorem between_replay (w : World) (ops : List Op) : between w (replay w ops) = ops := by
  rw [between, replay_ops, List.drop_left]

/-- Flash is related to that of `w` at every point on the way from `w` to `w'`. -/
structure Throughout (Q : Content → Content → Prop) (w w' : World) : Prop where
  replayed : w' = replay w (between w w')
  points : ∀ n, Q w.flash (replay w ((between w w').take n)).flash

section Throughout

variable {Q : Content → Content → Prop}

theorem Throughout.of_replay {w : World} (ops : List Op)
    (h : ∀ n, Q w.flash (replay w (ops.take n)).flash) : Throughout Q w (replay w ops) where
  replayed := by rw [between_replay]
  points := by
    rw [between_replay]
    exact h

theorem Throughout.flash {w w' : World} (h : Throughout Q w w') : Q w.flash w'.flash := by
  have hall := h.points (between w w').length
  rwa [List.take_length, ← h.replayed] at hall

instance [Std.Refl Q] : Std.Refl (Throughout Q) where
  refl w := by
    refine Throughout.of_replay [] fun n => ?_
    rw [List.take_nil]
    exact Std.Refl.refl _

instance [IsTrans Content Q] : IsTrans World (Throughout Q) where
  trans := by
    intro u v w huv hvw
    have hw : w = replay u (between u v ++ between v w) := by
      rw [replay_append, ← huv.replayed]
      exact hvw.replayed
    rw [hw]
    refine Throughout.of_replay _ fun n => ?_
    rw [List.take_append, replay_append]
    rcases Nat.le_total n (between u v).length with hle | hle
    · rw [Nat.sub_eq_zero_of_le hle, List.take_zero]
      exact huv.points n
    · rw [List.take_of_length_le hle, ← huv.replayed]
      exact IsTrans.trans _ _ _ huv.flash (hvw.points _)

/-- One operation, which changes flash only if the HAL carries it out. -/
theorem throughout_issue [Std.Refl Q] {w : World} {op : Op}
    (h : w.hal w.ops.length = .ok → Q w.flash (op.apply w.flash)) :
    Throughout Q w (w.issue op) := by
  refine Throughout.of_replay [op] fun n => ?_
  cases n with
  | zero => exact Std.Refl.refl _
  | succ n =>
      rw [List.take_succ_cons, List.take_nil]
      change Q w.flash (w.issue op).flash
      rcases eq_or_ne (w.hal w.ops.length) .ok with hok | hok
      · rw [World.issue_flash_of_ok hok]
        exact h hok
      · rw [World.issue_flash_of_ne_ok hok]
        exact Std.Refl.refl _

end Throughout

/-! ## What the steps do to flash -/

/-- Each kind of step changes flash along `Q`. -/
structure StepsChange (Q : Content → Content → Prop) : Prop where
  mark : ∀ (f : Content) {address : Nat} (status : HalfWord),
    address = page0BaseAddress ∨ address = page1BaseAddress →
      Q f ((Op.program address status).apply f)
  erase : ∀ (f : Content) {sector : Nat}, sector = page0Id ∨ sector = page1Id →
    Q f ((Op.erase sector).apply f)
  torn : ∀ {f : Content} {j : Nat} (data : HalfWord), writePage f ≠ noValidPage →
    freeSlot f = some j → Q f (tornFlash f j data)
  append : ∀ {f : Content} {j : Nat} {virtAddress : HalfWord} (data : HalfWord),
    virtAddress.toNat < eepromSizeU16 → writePage f ≠ noValidPage → freeSlot f = some j →
      Q f (appendFlash f j virtAddress data)

section StepsChange

variable {Q : Content → Content → Prop} [Std.Refl Q]

/-- The two operations of an append, of which power or the HAL can cut either. -/
theorem StepsChange.throughout_append (h : StepsChange Q) {w : World} {j : Nat}
    {virtAddress : HalfWord} (hva : virtAddress.toNat < eepromSizeU16) (data : HalfWord)
    (hpage : writePage w.flash ≠ noValidPage) (hslot : freeSlot w.flash = some j)
    (hfirst : w.hal w.ops.length = .ok) :
    Throughout Q w (Eeprom.append w j virtAddress data) := by
  have hfree := slotFree_of_freeSlot hslot
  refine Throughout.of_replay
    [.program (slotAddress j) data, .program (slotAddress j + 2) virtAddress] fun n => ?_
  match n with
  | 0 => exact Std.Refl.refl _
  | 1 =>
      change Q w.flash (w.issue _).flash
      rw [issue_data_flash hfree hfirst]
      exact h.torn data hpage hslot
  | n + 2 =>
      rw [List.take_succ_cons, List.take_succ_cons, List.take_nil]
      change Q w.flash (Eeprom.append w j virtAddress data).flash
      rcases eq_or_ne (w.hal (w.ops.length + 1)) .ok with hsecond | hsecond
      · rw [append_flash_of_ok hfree hfirst hsecond]
        exact h.append data hva hpage hslot
      · rw [append_flash_of_ne_ok hfree hfirst hsecond]
        exact h.torn data hpage hslot

theorem StepsChange.moves_append (h : StepsChange Q) (virtAddress data : HalfWord) :
    Moves (Throughout Q) (eeVerifyPageFullWriteVariable virtAddress data) := by
  by_cases hva : virtAddress.toNat < eepromSizeU16
  · intro w
    rw [run_eeVerifyPageFullWriteVariable_any w hva data]
    split
    · exact Std.Refl.refl _
    · rename_i hpage
      cases hslot : freeSlot w.flash with
      | none => exact Std.Refl.refl _
      | some j =>
          dsimp only
          split
          · rename_i hfirst
            exact h.throughout_append hva data hpage hslot hfirst
          · rename_i hfirst
            exact throughout_issue fun hok => absurd hok hfirst
  · intro w
    have hassert : (eeVerifyPageFullWriteVariable virtAddress data).run w =
        .error .assertFailed w := by
      simp only [eeVerifyPageFullWriteVariable, hva, decide_false, EStateM.run_bind,
        run_assert_false]
    rw [hassert]
    exact Std.Refl.refl _

theorem StepsChange.stepsMove (h : StepsChange Q) : StepsMove (Throughout Q) where
  mark status haddress w := throughout_issue fun _ => h.mark w.flash status haddress
  erase hsector w := throughout_issue fun _ => h.erase w.flash hsector
  append := h.moves_append

end StepsChange

/-! ## Calls and restarts -/

/-- A call of the emulation. -/
inductive Call where
  | init
  | write (args : Write)

/-- The code of a call. -/
def Call.code : Call → Mcu HalfWord
  | .init => eeInit
  | .write args => eeWriteVariable args.1 args.2

/-- The world after a call. -/
def afterCall (w : World) (call : Call) : World := finalState (call.code.run w)

/-- A call that comes to its end, or one during which power fails, after `done` of
its flash operations; from then on the HAL gives the statuses `hal`. -/
inductive LifeEvent where
  | call (call : Call)
  | powerLoss (call : Call) (done : Nat) (hal : Nat → HalStatus)

/-- The world after an event. -/
def live (w : World) : LifeEvent → World
  | .call call => afterCall w call
  | .powerLoss call done hal =>
      { flash := (replay w ((between w (afterCall w call)).take done)).flash
        ops := []
        hal := hal }

/-- The world after a life, or after a part of it. -/
def afterLife (w : World) (life : List LifeEvent) : World := life.foldl live w

section Life

variable {Q : Content → Content → Prop} [Std.Refl Q] [IsTrans Content Q]

theorem StepsChange.afterCall (h : StepsChange Q) (w : World) (call : Call) :
    Throughout Q w (afterCall w call) := by
  cases call with
  | init => exact h.stepsMove.eeInit w
  | write args => exact h.stepsMove.eeWriteVariable args.1 args.2 w

theorem StepsChange.live (h : StepsChange Q) (w : World) (event : LifeEvent) :
    Q w.flash (live w event).flash := by
  cases event with
  | call call => exact (h.afterCall w call).flash
  | powerLoss call done hal => exact (h.afterCall w call).points done

/-- What each kind of step does to flash, a whole life does. -/
theorem StepsChange.afterLife (h : StepsChange Q) (w : World) (life : List LifeEvent) :
    Q w.flash (afterLife w life).flash := by
  induction life generalizing w with
  | nil => exact Std.Refl.refl _
  | cons event rest ih => exact IsTrans.trans _ _ _ (h.live w event) (ih (Eeprom.live w event))

end Life

/-! ## What a successful write has done -/

section Succeeded

variable {w w' : World} {virtAddress data : HalfWord}

/-- An append returns `HAL_OK` only if both half-words have been programmed. -/
theorem append_of_ok (hva : virtAddress.toNat < eepromSizeU16)
    (hrun : (eeVerifyPageFullWriteVariable virtAddress data).run w = .ok HalStatus.ok.toU16 w') :
    ∃ j, writePage w.flash ≠ noValidPage ∧ freeSlot w.flash = some j ∧
      w'.flash = appendFlash w.flash j virtAddress data := by
  rw [run_eeVerifyPageFullWriteVariable_any w hva data] at hrun
  split at hrun
  · injection hrun with hstatus
    exact absurd hstatus (by decide)
  · rename_i hpage
    cases hslot : freeSlot w.flash with
    | none =>
        rw [hslot] at hrun
        injection hrun with hstatus
        exact absurd hstatus pageFull_ne_ok
    | some j =>
        rw [hslot] at hrun
        dsimp only at hrun
        split at hrun
        · rename_i hfirst
          injection hrun with hstatus hworld
          have hsecond : w.hal (w.ops.length + 1) = .ok := by
            by_contra hne
            exact HalStatus.toU16_ne_ok hne hstatus
          refine ⟨j, hpage, rfl, ?_⟩
          rw [← hworld]
          exact append_flash_of_ok (slotFree_of_freeSlot hslot) hfirst hsecond
        · rename_i hfirst
          injection hrun with hstatus
          exact absurd hstatus (HalStatus.toU16_ne_ok hfirst)

/-- So does `EE_PageTransfer`, and with the new page marked it goes on to append. -/
theorem eePageTransferTo_of_ok {newPageAddress oldPageId : Nat}
    (hrun : (eePageTransferTo newPageAddress oldPageId virtAddress data).run w =
      .ok HalStatus.ok.toU16 w') :
    w.hal w.ops.length = .ok ∧ ∃ v,
      (eeVerifyPageFullWriteVariable virtAddress data).run
        (w.issue (.program newPageAddress receiveData)) = .ok HalStatus.ok.toU16 v ∧
      (do
        let eepromStatus ← transferLoop (fun _ iterator => iterator = virtAddress) virtAddresses
        if eepromStatus ≠ HalStatus.ok.toU16 then return eepromStatus
        let flashStatus ← halFlashExErase oldPageId
        if flashStatus ≠ .ok then return flashStatus.toU16
        let flashStatus ← halFlashProgram newPageAddress validPage
        return flashStatus.toU16 : Mcu HalfWord).run v = .ok HalStatus.ok.toU16 w' := by
  unfold eePageTransferTo at hrun
  obtain ⟨marking, w1, hmark, hbody⟩ := run_bind_eq_ok.mp hrun
  cases hmark
  split at hbody
  · rename_i hne
    injection hbody with hstatus
    exact absurd hstatus (HalStatus.toU16_ne_ok hne)
  · rename_i hok
    obtain ⟨status, v, happend, hrest⟩ := run_bind_eq_ok.mp hbody
    split at hrest
    · rename_i hne
      injection hrest with hstatus
      exact absurd hstatus hne
    · rename_i hstatus
      rw [not_not] at hok hstatus
      subst hstatus
      exact ⟨hok, v, happend, hrest⟩

theorem toU16_ne_pageFull (status : HalStatus) : status.toU16 ≠ pageFull := by
  cases status with
  | ok => decide
  | error => decide
  | busy => decide
  | timeout => decide

/-- An append returns `PAGE_FULL` only if there is no free slot. -/
theorem append_of_pageFull {v : World} (hva : virtAddress.toNat < eepromSizeU16)
    (hrun : (eeVerifyPageFullWriteVariable virtAddress data).run w = .ok pageFull v) :
    v = w ∧ writePage w.flash ≠ noValidPage ∧ freeSlot w.flash = none := by
  rw [run_eeVerifyPageFullWriteVariable_any w hva data] at hrun
  split at hrun
  · injection hrun with hstatus
    exact absurd hstatus noValidPage_ne_pageFull
  · rename_i hpage
    cases hslot : freeSlot w.flash with
    | none =>
        rw [hslot] at hrun
        injection hrun with _ hworld
        exact ⟨hworld.symm, hpage, rfl⟩
    | some j =>
        rw [hslot] at hrun
        dsimp only at hrun
        split at hrun
        · injection hrun with hstatus
          exact absurd hstatus (toU16_ne_pageFull _)
        · injection hrun with hstatus
          exact absurd hstatus (toU16_ne_pageFull _)

/-- A write that returned `HAL_OK` appended its entry, or it found the page full and
`EE_PageTransfer` returned `HAL_OK`. -/
theorem eeWriteVariable_of_ok (hva : virtAddress.toNat < eepromSizeU16)
    (hrun : (eeWriteVariable virtAddress data).run w = .ok HalStatus.ok.toU16 w') :
    (eeVerifyPageFullWriteVariable virtAddress data).run w = .ok HalStatus.ok.toU16 w' ∨
      writePage w.flash ≠ noValidPage ∧ freeSlot w.flash = none ∧
        (eePageTransferTo (newPageAddress w.flash) (oldPageId w.flash) virtAddress data).run w =
          .ok HalStatus.ok.toU16 w' := by
  unfold eeWriteVariable at hrun
  obtain ⟨_, w1, hassert, hbody⟩ := run_bind_eq_ok.mp hrun
  rw [decide_eq_true hva, run_assert_true] at hassert
  cases hassert
  obtain ⟨status, v, happend, hlast⟩ := run_bind_eq_ok.mp hbody
  split at hlast
  · rename_i hfull
    rw [hfull] at happend
    obtain ⟨rfl, hpage, hslot⟩ := append_of_pageFull hva happend
    rw [run_eePageTransfer_eq hva data (writePage_ne_noValidPage_iff.mp hpage)] at hlast
    exact Or.inr ⟨hpage, hslot, hlast⟩
  · cases hlast
    exact Or.inl happend

/-- The three parts of a transfer that returns `HAL_OK`: it marks the new page, appends
its entry, and then copies the others and ends. -/
theorem StepsChange.parts_of_transfer {Q : Content → Content → Prop} [Std.Refl Q]
    [IsTrans Content Q] (h : StepsChange Q) {newPageAddress oldPageId : Nat}
    (hnew : newPageAddress = page0BaseAddress ∨ newPageAddress = page1BaseAddress)
    (hold : oldPageId = page0Id ∨ oldPageId = page1Id)
    (hrun : (eePageTransferTo newPageAddress oldPageId virtAddress data).run w =
      .ok HalStatus.ok.toU16 w') :
    ∃ v, Q w.flash (w.issue (.program newPageAddress receiveData)).flash ∧
      (eeVerifyPageFullWriteVariable virtAddress data).run
        (w.issue (.program newPageAddress receiveData)) = .ok HalStatus.ok.toU16 v ∧
      Q (w.issue (.program newPageAddress receiveData)).flash v.flash ∧ Q v.flash w'.flash := by
  obtain ⟨_, v, happend, hrest⟩ := eePageTransferTo_of_ok hrun
  have hmarked : Throughout Q w (w.issue (.program newPageAddress receiveData)) :=
    throughout_issue fun _ => h.mark w.flash receiveData hnew
  have happended := (h.stepsMove.append _ _).of_run happend
  have hcopied := (h.stepsMove.restOfTransfer hnew hold _).of_run hrest
  exact ⟨v, hmarked.flash, happend, happended.flash, hcopied.flash⟩

theorem newPageAddress_cases (f : Content) :
    newPageAddress f = page0BaseAddress ∨ newPageAddress f = page1BaseAddress := by
  unfold newPageAddress
  split
  · exact Or.inl rfl
  · exact Or.inr rfl

theorem oldPageId_cases (f : Content) : oldPageId f = page0Id ∨ oldPageId f = page1Id := by
  unfold oldPageId
  split
  · exact Or.inr rfl
  · exact Or.inl rfl

end Succeeded

/-! ## Slots that can still take an entry -/

/-- The free slots of both pages. -/
def spareSlots (f : Content) : Finset Nat :=
  (Finset.range (2 * slotsPerPage)).filter fun j => slotFree f j = true

theorem mem_spareSlots {f : Content} {j : Nat} :
    j ∈ spareSlots f ↔ j < 2 * slotsPerPage ∧ slotFree f j = true := by
  rw [spareSlots, Finset.mem_filter, Finset.mem_range]

theorem card_spareSlots_le (f : Content) : (spareSlots f).card ≤ 2 * slotsPerPage := by
  have hle := Finset.card_filter_le (Finset.range (2 * slotsPerPage)) fun j => slotFree f j = true
  rwa [Finset.card_range] at hle

theorem mem_spareSlots_of_freeSlot {f : Content} {j : Nat} (hpage : writePage f ≠ noValidPage)
    (hslot : freeSlot f = some j) : j ∈ spareSlots f := by
  obtain ⟨hfree, _, hlt, _⟩ := freeSlot_eq_some_iff.mp hslot
  have hper : slotsPerPage = 0x8000 := rfl
  refine mem_spareSlots.mpr ⟨?_, hfree⟩
  rcases writePage_cases hpage with h0 | h1
  · rw [h0, firstSlot_page0] at hlt
    omega
  · rw [h1, firstSlot_page1] at hlt
    omega

/-- No slot has become free. -/
def KeepsUsed (f g : Content) : Prop := ∀ j, slotFree g j = true → slotFree f j = true

instance : Std.Refl KeepsUsed where
  refl _ _ hfree := hfree

instance : IsTrans Content KeepsUsed where
  trans _ _ _ hfg hgk j hfree := hfg j (hgk j hfree)

theorem KeepsUsed.spareSlots {f g : Content} (h : KeepsUsed f g) : spareSlots g ⊆ spareSlots f := by
  intro j hj
  obtain ⟨hlt, hfree⟩ := mem_spareSlots.mp hj
  exact mem_spareSlots.mpr ⟨hlt, h j hfree⟩

/-- Programming only clears bits. -/
theorem erased_of_program {f : Content} {address a : Nat} {v : HalfWord}
    (h : (Op.program address v).apply f a = 0xFFFF#16) : f a = 0xFFFF#16 := by
  rw [Op.apply] at h
  by_cases ha : a = address
  · subst ha
    rw [Function.update_self] at h
    exact (BitVec.and_eq_allOnes_iff.mp h).1
  · rwa [Function.update_of_ne ha] at h

/-- Neither of the two sectors reaches into the emulation area. -/
theorem sameArea_of_sector (f : Content) {sector : Nat}
    (hsector : sector = page0Id ∨ sector = page1Id) : SameArea ((Op.erase sector).apply f) f := by
  rcases hsector with rfl | rfl
  · exact sameArea_erase f page0Id_le
  · exact sameArea_erase f page1Id_le

/-- Neither an entry nor a status word frees a slot, and the sectors that are erased
lie below all slots. -/
theorem stepsChange_keepsUsed : StepsChange KeepsUsed where
  mark f _ status _ j hfree := by
    obtain ⟨hdata, hkey⟩ := slotFree_iff.mp hfree
    exact slotFree_iff.mpr ⟨erased_of_program hdata, erased_of_program hkey⟩
  erase f sector hsector j hfree := by
    have hsame := sameArea_of_sector f hsector
    obtain ⟨hdata, hkey⟩ := slotFree_iff.mp hfree
    rw [hsame _ (start_le_slotAddress j)] at hdata
    rw [hsame _ (Nat.le_add_right_of_le (start_le_slotAddress j))] at hkey
    exact slotFree_iff.mpr ⟨hdata, hkey⟩
  torn {f j} data _ hslot i hfree := by
    rcases eq_or_ne i j with rfl | hij
    · exact slotFree_of_freeSlot hslot
    · have hdata : tornFlash f j data (slotAddress i) = f (slotAddress i) :=
        tornFlash_of_ne fun h => hij (slotAddress_inj.mp h)
      rw [slotFree_iff, tornFlash_key, hdata] at hfree
      exact slotFree_iff.mpr hfree
  append {f j _} data _ _ hslot i hfree := by
    rcases eq_or_ne i j with rfl | hij
    · exact slotFree_of_freeSlot hslot
    · rwa [slotFree_appendFlash_of_ne hij] at hfree

/-- A successful append takes a slot. -/
theorem slot_of_append {w w' : World} {virtAddress data : HalfWord}
    (hva : virtAddress.toNat < eepromSizeU16)
    (hrun : (eeVerifyPageFullWriteVariable virtAddress data).run w = .ok HalStatus.ok.toU16 w') :
    ∃ j, j ∈ spareSlots w.flash ∧ j ∉ spareSlots w'.flash := by
  obtain ⟨j, hpage, hslot, hflash⟩ := append_of_ok hva hrun
  refine ⟨j, mem_spareSlots_of_freeSlot hpage hslot, fun hj => ?_⟩
  have hfree := (mem_spareSlots.mp hj).2
  rw [hflash, slotFree_appendFlash_self hva] at hfree
  cases hfree

/-- So does every write that returns `HAL_OK`. -/
theorem slot_of_write {w w' : World} {virtAddress data : HalfWord}
    (hva : virtAddress.toNat < eepromSizeU16)
    (hrun : (eeWriteVariable virtAddress data).run w = .ok HalStatus.ok.toU16 w') :
    ∃ j, j ∈ spareSlots w.flash ∧ j ∉ spareSlots w'.flash := by
  rcases eeWriteVariable_of_ok hva hrun with happend | ⟨_, _, htransfer⟩
  · exact slot_of_append hva happend
  · obtain ⟨v, hmarked, happend, _, hcopied⟩ := stepsChange_keepsUsed.parts_of_transfer
      (newPageAddress_cases _) (oldPageId_cases _) htransfer
    obtain ⟨j, hspare, htaken⟩ := slot_of_append hva happend
    exact ⟨j, hmarked.spareSlots hspare, fun hj => htaken (hcopied.spareSlots hj)⟩

/-! ## How many writes can succeed -/

/-- How many writes an event completes with `HAL_OK`. -/
def succeeded (w : World) : LifeEvent → Nat
  | .call (.write args) =>
      match (eeWriteVariable args.1 args.2).run w with
      | .ok status _ => if status = HalStatus.ok.toU16 then 1 else 0
      | .error _ _ => 0
  | .call .init => 0
  | .powerLoss _ _ _ => 0

/-- How many writes of a life return `HAL_OK`. -/
def successes (w : World) : List LifeEvent → Nat
  | [] => 0
  | event :: rest => succeeded w event + successes (live w event) rest

/-- A step of a life: a write that succeeds has taken a slot, and nothing frees one. -/
theorem succeeded_add_card (w : World) (event : LifeEvent) :
    succeeded w event + (spareSlots (live w event).flash).card ≤ (spareSlots w.flash).card := by
  have hkept := (stepsChange_keepsUsed.live w event).spareSlots
  have hle := Finset.card_le_card hkept
  cases event with
  | powerLoss call done hal =>
      rw [succeeded, Nat.zero_add]
      exact hle
  | call call =>
      cases call with
      | init =>
          rw [succeeded, Nat.zero_add]
          exact hle
      | write args =>
          rw [succeeded]
          cases hrun : (eeWriteVariable args.1 args.2).run w with
          | error halt w' =>
              dsimp only
              rw [Nat.zero_add]
              exact hle
          | ok status w' =>
              dsimp only
              split
              · rename_i hstatus
                subst hstatus
                obtain ⟨j, hspare, htaken⟩ := slot_of_write args.1.2 hrun
                have hafter : live w (.call (.write args)) = w' := by
                  change finalState ((eeWriteVariable args.1 args.2).run w) = w'
                  rw [hrun, finalState_ok]
                rw [hafter] at hkept ⊢
                have hlt := Finset.card_lt_card
                  ((Finset.ssubset_iff_of_subset hkept).mpr ⟨j, hspare, htaken⟩)
                omega
              · rw [Nat.zero_add]
                exact hle

/-- Over the whole life of a device, whatever HAL calls fail and wherever power fails
during an `EE_Init` or a write, the writes that return `HAL_OK` and the slots still
free at the end are together no more than the slots that were free at the
beginning, and these are at most two pages full. -/
theorem successes_bounded (w : World) (life : List LifeEvent) :
    successes w life + (spareSlots (afterLife w life).flash).card ≤ (spareSlots w.flash).card ∧
      (spareSlots w.flash).card ≤ 2 * slotsPerPage := by
  refine ⟨?_, card_spareSlots_le w.flash⟩
  induction life generalizing w with
  | nil => exact Nat.le_of_eq (Nat.zero_add _)
  | cons event rest ih =>
      have hstep := succeeded_add_card w event
      have hrest := ih (live w event)
      change succeeded w event + successes (live w event) rest +
        (spareSlots (afterLife (live w event) rest).flash).card ≤ _
      omega

end WindradLogger.Eeprom
