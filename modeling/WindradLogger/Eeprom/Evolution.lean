import WindradLogger.Eeprom.Emulation
import WindradLogger.Lib.Effects

set_option autoImplicit false

/-!
# What every EEPROM function does to the world

Every function of the emulation is made of three kinds of steps: a status word is
programmed, one of the two sectors is erased, an entry is appended.  A reflexive
and transitive relation along which each of these steps moves is one along which
every function moves, whatever path it takes.

The first such relation: a function only appends to the list of flash operations,
flash afterwards is the old flash with these operations applied, the HAL is the
same HAL, and the only sectors it ever erases are sectors 2 and 3.
-/

namespace WindradLogger.Eeprom

open WindradLogger.Flash WindradLogger.Lib

/-- The sectors the code names: `PAGE0_ID` and `PAGE1_ID`. -/
def NamesPage : Op → Prop
  | .program _ _ => True
  | .erase n => n = page0Id ∨ n = page1Id

/-- `w'` is `w` after some more flash operations. -/
structure Evolves (w w' : World) : Prop where
  hal : w'.hal = w.hal
  ops : ∃ new, w'.ops = w.ops ++ new ∧ (w.HalOk → w'.flash = applyOps new w.flash) ∧
    ∀ op ∈ new, NamesPage op

instance : Std.Refl Evolves where
  refl w := ⟨rfl, [], by simp, fun _ => rfl, by simp⟩

theorem Evolves.halOk {w w' : World} (h : Evolves w w') (hok : w.HalOk) : w'.HalOk := by
  intro n
  rw [h.hal]
  exact hok n

instance : IsTrans World Evolves where
  trans := by
    intro u v w huv hvw
    obtain ⟨new, hops, hflash, hnames⟩ := huv.ops
    obtain ⟨new', hops', hflash', hnames'⟩ := hvw.ops
    refine ⟨hvw.hal.trans huv.hal, new ++ new', by rw [hops', hops, List.append_assoc], ?_, ?_⟩
    · intro hok
      rw [hflash' (huv.halOk hok), hflash hok, applyOps_append]
    · intro op hop
      rcases List.mem_append.mp hop with hop | hop
      · exact hnames op hop
      · exact hnames' op hop

/-! ## The steps -/

/-- Each kind of step moves along `R`. -/
structure StepsMove (R : World → World → Prop) : Prop where
  mark : ∀ {address : Nat} (status : HalfWord),
    address = page0BaseAddress ∨ address = page1BaseAddress →
      Moves R (halFlashProgram address status)
  erase : ∀ {sector : Nat}, sector = page0Id ∨ sector = page1Id → Moves R (halFlashExErase sector)
  append : ∀ virtAddress data : HalfWord, Moves R (eeVerifyPageFullWriteVariable virtAddress data)

section Functions

variable {R : World → World → Prop} [Std.Refl R]

theorem moves_assert (c : Bool) : Moves R (assert c) :=
  Moves.ite (Moves.pure _) (Moves.throw _)

variable [IsTrans World R]

theorem moves_readFlash : Moves R readFlash :=
  Moves.bind Moves.get fun _ => Moves.pure _

theorem moves_eeReadVariable (virtAddress data : HalfWord) :
    Moves R (eeReadVariable virtAddress data) :=
  Moves.bind (moves_assert _) fun _ => Moves.bind moves_readFlash fun _ => Moves.pure _

namespace StepsMove

variable (h : StepsMove R)

include h

theorem transferLoop (skip : Content → HalfWord → Bool) (virtAddresses : List HalfWord) :
    Moves R (transferLoop skip virtAddresses) := by
  induction virtAddresses with
  | nil => exact Moves.pure _
  | cons virtAddress rest ih =>
      refine Moves.bind moves_readFlash fun f => Moves.ite ih ?_
      refine Moves.bind (moves_eeReadVariable _ _) fun result => ?_
      refine Moves.ite ?_ ih
      refine Moves.bind (h.append _ _) fun _ => ?_
      exact Moves.ite (Moves.pure _) ih

/-- What `EE_PageTransfer` does behind the append of the passed variable. -/
theorem restOfTransfer {newPageAddress oldPageId : Nat}
    (hnew : newPageAddress = page0BaseAddress ∨ newPageAddress = page1BaseAddress)
    (hold : oldPageId = page0Id ∨ oldPageId = page1Id)
    (skip : Content → HalfWord → Bool) :
    Moves R (do
      let eepromStatus ← Eeprom.transferLoop skip virtAddresses
      if eepromStatus ≠ HalStatus.ok.toU16 then return eepromStatus
      let flashStatus ← halFlashExErase oldPageId
      if flashStatus ≠ .ok then return flashStatus.toU16
      let flashStatus ← halFlashProgram newPageAddress validPage
      return flashStatus.toU16 : Mcu HalfWord) := by
  refine Moves.bind (h.transferLoop _ _) fun _ => Moves.ite (Moves.pure _) ?_
  refine Moves.bind (h.erase hold) fun _ => Moves.ite (Moves.pure _) ?_
  exact Moves.bind (h.mark _ hnew) fun _ => Moves.pure _

theorem eePageTransferTo {newPageAddress oldPageId : Nat}
    (hnew : newPageAddress = page0BaseAddress ∨ newPageAddress = page1BaseAddress)
    (hold : oldPageId = page0Id ∨ oldPageId = page1Id) (virtAddress data : HalfWord) :
    Moves R (eePageTransferTo newPageAddress oldPageId virtAddress data) := by
  refine Moves.bind (h.mark _ hnew) fun _ => Moves.ite (Moves.pure _) ?_
  refine Moves.bind (h.append _ _) fun _ => Moves.ite (Moves.pure _) ?_
  exact h.restOfTransfer hnew hold _

theorem eePageTransfer (virtAddress data : HalfWord) :
    Moves R (eePageTransfer virtAddress data) := by
  refine Moves.bind (moves_assert _) fun _ => Moves.bind moves_readFlash fun f => ?_
  refine Moves.ite (h.eePageTransferTo (Or.inl rfl) (Or.inr rfl) _ _) ?_
  exact Moves.ite (h.eePageTransferTo (Or.inr rfl) (Or.inl rfl) _ _) (Moves.pure _)

theorem eeWriteVariable (virtAddress data : HalfWord) :
    Moves R (eeWriteVariable virtAddress data) := by
  refine Moves.bind (moves_assert _) fun _ => ?_
  refine Moves.bind (h.append _ _) fun _ => ?_
  exact Moves.ite (h.eePageTransfer _ _) (Moves.pure _)

theorem eraseUnlessErased (base : Nat) {sector : Nat}
    (hsector : sector = page0Id ∨ sector = page1Id) : Moves R (eraseUnlessErased base sector) :=
  Moves.bind moves_readFlash fun _ => Moves.ite (Moves.pure _) (h.erase hsector)

theorem eeFormat : Moves R eeFormat := by
  refine Moves.bind (h.eraseUnlessErased _ (Or.inl rfl)) fun _ => Moves.ite (Moves.pure _) ?_
  refine Moves.bind (h.mark _ (Or.inl rfl)) fun _ => Moves.ite (Moves.pure _) ?_
  exact h.eraseUnlessErased _ (Or.inr rfl)

theorem resumeTransfer {newBase : Nat} (oldBase : Nat) {oldId : Nat}
    (hnew : newBase = page0BaseAddress ∨ newBase = page1BaseAddress)
    (hold : oldId = page0Id ∨ oldId = page1Id) :
    Moves R (resumeTransfer newBase oldBase oldId) := by
  refine Moves.bind (h.transferLoop _ _) fun _ => Moves.ite (Moves.pure _) ?_
  refine Moves.bind (h.mark _ hnew) fun _ => Moves.ite (Moves.pure _) ?_
  exact Moves.bind (h.eraseUnlessErased _ hold) fun _ => Moves.pure _

theorem eeInit : Moves R eeInit := by
  have hformat : Moves R (do return (← Eeprom.eeFormat).toU16 : Mcu HalfWord) :=
    Moves.bind h.eeFormat fun _ => Moves.pure _
  refine Moves.bind moves_readFlash fun f => Moves.ite ?_ (Moves.ite ?_ (Moves.ite ?_ hformat))
  · refine Moves.ite ?_ (Moves.ite ?_ hformat)
    · exact Moves.bind (h.eraseUnlessErased _ (Or.inl rfl)) fun _ => Moves.pure _
    · refine Moves.bind (h.eraseUnlessErased _ (Or.inl rfl)) fun _ => Moves.ite (Moves.pure _) ?_
      exact Moves.bind (h.mark _ (Or.inr rfl)) fun _ => Moves.pure _
  · refine Moves.ite (h.resumeTransfer _ (Or.inl rfl) (Or.inr rfl)) (Moves.ite ?_ hformat)
    refine Moves.bind (h.eraseUnlessErased _ (Or.inr rfl)) fun _ => Moves.ite (Moves.pure _) ?_
    exact Moves.bind (h.mark _ (Or.inl rfl)) fun _ => Moves.pure _
  · refine Moves.ite hformat (Moves.ite ?_ (h.resumeTransfer _ (Or.inr rfl) (Or.inl rfl)))
    exact Moves.bind (h.eraseUnlessErased _ (Or.inr rfl)) fun _ => Moves.pure _

end StepsMove

end Functions

/-! ## The operations a function adds -/

theorem evolves_issue (w : World) (op : Op) (h : NamesPage op) : Evolves w (w.issue op) :=
  ⟨rfl, [op], rfl, fun hok => World.issue_flash hok op, by simpa using h⟩

theorem moves_halFlashProgram (a : Nat) (v : HalfWord) : Moves Evolves (halFlashProgram a v) :=
  fun w => evolves_issue w _ trivial

theorem moves_eeVerifyPageFullWriteVariable (virtAddress data : HalfWord) :
    Moves Evolves (eeVerifyPageFullWriteVariable virtAddress data) := by
  refine Moves.bind (moves_assert _) fun _ => Moves.bind moves_readFlash fun f => ?_
  refine Moves.ite (Moves.pure _) ?_
  cases nextFreeSlot f with
  | none => exact Moves.pure _
  | some address =>
      refine Moves.bind (moves_halFlashProgram _ _) fun _ => Moves.ite (Moves.pure _) ?_
      exact Moves.bind (moves_halFlashProgram _ _) fun _ => Moves.pure _

theorem stepsMove_evolves : StepsMove Evolves where
  mark status _ := moves_halFlashProgram _ status
  erase hsector w := evolves_issue w _ hsector
  append := moves_eeVerifyPageFullWriteVariable

theorem moves_transferLoop (skip : Content → HalfWord → Bool) (virtAddresses : List HalfWord) :
    Moves Evolves (transferLoop skip virtAddresses) :=
  stepsMove_evolves.transferLoop skip virtAddresses

theorem moves_eeWriteVariable (virtAddress data : HalfWord) :
    Moves Evolves (eeWriteVariable virtAddress data) :=
  stepsMove_evolves.eeWriteVariable virtAddress data

theorem moves_eeInit : Moves Evolves eeInit := stepsMove_evolves.eeInit

end WindradLogger.Eeprom
