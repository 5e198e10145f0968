import Mathlib.Logic.Function.Basic
import WindradLogger.Lib.Fifo
import WindradLogger.Lib.History

set_option autoImplicit false

/-!
# The serial transmit path (`serial.c`)

With `RTOSRunningFlag` set, tasks put bytes into a queue and then enable the transmit
interrupt, whose handler takes one byte at a time out of the queue and disables itself
when there is none.
Sending to the queue and enabling the interrupt are separate steps, and enabling is
a read and a write of the control register; tasks and the interrupt come in between
in any order.
-/

namespace WindradLogger.Serial

open WindradLogger.Lib

/-- A `signed char` -/
abbrev Byte : Type := BitVec 8

/-- `USART_CR1_TXEIE`, the bit of `CR1` that enables the transmit interrupt -/
def txeie : BitVec 32 := 0x80#32

/-- The length of `xCharsForTx_rpc`, `uxQueueLength + 1`. -/
def txQueueLength : Nat := 500 + 1

/-- Where a task is in `xSerialPutChar`. -/
inductive Progress where
  /-- not in a call, or before its `xQueueSend` -/
  | outside
  /-- `xQueueSend` has returned `pdPASS` -/
  | sent
  /-- `CR1` has been read by `__HAL_USART_ENABLE_IT` -/
  | loaded (cr1 : BitVec 32)
  deriving DecidableEq

variable {Task : Type}

/-- The port and the tasks that use it. -/
structure Transmission (Task : Type) where
  /-- `xCharsForTx_rpc` -/
  xCharsForTx : Fifo Byte txQueueLength
  /-- `CR1` -/
  cr1 : BitVec 32
  progress : Task → Progress
  /-- what was written to `DR`, in this order; the code does not keep it -/
  written : List Byte
  /-- the bytes whose `xQueueSend` succeeded, in this order; the code does not keep
  them -/
  accepted : List Byte

/-! ## The steps -/

/-- The interrupt is enabled. -/
def Transmission.TxeEnabled (s : Transmission Task) : Prop := s.cr1 &&& txeie ≠ 0#32

instance (s : Transmission Task) : Decidable s.TxeEnabled :=
  inferInstanceAs (Decidable (_ ≠ _))

/-- An empty queue, with no task in a call. -/
def idle (cr1 : BitVec 32) : Transmission Task :=
  { xCharsForTx := .empty
    cr1 := cr1
    progress := fun _ => .outside
    written := []
    accepted := [] }

/-- `xQueueSend` in `xSerialPutChar`; a full queue refuses the byte, and the call is
over.  A call that waits for room is one whose `xQueueSend` comes later. -/
def xQueueSend [DecidableEq Task] (task : Task) (cOutChar : Byte) (s : Transmission Task) :
    Transmission Task :=
  match s.xCharsForTx.send cOutChar with
  | some xCharsForTx =>
      { s with
        xCharsForTx := xCharsForTx
        progress := Function.update s.progress task .sent
        accepted := s.accepted ++ [cOutChar] }
  | none => s

/-- `USART3_IRQHandler`, as far as it is about transmission -/
def irqHandler (s : Transmission Task) : Transmission Task :=
  match s.xCharsForTx.receive with
  | some (cChar, xCharsForTx) =>
      { s with xCharsForTx := xCharsForTx, written := s.written ++ [cChar] }
  | none => { s with cr1 := s.cr1 &&& ~~~txeie }

/-- A step of a task in `xSerialPutChar`, or an interrupt. -/
inductive TransmitStep (Task : Type) where
  | send (task : Task) (cOutChar : Byte)
  | readCr1 (task : Task)
  | writeCr1 (task : Task)
  | interrupt

/-- The state after a step; `none` is a step that cannot come now. -/
def transmitStep [DecidableEq Task] (s : Transmission Task) :
    TransmitStep Task → Option (Transmission Task)
  | .send task cOutChar =>
      match s.progress task with
      | .outside => some (xQueueSend task cOutChar s)
      | _ => none
  | .readCr1 task =>
      match s.progress task with
      | .sent => some { s with progress := Function.update s.progress task (.loaded s.cr1) }
      | _ => none
  | .writeCr1 task =>
      match s.progress task with
      | .loaded cr1 =>
          some { s with
            cr1 := cr1 ||| txeie
            progress := Function.update s.progress task .outside }
      | _ => none
  | .interrupt => if s.TxeEnabled then some (irqHandler s) else none

/-! ## What a step does -/

/-- The steps that can come in a state, with what they change. -/
inductive Transmits [DecidableEq Task] (s : Transmission Task) :
    TransmitStep Task → Transmission Task → Prop where
  | accepted {task : Task} {cOutChar : Byte} {q : Fifo Byte txQueueLength}
      (houtside : s.progress task = .outside)
      (hitems : q.items = s.xCharsForTx.items ++ [cOutChar]) :
      Transmits s (.send task cOutChar)
        { s with
          xCharsForTx := q
          progress := Function.update s.progress task .sent
          accepted := s.accepted ++ [cOutChar] }
  | refused {task : Task} {cOutChar : Byte} (houtside : s.progress task = .outside)
      (hfull : s.xCharsForTx.items.length = txQueueLength) : Transmits s (.send task cOutChar) s
  | loaded {task : Task} (hsent : s.progress task = .sent) :
      Transmits s (.readCr1 task)
        { s with progress := Function.update s.progress task (.loaded s.cr1) }
  | enabled {task : Task} {cr1 : BitVec 32} (hloaded : s.progress task = .loaded cr1) :
      Transmits s (.writeCr1 task)
        { s with
          cr1 := cr1 ||| txeie
          progress := Function.update s.progress task .outside }
  | handed {cChar : Byte} {q : Fifo Byte txQueueLength} (henabled : s.TxeEnabled)
      (hitems : s.xCharsForTx.items = cChar :: q.items) :
      Transmits s .interrupt { s with xCharsForTx := q, written := s.written ++ [cChar] }
  | disabled (henabled : s.TxeEnabled) (hempty : s.xCharsForTx.items = []) :
      Transmits s .interrupt { s with cr1 := s.cr1 &&& ~~~txeie }

theorem transmits_of_step [DecidableEq Task] {s s' : Transmission Task}
    {step : TransmitStep Task} (h : transmitStep s step = some s') : Transmits s step s' := by
  cases step with
  | send task cOutChar =>
      simp only [transmitStep] at h
      split at h
      · rename_i houtside
        rw [xQueueSend] at h
        split at h
        · rename_i q hsend
          cases h
          exact .accepted houtside (Fifo.send_eq_some_iff.mp hsend)
        · rename_i hsend
          cases h
          exact .refused houtside (Fifo.send_eq_none_iff.mp hsend)
      · cases h
  | readCr1 task =>
      simp only [transmitStep] at h
      split at h
      · rename_i hsent
        cases h
        exact .loaded hsent
      · cases h
  | writeCr1 task =>
      simp only [transmitStep] at h
      split at h
      · rename_i cr1 hloaded
        cases h
        exact .enabled hloaded
      · cases h
  | interrupt =>
      simp only [transmitStep] at h
      split at h
      · rename_i henabled
        rw [irqHandler] at h
        split at h
        · rename_i cChar q hreceive
          cases h
          exact .handed henabled (Fifo.receive_eq_some_iff.mp hreceive)
        · rename_i hreceive
          cases h
          exact .disabled henabled (Fifo.receive_eq_none_iff.mp hreceive)
      · cases h

/-! ## Nothing lost, nothing stuck -/

theorem enabled_and (cr1 : BitVec 32) : (cr1 ||| txeie) &&& txeie = txeie := by
  ext i hi
  rw [BitVec.getElem_and, BitVec.getElem_or]
  cases cr1[i] <;> simp

theorem disabled_or (cr1 : BitVec 32) : (cr1 &&& ~~~txeie) ||| txeie = cr1 ||| txeie := by
  ext i hi
  rw [BitVec.getElem_or, BitVec.getElem_and, BitVec.getElem_not, BitVec.getElem_or]
  cases txeie[i] <;> simp

/-- Bytes leave in the order in which they were accepted, and as long as there are
any, the interrupt is enabled or a task is about to enable it. -/
structure Flowing (s : Transmission Task) : Prop where
  conserved : s.written ++ s.xCharsForTx.items = s.accepted
  awake : s.xCharsForTx.items ≠ [] → s.TxeEnabled ∨ ∃ task, s.progress task ≠ .outside

theorem flowing_idle (cr1 : BitVec 32) : Flowing (idle cr1 : Transmission Task) := by
  refine ⟨rfl, ?_⟩
  intro hitems
  exact absurd rfl hitems

theorem flowing_step [DecidableEq Task] {s s' : Transmission Task} {step : TransmitStep Task}
    (h : Flowing s) (hstep : Transmits s step s') : Flowing s' := by
  cases hstep with
  | accepted houtside hitems =>
      rename_i task cOutChar q
      refine ⟨?_, ?_⟩
      · simp only [hitems]
        rw [← List.append_assoc, h.conserved]
      · intro _
        refine Or.inr ⟨task, ?_⟩
        simp only [Function.update_self]
        nofun
  | refused => exact h
  | loaded hsent =>
      rename_i task
      refine ⟨h.conserved, ?_⟩
      intro _
      refine Or.inr ⟨task, ?_⟩
      simp only [Function.update_self]
      nofun
  | enabled hloaded =>
      rename_i task cr1
      refine ⟨h.conserved, ?_⟩
      intro _
      refine Or.inl ?_
      unfold Transmission.TxeEnabled
      rw [enabled_and]
      decide
  | handed henabled hitems =>
      rename_i cChar q
      refine ⟨?_, fun _ => Or.inl henabled⟩
      rw [← h.conserved, hitems, List.append_assoc]
      rfl
  | disabled henabled hempty => exact ⟨h.conserved, fun hitems => absurd hempty hitems⟩

/-- What a task has read of `CR1` may be old, but only in the bit that it is about to
set. -/
structure OtherBits (cr1 : BitVec 32) (s : Transmission Task) : Prop where
  register : s.cr1 ||| txeie = cr1 ||| txeie
  loaded : ∀ task old, s.progress task = .loaded old → old ||| txeie = cr1 ||| txeie

theorem otherBits_step [DecidableEq Task] {cr1 : BitVec 32} {s s' : Transmission Task}
    {step : TransmitStep Task} (h : OtherBits cr1 s) (hstep : Transmits s step s') :
    OtherBits cr1 s' := by
  have hmoved : ∀ task place, (∀ old, place = .loaded old → old ||| txeie = cr1 ||| txeie) →
      ∀ task' old, Function.update s.progress task place task' = .loaded old →
        old ||| txeie = cr1 ||| txeie := by
    intro task place hplace task' old hold
    by_cases hsame : task' = task
    · rw [hsame, Function.update_self] at hold
      exact hplace old hold
    · rw [Function.update_of_ne hsame] at hold
      exact h.loaded task' old hold
  cases hstep with
  | accepted houtside hitems =>
      refine ⟨h.register, hmoved _ _ ?_⟩
      nofun
  | refused => exact h
  | loaded hsent =>
      refine ⟨h.register, hmoved _ _ ?_⟩
      intro old hold
      cases hold
      exact h.register
  | enabled hloaded =>
      rename_i task old
      refine ⟨?_, hmoved _ _ ?_⟩
      · simp only [BitVec.or_assoc, BitVec.or_self]
        exact h.loaded task old hloaded
      · nofun
  | handed henabled hitems => exact ⟨h.register, h.loaded⟩
  | disabled henabled hempty =>
      refine ⟨?_, h.loaded⟩
      rw [disabled_or]
      exact h.register

/-- The other bits of `CR1` never change, although tasks read and write it in separate
steps. -/
theorem otherBits_after [DecidableEq Task] {cr1 : BitVec 32}
    {run : List (TransmitStep Task)} {s : Transmission Task}
    (hrun : runFrom transmitStep (idle cr1) run = some s) :
    s.cr1 ||| txeie = cr1 ||| txeie := by
  have hstart : OtherBits cr1 (idle cr1 : Transmission Task) := ⟨rfl, nofun⟩
  have hother : OtherBits cr1 s := by
    refine runFrom_invariant (fun _ s => OtherBits cr1 s) hstart ?_ hrun
    intro _ before step after hbefore hstep
    exact otherBits_step hbefore (transmits_of_step hstep)
  exact hother.register

/-- In every order of the steps of any number of tasks and of interrupts, what was
written and what is in the queue is what was accepted, in this order, and no byte is
left in the queue with the interrupt disabled and no task about to enable it. -/
theorem transmit_in_order [DecidableEq Task] {cr1 : BitVec 32}
    {run : List (TransmitStep Task)} {s : Transmission Task}
    (hrun : runFrom transmitStep (idle cr1) run = some s) :
    s.written ++ s.xCharsForTx.items = s.accepted ∧
      (s.xCharsForTx.items ≠ [] → (∀ task, s.progress task = .outside) → s.TxeEnabled) := by
  have hflowing : Flowing s := by
    refine runFrom_invariant (fun _ s => Flowing s) (flowing_idle cr1) ?_ hrun
    intro _ before step after hbefore hstep
    exact flowing_step hbefore (transmits_of_step hstep)
  refine ⟨hflowing.conserved, ?_⟩
  intro hitems houtside
  rcases hflowing.awake hitems with henabled | ⟨task, hinside⟩
  · exact henabled
  · exact absurd (houtside task) hinside

/-- Two tasks send; the interrupt takes both bytes and disables itself before the
second task enables it. -/
theorem transmit_in_order_twoTasks :
    ∃ s, runFrom transmitStep (idle 0#32 : Transmission Bool)
        [.send true 0x41#8, .send false 0x42#8, .readCr1 true, .writeCr1 true, .interrupt,
          .readCr1 false, .interrupt, .interrupt, .writeCr1 false] = some s ∧
      s.written ++ s.xCharsForTx.items = s.accepted ∧
      (s.xCharsForTx.items ≠ [] → (∀ task, s.progress task = .outside) → s.TxeEnabled) := by
  have hrun : runFrom transmitStep (idle 0#32 : Transmission Bool)
      [.send true 0x41#8, .send false 0x42#8, .readCr1 true, .writeCr1 true, .interrupt,
        .readCr1 false, .interrupt, .interrupt, .writeCr1 false] = some _ := rfl
  exact ⟨_, hrun, transmit_in_order hrun⟩

end WindradLogger.Serial
