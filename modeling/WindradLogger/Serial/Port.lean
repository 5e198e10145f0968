import WindradLogger.Serial.Transmit

set_option autoImplicit false

/-!
# The serial port in both directions (`serial.c`, `task_rpc_serial_in.c`)

One handler serves both directions: it hands a byte over for transmission and takes
the byte that has been received, which it puts into a queue for `taskRPCSerialIn`.  A
byte is lost when the one before it has not been taken yet, or when that queue is
full; the handler does not look at what `xQueueSendFromISR` returns.
-/

namespace WindradLogger.Serial

open WindradLogger.Lib

/-- `USART_CR1_RXNEIE`, the bit of `CR1` that enables the receive interrupt -/
def rxneie : BitVec 32 := 0x20#32

/-- The length of `xRxedChars_rpc`. -/
def rxQueueLength : Nat := 500

variable {Task : Type}

/-- The port, the tasks that send, and `taskRPCSerialIn`. -/
structure Port (Task : Type) where
  transmission : Transmission Task
  /-- a byte in `DR` that has not been read, with `RXNE` set -/
  received : Option Byte
  /-- `xRxedChars_rpc` -/
  xRxedChars : Fifo Byte rxQueueLength
  /-- what `taskRPCSerialIn` has passed on to the channel codec, in this order -/
  delivered : List Byte
  /-- every byte that came over the line, in this order; the code does not keep them -/
  arrived : List Byte

namespace Port

/-- Nothing has come yet. -/
def idle (cr1 : BitVec 32) : Port Task :=
  { transmission := Serial.idle cr1
    received := none
    xRxedChars := .empty
    delivered := []
    arrived := [] }

/-- The receive interrupt is enabled. -/
def RxneEnabled (s : Port Task) : Prop := s.transmission.cr1 &&& rxneie ≠ 0#32

instance (s : Port Task) : Decidable s.RxneEnabled := inferInstanceAs (Decidable (_ ≠ _))

/-- A byte has come over the line; if `DR` still holds another one it is lost. -/
def arrive (byte : Byte) (s : Port Task) : Port Task :=
  { s with received := some (s.received.getD byte), arrived := s.arrived ++ [byte] }

/-- `USART3_IRQHandler`; `txe` is the flag that `DR` can take a byte. -/
def usart3IrqHandler (txe : Bool) (s : Port Task) : Port Task :=
  let s :=
    if txe ∧ s.transmission.TxeEnabled then
      { s with transmission := irqHandler s.transmission }
    else s
  match s.received with
  | some cChar =>
      if s.RxneEnabled then
        { s with
          received := none
          xRxedChars := (s.xRxedChars.send cChar).getD s.xRxedChars }
      else s
  | none => s

/-- A round of `taskRPCSerialIn` in which `xSerialGetChar` has a byte for it. -/
def serialIn (s : Port Task) : Option (Port Task) :=
  s.xRxedChars.receive.map fun (inByte, xRxedChars) =>
    { s with xRxedChars := xRxedChars, delivered := s.delivered ++ [inByte] }

/-- What can come: a step of a task in `xSerialPutChar`, a byte over the line, an
interrupt, or a round of `taskRPCSerialIn`. -/
inductive Event (Task : Type) where
  | task (step : TransmitStep Task)
  | arrive (byte : Byte)
  | interrupt (txe : Bool)
  | serialIn

/-- The state after an event; `none` is one that cannot come now. -/
def step [DecidableEq Task] (s : Port Task) : Event Task → Option (Port Task)
  | .task .interrupt => none
  | .task step =>
      (transmitStep s.transmission step).map fun transmission =>
        { s with transmission := transmission }
  | .arrive byte => some (s.arrive byte)
  | .interrupt txe =>
      if txe ∧ s.transmission.TxeEnabled ∨ s.received.isSome ∧ s.RxneEnabled then
        some (s.usart3IrqHandler txe)
      else none
  | .serialIn => s.serialIn

/-! ## What a step does -/

/-- The bytes that have come and have not been lost. -/
def kept (s : Port Task) : List Byte :=
  s.delivered ++ s.xRxedChars.items ++ s.received.toList

/-- What a step does to the bytes received: nothing, or a byte is kept, lost, queued,
dropped or delivered. -/
inductive Receives (s : Port Task) : Event Task → Port Task → Prop where
  | other {step : TransmitStep Task} {s' : Port Task} (hreceived : s'.received = s.received)
      (hqueue : s'.xRxedChars = s.xRxedChars) (hdelivered : s'.delivered = s.delivered)
      (harrived : s'.arrived = s.arrived) : Receives s (.task step) s'
  | kept {byte : Byte} (hempty : s.received = none) :
      Receives s (.arrive byte)
        { s with received := some byte, arrived := s.arrived ++ [byte] }
  | overrun {byte : Byte} (hfull : s.received.isSome) :
      Receives s (.arrive byte) { s with arrived := s.arrived ++ [byte] }
  | sending {txe : Bool} {s' : Port Task} (hempty : s.received = none)
      (hreceived : s'.received = none) (hqueue : s'.xRxedChars = s.xRxedChars)
      (hdelivered : s'.delivered = s.delivered) (harrived : s'.arrived = s.arrived) :
      Receives s (.interrupt txe) s'
  | queued {txe : Bool} {cChar : Byte} {s' : Port Task} (hreceived : s.received = some cChar)
      (htaken : s'.received = none) (hqueue : s'.xRxedChars.items = s.xRxedChars.items ++ [cChar])
      (hdelivered : s'.delivered = s.delivered) (harrived : s'.arrived = s.arrived) :
      Receives s (.interrupt txe) s'
  | dropped {txe : Bool} {cChar : Byte} {s' : Port Task} (hreceived : s.received = some cChar)
      (htaken : s'.received = none) (hfull : s.xRxedChars.items.length = rxQueueLength)
      (hqueue : s'.xRxedChars = s.xRxedChars) (hdelivered : s'.delivered = s.delivered)
      (harrived : s'.arrived = s.arrived) : Receives s (.interrupt txe) s'
  | delivered {inByte : Byte} {q : Fifo Byte rxQueueLength}
      (hqueue : s.xRxedChars.items = inByte :: q.items) :
      Receives s .serialIn { s with xRxedChars := q, delivered := s.delivered ++ [inByte] }

/-- What a step does to the transmission. -/
def Sends [DecidableEq Task] (s s' : Port Task) : Prop :=
  s'.transmission = s.transmission ∨
    ∃ step, transmitStep s.transmission step = some s'.transmission

/-- `CR1` is as it was at the start, but for the transmit interrupt, and the receive
interrupt is enabled. -/
structure Listening (cr1 : BitVec 32) (s : Port Task) : Prop where
  enabled : cr1 &&& rxneie ≠ 0#32
  other : OtherBits cr1 s.transmission

theorem rxneie_or_txeie (cr1 : BitVec 32) : (cr1 ||| txeie) &&& rxneie = cr1 &&& rxneie := by
  have hdisjoint : txeie &&& rxneie = 0#32 := by decide
  have hdistrib : (cr1 ||| txeie) &&& rxneie = (cr1 &&& rxneie) ||| (txeie &&& rxneie) := by
    ext i hi
    simp only [BitVec.getElem_and, BitVec.getElem_or, Bool.and_or_distrib_right]
  rw [hdistrib, hdisjoint, BitVec.or_zero]

/-- The receive interrupt stays enabled. -/
theorem rxneEnabled_of_register {cr1 : BitVec 32} {s : Port Task} (henabled : cr1 &&& rxneie ≠ 0#32)
    (hregister : s.transmission.cr1 ||| txeie = cr1 ||| txeie) : s.RxneEnabled := by
  unfold RxneEnabled
  rw [← rxneie_or_txeie, hregister, rxneie_or_txeie]
  exact henabled

/-- The first part of the handler does not touch what is received. -/
theorem sending_part (txe : Bool) (s : Port Task) :
    ∃ transmission,
      (if txe ∧ s.transmission.TxeEnabled then
        { s with transmission := irqHandler s.transmission }
      else s) = { s with transmission := transmission } ∧
      (transmission = s.transmission ∨
        s.transmission.TxeEnabled ∧ transmission = irqHandler s.transmission) := by
  split
  · rename_i hsend
    exact ⟨_, rfl, Or.inr ⟨hsend.2, rfl⟩⟩
  · exact ⟨_, rfl, Or.inl rfl⟩

theorem irqHandler_cr1 {cr1 : BitVec 32} {s : Transmission Task} (h : OtherBits cr1 s) :
    (irqHandler s).cr1 ||| txeie = cr1 ||| txeie := by
  unfold irqHandler
  split
  · exact h.register
  · rw [disabled_or]
    exact h.register

/-! ## Nothing lost, or exactly what -/

/-- No byte is lost: when one comes the one before it has been taken, and when one is
taken there is room in the queue.  `pending` says whether a byte waits in `DR`, and
`level` how many are in the queue. -/
def NoLoss : (pending : Bool) → (level : Nat) → List (Event Task) → Prop
  | _, _, [] => True
  | pending, level, .task _ :: run => NoLoss pending level run
  | pending, level, .arrive _ :: run => pending = false ∧ NoLoss true level run
  | false, level, .interrupt _ :: run => NoLoss false level run
  | true, level, .interrupt _ :: run => level < rxQueueLength ∧ NoLoss false (level + 1) run
  | pending, level, .serialIn :: run => NoLoss pending (level - 1) run

/-- How many bytes have been lost. -/
def lost (s : Port Task) : Int := (s.arrived.length : Int) - s.kept.length

/-- Another byte is lost. -/
def loses (s : Port Task) : Event Task → Bool
  | .task _ => false
  | .arrive _ => s.received.isSome
  | .interrupt _ => s.received.isSome && decide (s.xRxedChars.items.length = rxQueueLength)
  | .serialIn => false

theorem length_kept (s : Port Task) : s.kept.length =
    s.delivered.length + s.xRxedChars.items.length + s.received.toList.length := by
  rw [kept, List.length_append, List.length_append]

theorem lost_of_step {s s' : Port Task} {e : Event Task} (h : Receives s e s') :
    s'.lost = s.lost + if s.loses e then 1 else 0 := by
  unfold lost
  rw [length_kept, length_kept]
  cases h with
  | other hreceived hqueue hdelivered harrived =>
      simp only [loses, hreceived, hqueue, hdelivered, harrived, Bool.false_eq_true, if_false]
      omega
  | kept hempty =>
      simp only [loses, hempty, Option.isSome_none, Bool.false_eq_true, if_false,
        List.length_append, List.length_cons, List.length_nil, Option.toList_some,
        Option.toList_none]
      omega
  | overrun hfull =>
      simp only [loses, hfull, if_true, List.length_append, List.length_cons, List.length_nil]
      omega
  | sending hempty hreceived hqueue hdelivered harrived =>
      simp only [loses, hreceived, hqueue, hdelivered, harrived, hempty, Option.isSome_none,
        Bool.false_and, Bool.false_eq_true, if_false]
      omega
  | queued hreceived htaken hqueue hdelivered harrived =>
      have hroom := s'.xRxedChars.bounded
      rw [hqueue, List.length_append, List.length_singleton] at hroom
      have hnotfull : s.xRxedChars.items.length ≠ rxQueueLength := by omega
      simp only [loses, hreceived, htaken, hqueue, hdelivered, harrived, hnotfull, decide_false,
        Bool.and_false, Bool.false_eq_true, if_false, List.length_append, List.length_cons,
        List.length_nil, Option.toList_some, Option.toList_none]
      omega
  | dropped hreceived htaken hfull hqueue hdelivered harrived =>
      simp only [loses, hreceived, htaken, hqueue, hdelivered, harrived, hfull, Option.isSome_some,
        decide_true, Bool.and_self, if_true, List.length_cons, List.length_nil,
        Option.toList_some, Option.toList_none]
      omega
  | delivered hqueue =>
      simp only [loses, hqueue, Bool.false_eq_true, if_false, List.length_append,
        List.length_cons, List.length_nil]
      omega

/-- The first event loses nothing, and neither do the others. -/
theorem noLoss_cons {s s' : Port Task} {e : Event Task} (h : Receives s e s')
    (run : List (Event Task)) :
    NoLoss s.received.isSome s.xRxedChars.items.length (e :: run) ↔
      s.loses e = false ∧ NoLoss s'.received.isSome s'.xRxedChars.items.length run := by
  cases h with
  | other hreceived hqueue hdelivered harrived => simp [NoLoss, loses, hreceived, hqueue]
  | kept hempty => simp [NoLoss, loses, hempty]
  | overrun hfull => simp [NoLoss, loses, hfull]
  | sending hempty hreceived hqueue hdelivered harrived =>
      simp [NoLoss, loses, hempty, hreceived, hqueue]
  | queued hreceived htaken hqueue hdelivered harrived =>
      have hroom := s'.xRxedChars.bounded
      rw [hqueue, List.length_append, List.length_singleton] at hroom
      have hnotfull : s.xRxedChars.items.length ≠ rxQueueLength := by omega
      have hlt : s.xRxedChars.items.length < rxQueueLength := by omega
      simp [NoLoss, loses, hreceived, htaken, hqueue, hnotfull, hlt]
  | dropped hreceived htaken hfull hqueue hdelivered harrived =>
      simp [NoLoss, loses, hreceived, htaken, hqueue, hfull]
  | delivered hqueue => simp [NoLoss, loses, hqueue]

/-- What is kept are bytes that came, in the order in which they came. -/
theorem kept_sublist_of_step {s s' : Port Task} {e : Event Task} (h : Receives s e s')
    (hsublist : s.kept.Sublist s.arrived) : s'.kept.Sublist s'.arrived := by
  unfold kept at hsublist ⊢
  cases h with
  | other hreceived hqueue hdelivered harrived =>
      rw [hreceived, hqueue, hdelivered, harrived]
      exact hsublist
  | kept hempty =>
      rw [hempty, Option.toList_none, List.append_nil] at hsublist
      exact hsublist.append (List.Sublist.refl _)
  | overrun hfull => exact hsublist.trans (List.sublist_append_left _ _)
  | sending hempty hreceived hqueue hdelivered harrived =>
      rw [hreceived, hqueue, hdelivered, harrived, ← hempty]
      exact hsublist
  | queued hreceived htaken hqueue hdelivered harrived =>
      rw [htaken, hqueue, hdelivered, harrived, Option.toList_none, List.append_nil]
      rw [hreceived, Option.toList_some, List.append_assoc] at hsublist
      exact hsublist
  | dropped hreceived htaken hfull hqueue hdelivered harrived =>
      rw [htaken, hqueue, hdelivered, harrived, Option.toList_none, List.append_nil]
      exact (List.sublist_append_left _ _).trans hsublist
  | delivered hqueue =>
      rw [hqueue] at hsublist
      rw [List.append_assoc s.delivered, List.singleton_append]
      exact hsublist

/-! ## Along a run -/

/-- What holds along every run. -/
structure Duplex (cr1 : BitVec 32) (s : Port Task) : Prop where
  listening : Listening cr1 s
  flowing : Flowing s.transmission
  inOrder : s.kept.Sublist s.arrived

theorem duplex_idle {cr1 : BitVec 32} (henabled : cr1 &&& rxneie ≠ 0#32) :
    Duplex cr1 (idle cr1 : Port Task) :=
  ⟨⟨henabled, rfl, nofun⟩, flowing_idle cr1, List.Sublist.refl _⟩

variable [DecidableEq Task]

theorem step_cases {cr1 : BitVec 32} {s s' : Port Task} {e : Event Task} (hlisten : Listening cr1 s)
    (h : s.step e = some s') : Receives s e s' ∧ Sends s s' := by
  cases e with
  | task step =>
      have hmapped : step ≠ .interrupt ∧ (transmitStep s.transmission step).map (fun transmission =>
          { s with transmission := transmission }) = some s' := by
        cases step with
        | interrupt => cases h
        | send task cOutChar => exact ⟨nofun, h⟩
        | readCr1 task => exact ⟨nofun, h⟩
        | writeCr1 task => exact ⟨nofun, h⟩
      obtain ⟨transmission, hstep, rfl⟩ := Option.map_eq_some_iff.mp hmapped.2
      exact ⟨.other rfl rfl rfl rfl, Or.inr ⟨step, hstep⟩⟩
  | arrive byte =>
      cases h
      refine ⟨?_, Or.inl rfl⟩
      rcases hreceived : s.received with _ | waiting
      · rw [arrive, hreceived]
        exact .kept hreceived
      · have harrive : s.arrive byte = { s with arrived := s.arrived ++ [byte] } := by
          rw [arrive, hreceived, Option.getD_some, ← hreceived]
        rw [harrive]
        refine .overrun ?_
        rw [hreceived]
        rfl
  | interrupt txe =>
      rw [step] at h
      split at h
      · cases h
        unfold usart3IrqHandler
        obtain ⟨transmission, hsending, htransmission⟩ := sending_part txe s
        rw [hsending]
        have hsends : ∀ s' : Port Task, s'.transmission = transmission → Sends s s' := by
          intro s' hs'
          rcases htransmission with hsame | ⟨henabled, hirq⟩
          · exact Or.inl (hs'.trans hsame)
          · refine Or.inr ⟨.interrupt, ?_⟩
            rw [transmitStep, if_pos henabled, hs', hirq]
        have henabled : RxneEnabled { s with transmission := transmission } := by
          refine rxneEnabled_of_register hlisten.enabled ?_
          rcases htransmission with hsame | ⟨-, hirq⟩
          · rw [hsame]
            exact hlisten.other.register
          · rw [hirq]
            exact irqHandler_cr1 hlisten.other
        rcases hreceived : s.received with _ | cChar
        · exact ⟨.sending hreceived rfl rfl rfl rfl, hsends _ rfl⟩
        · rw [hreceived] at henabled
          dsimp only
          rw [if_pos henabled]
          refine ⟨?_, hsends _ rfl⟩
          rcases hsend : s.xRxedChars.send cChar with _ | q
          · exact .dropped hreceived rfl (Fifo.send_eq_none_iff.mp hsend) rfl rfl rfl
          · exact .queued hreceived rfl (Fifo.send_eq_some_iff.mp hsend) rfl rfl
      · cases h
  | serialIn =>
      obtain ⟨⟨inByte, q⟩, hreceive, rfl⟩ := Option.map_eq_some_iff.mp h
      exact ⟨.delivered (Fifo.receive_eq_some_iff.mp hreceive), Or.inl rfl⟩

theorem duplex_step {cr1 : BitVec 32} {s s' : Port Task} {e : Event Task} (h : Duplex cr1 s)
    (hstep : s.step e = some s') : Duplex cr1 s' := by
  obtain ⟨hreceives, hsends⟩ := step_cases h.listening hstep
  have htransmission : OtherBits cr1 s'.transmission ∧ Flowing s'.transmission := by
    rcases hsends with hsame | ⟨step, hsent⟩
    · rw [hsame]
      exact ⟨h.listening.other, h.flowing⟩
    · have htransmits := transmits_of_step hsent
      exact ⟨otherBits_step h.listening.other htransmits, flowing_step h.flowing htransmits⟩
  exact ⟨⟨h.listening.enabled, htransmission.1⟩, htransmission.2,
    kept_sublist_of_step hreceives h.inOrder⟩

/-- Over a run bytes are only lost, and none is exactly if the run loses none. -/
theorem lost_of_run {cr1 : BitVec 32} {run : List (Event Task)} {s s' : Port Task}
    (h : Duplex cr1 s) (hrun : runFrom step s run = some s') :
    s.lost ≤ s'.lost ∧
      (s'.lost = s.lost ↔ NoLoss s.received.isSome s.xRxedChars.items.length run) := by
  induction run generalizing s with
  | nil =>
      cases hrun
      exact ⟨Int.le_refl _, iff_of_true rfl trivial⟩
  | cons e rest ih =>
      obtain ⟨after, hstep, hrest⟩ := runFrom_cons_eq_some.mp hrun
      have hreceives := (step_cases h.listening hstep).1
      obtain ⟨hle, hiff⟩ := ih (duplex_step h hstep) hrest
      have hlost := lost_of_step hreceives
      rw [noLoss_cons hreceives, ← hiff]
      cases hloses : s.loses e with
      | false =>
          rw [hloses, if_neg Bool.false_ne_true, Int.add_zero] at hlost
          rw [hlost] at hle ⊢
          exact ⟨hle, (and_iff_right rfl).symm⟩
      | true =>
          rw [hloses, if_pos rfl] at hlost
          refine ⟨by omega, iff_of_false (by omega) ?_⟩
          rintro ⟨hnone, -⟩
          contradiction

/-- In every order of the steps of the tasks that send, of bytes that come over the
line, of interrupts and of the rounds of `taskRPCSerialIn`: what has been passed on and
what is on its way are bytes that came, in their order, and all of them exactly if
none comes before the one before it is taken and none is taken while the queue is
full; a byte that waits in `DR` can always be taken; and what is sent is not disturbed
by what is received. -/
theorem port_in_order {cr1 : BitVec 32} (henabled : cr1 &&& rxneie ≠ 0#32)
    {run : List (Event Task)} {s : Port Task} (hrun : runFrom step (idle cr1) run = some s) :
    s.kept.Sublist s.arrived ∧ (s.kept = s.arrived ↔ NoLoss false 0 run) ∧
      (s.received.isSome → ∀ txe, (s.step (.interrupt txe)).isSome) ∧
      s.transmission.written ++ s.transmission.xCharsForTx.items = s.transmission.accepted ∧
      (s.transmission.xCharsForTx.items ≠ [] → (∀ task, s.transmission.progress task = .outside) →
        s.transmission.TxeEnabled) := by
  have hduplex : Duplex cr1 s := by
    refine runFrom_invariant (fun _ s => Duplex cr1 s) (duplex_idle henabled) ?_ hrun
    intro _ before e after hbefore hstep
    exact duplex_step hbefore hstep
  refine ⟨hduplex.inOrder, ?_, ?_, hduplex.flowing.conserved, ?_⟩
  · obtain ⟨-, hiff⟩ := lost_of_run (duplex_idle henabled) hrun
    have hnone : (idle cr1 : Port Task).lost = 0 := rfl
    have hstart : NoLoss false 0 run ↔ s.lost = 0 := by
      rw [← hnone]
      exact hiff.symm
    rw [hstart, lost]
    refine ⟨?_, ?_⟩
    · intro hall
      rw [hall, Int.sub_self]
    · intro hlength
      exact hduplex.inOrder.eq_of_length (by omega)
  · intro hwaiting txe
    have hlistening := hduplex.listening
    have hrxne := rxneEnabled_of_register hlistening.enabled hlistening.other.register
    rw [step, if_pos (Or.inr ⟨hwaiting, hrxne⟩)]
    rfl
  · intro hitems houtside
    rcases hduplex.flowing.awake hitems with htxe | ⟨task, hinside⟩
    · exact htxe
    · exact absurd (houtside task) hinside

/-- Two bytes come while a task sends one: the first is taken and passed on, and the
interrupt that takes the second also sends. -/
theorem port_in_order_echo : ∃ s, runFrom step (idle rxneie : Port Unit)
      [.arrive 0x41#8, .interrupt false, .serialIn, .task (.send () 0x42#8), .arrive 0x43#8,
        .task (.readCr1 ()), .task (.writeCr1 ()), .interrupt true] = some s ∧
    s.kept = s.arrived := by
  have hrun : runFrom step (idle rxneie : Port Unit)
      [.arrive 0x41#8, .interrupt false, .serialIn, .task (.send () 0x42#8), .arrive 0x43#8,
        .task (.readCr1 ()), .task (.writeCr1 ()), .interrupt true] = some _ := rfl
  have hnoLoss : NoLoss false 0 ([.arrive 0x41#8, .interrupt false, .serialIn,
      .task (.send () 0x42#8), .arrive 0x43#8, .task (.readCr1 ()), .task (.writeCr1 ()),
      .interrupt true] : List (Event Unit)) := by
    simp [NoLoss, rxQueueLength]
  exact ⟨_, hrun, (port_in_order (by decide) hrun).2.1.mpr hnoLoss⟩

end Port

end WindradLogger.Serial
