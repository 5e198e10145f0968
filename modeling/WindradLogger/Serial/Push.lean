import Mathlib.Algebra.Group.Nat.Defs
import WindradLogger.Serial.Transmit

set_option autoImplicit false

/-!
# Pushing a buffer (`task_rpc_serial_in.c`, `serial.c`)

The channel codec hands a whole message over to `phyPushDataBuffer`, which puts its
bytes one by one into the queue for transmission and reports success.  A byte that
finds no room is dropped, and the length is passed on as an `unsigned short`.
-/

namespace WindradLogger.Serial

open WindradLogger.Lib

/-! ## The functions -/

/-- `RPC_RESULT`, of which the function returns one value -/
inductive RpcResult where
  | success
  deriving DecidableEq

/-- `channel_codec_comport_transmission` and `channel_codec_comport_COUNT` -/
inductive ChannelCodecComport where
  | transmission | count
  deriving DecidableEq

/-- A call of `phyPushDataBuffer` with the bytes that the loop of `vSerialPutString`
has not come to yet. -/
structure Push where
  transmission : Transmission Unit
  rest : List Byte

/-- The bytes that `vSerialPutString` sends: `usStringLength` is an `unsigned short`. -/
def vSerialPutString (pcString : List Byte) : List Byte :=
  pcString.take (pcString.length % 2 ^ 16)

/-- The beginning of `phyPushDataBuffer`. -/
def phyPushDataBuffer (port : ChannelCodecComport) (buffer : List Byte) (s : Transmission Unit) :
    Push :=
  { transmission := s
    rest := if port = .transmission then vSerialPutString buffer else [] }

/-- What happens during the call: its own next step, or an interrupt. -/
inductive PushStep where
  | task
  | interrupt
  deriving DecidableEq

/-- The state after a step; `none` is a step that cannot come now. -/
def pushStep (p : Push) : PushStep → Option Push
  | .task =>
      match p.transmission.progress (), p.rest with
      | .outside, [] => none
      | .outside, cOutChar :: rest =>
          (transmitStep p.transmission (.send () cOutChar)).map fun s =>
            { transmission := s, rest := rest }
      | .sent, _ =>
          (transmitStep p.transmission (.readCr1 ())).map fun s => { p with transmission := s }
      | .loaded _, _ =>
          (transmitStep p.transmission (.writeCr1 ())).map fun s => { p with transmission := s }
  | .interrupt => (transmitStep p.transmission .interrupt).map fun s => { p with transmission := s }

/-- The call has returned. -/
def Push.returned (p : Push) : Option RpcResult :=
  if p.rest = [] ∧ p.transmission.progress () = .outside then some .success else none

/-! ## Bytes on their way -/

/-- What has been written and what is in the queue. -/
def Transmission.stream {Task : Type} (s : Transmission Task) : List Byte :=
  s.written ++ s.xCharsForTx.items

/-- The steps that the present `xSerialPutChar` still has to do. -/
def Progress.remaining : Progress → Nat
  | outside => 0
  | sent => 2
  | loaded _ => 1

/-- Every byte finds room, when `level` bytes are in the queue and the present
`xSerialPutChar` has `remaining` steps to do: an interrupt takes one byte out, a byte
that is sent adds one and takes two more steps. -/
def FindsRoom : (level remaining : Nat) → List PushStep → Prop
  | _, _, [] => True
  | level, remaining, .interrupt :: run => FindsRoom (level - 1) remaining run
  | level, 0, .task :: run => level < txQueueLength ∧ FindsRoom (level + 1) 2 run
  | level, remaining + 1, .task :: run => FindsRoom level remaining run

/-- The steps of a call, with what they change. -/
inductive Pushes (p : Push) : PushStep → Push → Prop where
  | queued {cOutChar : Byte} {rest : List Byte} {s : Transmission Unit}
      (houtside : p.transmission.progress () = .outside) (hrest : p.rest = cOutChar :: rest)
      (hroom : p.transmission.xCharsForTx.items.length < txQueueLength)
      (hsent : s.progress () = .sent)
      (hlevel : s.xCharsForTx.items.length = p.transmission.xCharsForTx.items.length + 1)
      (hstream : s.stream = p.transmission.stream ++ [cOutChar]) :
      Pushes p .task { transmission := s, rest := rest }
  | dropped {cOutChar : Byte} {rest : List Byte}
      (houtside : p.transmission.progress () = .outside) (hrest : p.rest = cOutChar :: rest)
      (hfull : p.transmission.xCharsForTx.items.length = txQueueLength) :
      Pushes p .task { p with rest := rest }
  | enabling {s : Transmission Unit}
      (hprogress : p.transmission.progress () ≠ .outside)
      (hremaining : (p.transmission.progress ()).remaining = (s.progress ()).remaining + 1)
      (hqueue : s.xCharsForTx = p.transmission.xCharsForTx)
      (hwritten : s.written = p.transmission.written) :
      Pushes p .task { p with transmission := s }
  | interrupted {s : Transmission Unit} (hprogress : s.progress = p.transmission.progress)
      (hlevel : s.xCharsForTx.items.length = p.transmission.xCharsForTx.items.length - 1)
      (hstream : s.stream = p.transmission.stream) :
      Pushes p .interrupt { p with transmission := s }

theorem pushes_of_step {p q : Push} {step : PushStep} (h : pushStep p step = some q) :
    Pushes p step q := by
  cases step with
  | task =>
      simp only [pushStep] at h
      split at h
      · cases h
      · rename_i cOutChar rest houtside hrest
        obtain ⟨s, hs, rfl⟩ := Option.map_eq_some_iff.mp h
        cases transmits_of_step hs with
        | accepted hbefore hitems =>
            rename_i queue
            have hroom := queue.bounded
            rw [hitems, List.length_append, List.length_singleton] at hroom
            refine .queued houtside hrest hroom rfl ?_ ?_
            · rw [hitems, List.length_append, List.length_singleton]
            · simp only [Transmission.stream, hitems, List.append_assoc]
        | refused _ hfull => exact .dropped houtside hrest hfull
      · rename_i hsent
        obtain ⟨s, hs, rfl⟩ := Option.map_eq_some_iff.mp h
        cases transmits_of_step hs with
        | loaded _ =>
            refine .enabling ?_ ?_ rfl rfl
            · rw [hsent]
              nofun
            · rw [hsent]
              rfl
      · rename_i cr1 hloaded
        obtain ⟨s, hs, rfl⟩ := Option.map_eq_some_iff.mp h
        cases transmits_of_step hs with
        | enabled _ =>
            refine .enabling ?_ ?_ rfl rfl
            · rw [hloaded]
              nofun
            · rw [hloaded]
              rfl
  | interrupt =>
      obtain ⟨s, hs, rfl⟩ := Option.map_eq_some_iff.mp h
      cases transmits_of_step hs with
      | handed _ hitems =>
          refine .interrupted rfl ?_ ?_
          · rw [hitems]
            rfl
          · simp only [Transmission.stream, hitems, List.append_assoc]
            rfl
      | disabled _ hempty =>
          refine .interrupted rfl ?_ rfl
          rw [hempty]
          rfl

/-- The bytes on their way and those still to come are never more than at first. -/
theorem length_stream_le {p p' : Push} {run : List PushStep}
    (h : runFrom pushStep p run = some p') :
    p'.transmission.stream.length + p'.rest.length ≤
      p.transmission.stream.length + p.rest.length := by
  refine runFrom_invariant (fun _ q => q.transmission.stream.length + q.rest.length ≤
    p.transmission.stream.length + p.rest.length) (Nat.le_refl _) ?_ h
  intro _ before step after hbefore hstep
  refine Nat.le_trans ?_ hbefore
  cases pushes_of_step hstep with
  | queued _ hrest _ _ _ hstream =>
      simp only [hrest, hstream, List.length_append, List.length_cons, List.length_nil]
      omega
  | dropped _ hrest _ =>
      simp only [hrest, List.length_cons]
      omega
  | enabling _ _ hqueue hwritten =>
      simp only [Transmission.stream, hqueue, hwritten]
      exact Nat.le_refl _
  | interrupted _ _ hstream =>
      simp only [hstream]
      exact Nat.le_refl _

/-- A call that returns has sent all its bytes exactly when every byte found room. -/
theorem stream_after_iff {run : List PushStep} : ∀ {p p' : Push},
    runFrom pushStep p run = some p' → p'.returned = some .success →
      (p'.transmission.stream = p.transmission.stream ++ p.rest ↔
        FindsRoom p.transmission.xCharsForTx.items.length
          (p.transmission.progress ()).remaining run) := by
  induction run with
  | nil =>
      intro p p' hrun hreturned
      cases hrun
      rw [Push.returned] at hreturned
      split at hreturned
      · rename_i hdone
        rw [hdone.1, List.append_nil]
        exact iff_of_true rfl trivial
      · cases hreturned
  | cons step run ih =>
      intro p p' hrun hreturned
      obtain ⟨q, hstep, hrest⟩ := runFrom_cons_eq_some.mp hrun
      have hiff := ih hrest hreturned
      have hlength := length_stream_le hrest
      cases pushes_of_step hstep with
      | queued houtside hchars hroom hsent hlevel hstream =>
          simp only [hsent, hlevel, hstream, List.append_assoc, List.singleton_append] at hiff
          rw [hchars, houtside, hiff]
          exact (and_iff_right hroom).symm
      | dropped houtside hchars hfull =>
          rw [hchars, houtside]
          refine iff_of_false ?_ ?_
          · -- The dropped byte is missing in the end.
            intro hall
            simp only [hall, List.length_append, List.length_cons] at hlength
            omega
          · rintro ⟨hroom, -⟩
            omega
      | enabling hprogress hremaining hqueue hwritten =>
          simp only [Transmission.stream, hqueue, hwritten] at hiff
          rw [hremaining]
          exact hiff
      | interrupted hprogress hlevel hstream =>
          simp only [hprogress, hlevel, hstream] at hiff
          exact hiff

/-! ## The result -/

/-- A call of `phyPushDataBuffer` for the transmission that returns has put the whole
buffer behind what was there exactly when its length fits into an `unsigned short` and
every byte finds room. -/
theorem success_means_queued_iff {s : Transmission Unit} (houtside : s.progress () = .outside)
    {buffer : List Byte} {run : List PushStep} {p : Push}
    (hrun : runFrom pushStep (phyPushDataBuffer .transmission buffer s) run = some p)
    (hsuccess : p.returned = some .success) :
    p.transmission.stream = s.stream ++ buffer ↔
      buffer.length < 2 ^ 16 ∧ FindsRoom s.xCharsForTx.items.length 0 run := by
  have hsent : (phyPushDataBuffer .transmission buffer s).rest =
      buffer.take (buffer.length % 2 ^ 16) := rfl
  have hiff := stream_after_iff hrun hsuccess
  have hlength := length_stream_le hrun
  rw [hsent] at hiff hlength
  simp only [phyPushDataBuffer, houtside, Progress.remaining] at hiff hlength
  rcases Nat.lt_or_ge buffer.length (2 ^ 16) with hshort | hlong
  · rw [Nat.mod_eq_of_lt hshort, List.take_length] at hiff
    rw [hiff]
    exact (and_iff_right hshort).symm
  · refine iff_of_false ?_ fun h => absurd hlong (Nat.not_le.mpr h.1)
    -- The bytes beyond the narrowed length are not sent at all.
    intro hall
    have hmod : buffer.length % 2 ^ 16 < 2 ^ 16 := Nat.mod_lt _ (by decide)
    simp only [hall, List.length_append, List.length_take] at hlength
    omega

/-- The steps that a call still has to do. -/
def Push.todo (p : Push) : Nat :=
  3 * p.rest.length + (p.transmission.progress ()).remaining

theorem pushStep_task_some {p : Push} (h : p.returned = none) :
    ∃ q, pushStep p .task = some q := by
  simp only [pushStep]
  split
  · rename_i houtside hrest
    rw [Push.returned, if_pos ⟨hrest, houtside⟩] at h
    cases h
  · rename_i houtside _
    simp only [transmitStep, houtside, Option.map_some]
    exact ⟨_, rfl⟩
  · rename_i hsent
    simp only [transmitStep, hsent, Option.map_some]
    exact ⟨_, rfl⟩
  · rename_i hloaded
    simp only [transmitStep, hloaded, Option.map_some]
    exact ⟨_, rfl⟩

theorem todo_decreases {p q : Push} (h : pushStep p .task = some q) : q.todo < p.todo := by
  unfold Push.todo
  cases pushes_of_step h with
  | queued houtside hrest _ hsent _ _ =>
      simp only [houtside, hrest, hsent, List.length_cons, Progress.remaining]
      omega
  | dropped houtside hrest _ =>
      simp only [hrest, List.length_cons]
      omega
  | enabling _ hremaining _ _ =>
      simp only [hremaining]
      omega

/-- Left alone, a call returns, and reports success whatever became of its bytes. -/
theorem returns_success (p : Push) :
    ∃ n q, runFrom pushStep p (List.replicate n .task) = some q ∧
      q.returned = some .success := by
  induction htodo : p.todo using Nat.strongRecOn generalizing p with
  | ind todo ih =>
      cases hreturned : p.returned with
      | some result =>
          cases result
          exact ⟨0, p, rfl, hreturned⟩
      | none =>
          obtain ⟨next, hnext⟩ := pushStep_task_some hreturned
          have hless : next.todo < todo := htodo ▸ todo_decreases hnext
          obtain ⟨n, q, hrun, hq⟩ := ih next.todo hless next rfl
          exact ⟨n + 1, q, runFrom_cons_eq_some.mpr ⟨next, hnext, hrun⟩, hq⟩

/-- A queue of `n` bytes that are being transmitted, with no task in a call. -/
def transmitting (n : Nat) (h : n ≤ txQueueLength) : Transmission Unit :=
  { xCharsForTx :=
      { items := List.replicate n 0#8
        bounded := le_of_eq_of_le List.length_replicate h }
    cr1 := txeie
    progress := fun _ => .outside
    written := []
    accepted := List.replicate n 0#8 }

/-- There is room for one byte; an interrupt during the first `xSerialPutChar` makes
room for the second. -/
theorem success_means_queued_iff_interrupted :
    let s := transmitting 500 (by decide)
    ∃ p, runFrom pushStep (phyPushDataBuffer .transmission [0x41#8, 0x42#8] s)
        [.task, .interrupt, .task, .task, .task, .task, .task] = some p ∧
      p.returned = some .success ∧ p.transmission.stream = s.stream ++ [0x41#8, 0x42#8] := by
  intro s
  have hrun : (runFrom pushStep (phyPushDataBuffer .transmission [0x41#8, 0x42#8] s)
      [.task, .interrupt, .task, .task, .task, .task, .task]).map Push.returned =
        some (some .success) := by decide +kernel
  obtain ⟨p, hp, hreturned⟩ := Option.map_eq_some_iff.mp hrun
  have hlevel : s.xCharsForTx.items.length = 500 := List.length_replicate
  refine ⟨p, hp, hreturned, (success_means_queued_iff rfl hp hreturned).mpr ⟨by decide, ?_⟩⟩
  rw [hlevel]
  exact ⟨by decide, by decide, trivial⟩

/-- A queue in which no room is left. -/
def fullQueue : Transmission Unit := transmitting txQueueLength (Nat.le_refl _)

/-- A byte for a queue that is full is dropped, and success is reported. -/
theorem success_of_dropped :
    ∃ p, runFrom pushStep (phyPushDataBuffer .transmission [0x41#8] fullQueue) [.task] = some p ∧
      p.returned = some .success ∧
      p.transmission.stream ≠ fullQueue.stream ++ [0x41#8] := by
  have hfirst : (phyPushDataBuffer .transmission [0x41#8] fullQueue).returned = none := rfl
  obtain ⟨p, hstep⟩ := pushStep_task_some hfirst
  refine ⟨p, runFrom_cons_eq_some.mpr ⟨p, hstep, rfl⟩, ?_⟩
  have hlength : fullQueue.xCharsForTx.items.length = txQueueLength := List.length_replicate
  cases pushes_of_step hstep with
  | queued _ _ hroom _ _ _ => exact absurd hlength (Nat.ne_of_lt hroom)
  | dropped _ hrest _ =>
      cases hrest
      refine ⟨rfl, ?_⟩
      intro hsame
      exact List.cons_ne_nil _ _ (List.self_eq_append_right.mp hsame)
  | enabling hprogress _ _ _ => exact absurd rfl hprogress

end WindradLogger.Serial
