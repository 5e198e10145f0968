import WindradLogger.Adc.Record
import WindradLogger.Lib.Run

set_option autoImplicit false

/-!
# The halves of the input buffer (`task_external_adc.c`, `stm32f4xx_it.c`)

A circular DMA fills `adc_input_buffer` and raises an interrupt each time it has
completed a half of it.  The interrupt only gives a binary semaphore; which half
the task reads next is decided by `read_buffer_start_index`, which the task
advances by itself after every half it has processed.
-/

namespace WindradLogger.Adc

open WindradLogger.Lib

/-- `CHANNEL_COUNT` -/
def channelCount : Nat := 14

/-- `ADC_WORD_SIZE` -/
def adcWordSize : Nat := 1

/-- `RX_BUFFER_SIZE` -/
def rxBufferSize : Nat := adcRecordsToBuffer * channelCount * adcWordSize / 8

/-- Where `taskExternalADC` is: at `xSemaphoreTake`, or in front of the `i`-th
pass of the loop over a half of the buffer. -/
inductive Phase where
  | waiting
  | reading (i : Nat)
  deriving DecidableEq, Repr

/-- The semaphore, the position of the task, and the number of halves the DMA has
completed.  The last three fields are seen by no code: the interrupts that found
the semaphore already given, and the two counts as they were when the task last
took it. -/
structure HalfBuffer where
  semaphoreGiven : Bool
  readBufferStartIndex : Nat
  phase : Phase
  completions : Nat
  lostGives : Nat
  completionsAtTake : Nat
  lostAtTake : Nat
  deriving DecidableEq, Repr

namespace HalfBuffer

/-- The DMA has just been started. -/
def initial : HalfBuffer :=
  { semaphoreGiven := false
    readBufferStartIndex := 0
    phase := .waiting
    completions := 0
    lostGives := 0
    completionsAtTake := 0
    lostAtTake := 0 }

/-- `DMA1_Stream2_IRQHandler`: a half is complete and
`HAL_I2SEx_TxRxHalfCpltCallback_` gives the semaphore. -/
def irqHandler (s : HalfBuffer) : HalfBuffer :=
  { s with
    completions := s.completions + 1
    semaphoreGiven := true
    lostGives := if s.semaphoreGiven then s.lostGives + 1 else s.lostGives }

/-- `read_buffer_start_index` after a half has been processed. -/
def advance (index : Nat) : Nat :=
  let index := index + rxBufferSize / 2
  if index ≥ rxBufferSize then 0 else index

/-- `taskExternalADC` as far as its next access to the semaphore, the buffer or
`read_buffer_start_index`.  A take that times out leaves everything as it is. -/
def taskStep (s : HalfBuffer) : HalfBuffer :=
  match s.phase with
  | .waiting =>
      if s.semaphoreGiven then
        { s with
          semaphoreGiven := false
          phase := .reading 0
          completionsAtTake := s.completions
          lostAtTake := s.lostGives }
      else s
  | .reading i =>
      if i < rxBufferSize / 2 then { s with phase := .reading (i + 1) }
      else { s with readBufferStartIndex := advance s.readBufferStartIndex, phase := .waiting }

/-- An interrupt, or a step of the task. -/
inductive Event where
  | interrupt
  | task
  deriving DecidableEq, Repr

/-- One event. -/
def step (s : HalfBuffer) : Event → HalfBuffer
  | .interrupt => s.irqHandler
  | .task => s.taskStep

/-- The first word of the half that the `n`-th completion, counted from 1, has
completed: the DMA begins with the first half. -/
def completedHalf (n : Nat) : Nat := rxBufferSize / 2 * ((n + 1) % 2)

/-- The first word of the half that the DMA fills after `n` completions. -/
def fillingHalf (n : Nat) : Nat := rxBufferSize / 2 * (n % 2)

/-- The word lies in the half that begins at `start`. -/
def InHalf (start word : Nat) : Prop := start ≤ word ∧ word < start + rxBufferSize / 2

instance (start word : Nat) : Decidable (InHalf start word) :=
  inferInstanceAs (Decidable (_ ∧ _))

/-- The step, if it takes the semaphore, begins an iteration on the half whose
completion was signalled last; if it reads a word, it reads one of the half that
had been completed last when the semaphore was taken. -/
def OnCompletedHalf (s : HalfBuffer) : Event → Prop
  | .interrupt => True
  | .task =>
      match s.phase with
      | .waiting => s.semaphoreGiven = true →
          s.readBufferStartIndex = completedHalf s.completions ∧
          s.readBufferStartIndex ≠ fillingHalf s.completions
      | .reading i => i < rxBufferSize / 2 →
          InHalf (completedHalf s.completionsAtTake) (s.readBufferStartIndex + i)

/-- The step, if it reads a word, reads none of the half that the DMA is filling. -/
def OffFillingHalf (s : HalfBuffer) : Event → Prop
  | .interrupt => True
  | .task =>
      match s.phase with
      | .waiting => True
      | .reading i => i < rxBufferSize / 2 →
          ¬InHalf (fillingHalf s.completions) (s.readBufferStartIndex + i)

/-- The iteration that the step begins or continues took the semaphore after an
even number of lost gives. -/
def TakenInPhase (s : HalfBuffer) : Event → Prop
  | .interrupt => True
  | .task =>
      match s.phase with
      | .waiting => s.semaphoreGiven = true → s.lostGives % 2 = 0
      | .reading i => i < rxBufferSize / 2 → s.lostAtTake % 2 = 0

/-- When the step reads a word, the gives lost before the semaphore was taken and
the interrupts since then are together even in number. -/
def ReadInPhase (s : HalfBuffer) : Event → Prop
  | .interrupt => True
  | .task =>
      match s.phase with
      | .waiting => True
      | .reading i => i < rxBufferSize / 2 →
          (s.lostAtTake + (s.completions - s.completionsAtTake)) % 2 = 0

/-! ## The account of the interrupts -/

/-- Every completion is pending, lost, or was taken by an iteration, and the
index has been advanced once for each finished iteration. -/
def Accounted (s : HalfBuffer) : Prop :=
  match s.phase with
  | .waiting => ∃ finished,
      s.completions = s.lostGives + s.semaphoreGiven.toNat + finished ∧
      s.readBufferStartIndex = rxBufferSize / 2 * (finished % 2)
  | .reading _ => ∃ finished,
      s.completions = s.lostGives + s.semaphoreGiven.toNat + (finished + 1) ∧
      s.completionsAtTake = s.lostAtTake + (finished + 1) ∧
      s.completionsAtTake ≤ s.completions ∧
      s.readBufferStartIndex = rxBufferSize / 2 * (finished % 2)

theorem accounted_initial : Accounted initial := ⟨0, rfl, rfl⟩

/-- The index alternates between the two halves. -/
theorem advance_half (finished : Nat) :
    advance (rxBufferSize / 2 * (finished % 2)) = rxBufferSize / 2 * ((finished + 1) % 2) := by
  rcases Nat.mod_two_eq_zero_or_one finished with heven | hodd
  · have hnext : (finished + 1) % 2 = 1 := by omega
    rw [heven, hnext]
    rfl
  · have hnext : (finished + 1) % 2 = 0 := by omega
    rw [hodd, hnext]
    rfl

theorem Accounted.irqHandler {s : HalfBuffer} (inv : Accounted s) : Accounted s.irqHandler := by
  have hgives : s.irqHandler.completions = s.completions + 1 ∧
      s.irqHandler.lostGives + s.irqHandler.semaphoreGiven.toNat =
        s.lostGives + s.semaphoreGiven.toNat + 1 := by
    refine ⟨rfl, ?_⟩
    cases hgiven : s.semaphoreGiven with
    | false => simp [HalfBuffer.irqHandler, hgiven]
    | true => simp [HalfBuffer.irqHandler, hgiven]
  obtain ⟨hcompletions, hsum⟩ := hgives
  unfold Accounted at inv ⊢
  change match s.phase with
    | .waiting => _
    | .reading _ => _
  cases hphase : s.phase with
  | waiting =>
      rw [hphase] at inv
      obtain ⟨finished, hcount, hindex⟩ := inv
      exact ⟨finished, by omega, hindex⟩
  | reading i =>
      rw [hphase] at inv
      obtain ⟨finished, hcount, hattake, hle, hindex⟩ := inv
      refine ⟨finished, by omega, hattake, ?_, hindex⟩
      change s.completionsAtTake ≤ _
      omega

theorem Accounted.taskStep {s : HalfBuffer} (inv : Accounted s) : Accounted s.taskStep := by
  unfold HalfBuffer.taskStep
  unfold Accounted at inv
  cases hphase : s.phase with
  | waiting =>
      rw [hphase] at inv
      obtain ⟨finished, hcount, hindex⟩ := inv
      dsimp only
      cases hgiven : s.semaphoreGiven with
      | false =>
          rw [hgiven] at hcount
          unfold Accounted
          simp only [Bool.false_eq_true, if_false, hphase, hgiven]
          exact ⟨finished, hcount, hindex⟩
      | true =>
          rw [hgiven] at hcount
          rw [if_pos rfl]
          change s.completions = s.lostGives + 1 + finished at hcount
          refine ⟨finished, ?_, ?_, Nat.le_refl _, hindex⟩
          · change s.completions = s.lostGives + 0 + (finished + 1)
            omega
          · change s.completions = s.lostGives + (finished + 1)
            omega
  | reading i =>
      rw [hphase] at inv
      obtain ⟨finished, hcount, hattake, hle, hindex⟩ := inv
      dsimp only
      split
      · exact ⟨finished, hcount, hattake, hle, hindex⟩
      · refine ⟨finished + 1, hcount, ?_⟩
        change advance s.readBufferStartIndex = _
        rw [hindex, advance_half]

theorem Accounted.step {s : HalfBuffer} (inv : Accounted s) (e : Event) :
    Accounted (s.step e) := by
  cases e with
  | interrupt => exact inv.irqHandler
  | task => exact inv.taskStep

/-! ## When the halves agree -/

theorem inHalf_iff {finished k i : Nat} (hi : i < rxBufferSize / 2) :
    InHalf (rxBufferSize / 2 * (k % 2)) (rxBufferSize / 2 * (finished % 2) + i) ↔
      k % 2 = finished % 2 := by
  unfold InHalf
  have hsize : rxBufferSize / 2 = 28 := rfl
  rw [hsize] at hi ⊢
  omega

theorem Accounted.onCompletedHalf_iff {s : HalfBuffer} (inv : Accounted s) (e : Event) :
    OnCompletedHalf s e ↔ TakenInPhase s e := by
  cases e with
  | interrupt => exact Iff.rfl
  | task =>
      unfold Accounted at inv
      unfold OnCompletedHalf TakenInPhase
      cases hphase : s.phase with
      | waiting =>
          rw [hphase] at inv
          obtain ⟨finished, hcount, hindex⟩ := inv
          refine imp_congr_right ?_
          intro hgiven
          rw [hgiven] at hcount
          change s.completions = s.lostGives + 1 + finished at hcount
          have hsize : rxBufferSize / 2 = 28 := rfl
          rw [hindex]
          unfold completedHalf fillingHalf
          rw [hsize]
          omega
      | reading i =>
          rw [hphase] at inv
          obtain ⟨finished, hcount, hattake, hle, hindex⟩ := inv
          refine imp_congr_right ?_
          intro hi
          rw [hindex, completedHalf, inHalf_iff hi]
          omega

theorem Accounted.offFillingHalf_iff {s : HalfBuffer} (inv : Accounted s) (e : Event) :
    OffFillingHalf s e ↔ ReadInPhase s e := by
  cases e with
  | interrupt => exact Iff.rfl
  | task =>
      unfold Accounted at inv
      unfold OffFillingHalf ReadInPhase
      cases hphase : s.phase with
      | waiting => exact Iff.rfl
      | reading i =>
          rw [hphase] at inv
          obtain ⟨finished, hcount, hattake, hle, hindex⟩ := inv
          refine imp_congr_right ?_
          intro hi
          rw [hindex, fillingHalf, inHalf_iff hi]
          omega

/-- At every take the half that was completed last is the one to be processed exactly
when every take is in phase. -/
theorem eachOnCompletedHalf_iff (run : List Event) :
    EachStep step OnCompletedHalf initial run ↔ EachStep step TakenInPhase initial run :=
  EachStep.congr Accounted (fun _ e inv => inv.step e)
    (fun _ e inv => inv.onCompletedHalf_iff e) accounted_initial

/-- In a run from the start of the DMA every iteration processes the half that
was completed last exactly when an even number of gives was lost before every
take; and no word is read from the half being filled exactly when at every read
the gives lost before the take and the interrupts since it are even in number. -/
theorem eachIteration_iff (run : List Event) :
    (EachStep step OnCompletedHalf initial run ↔ EachStep step TakenInPhase initial run) ∧
    (EachStep step OffFillingHalf initial run ↔ EachStep step ReadInPhase initial run) := by
  refine ⟨eachOnCompletedHalf_iff run, ?_⟩
  · exact EachStep.congr Accounted (fun _ e inv => inv.step e)
      (fun _ e inv => inv.offFillingHalf_iff e) accounted_initial

/-- Two interrupts before the first take: the task reads the first half, while
the second was completed last and the DMA fills the first again. -/
theorem lostGive_reads_fillingHalf :
    ¬EachStep step OnCompletedHalf initial [.interrupt, .interrupt, .task] ∧
    ¬EachStep step OffFillingHalf initial [.interrupt, .interrupt, .task, .task] := by
  refine ⟨?_, ?_⟩
  · rintro ⟨_, _, hiteration, _⟩
    exact absurd (hiteration rfl).1 (by decide)
  · rintro ⟨_, _, _, hread, _⟩
    exact hread (by decide) (by decide)

/-! ## Lost gives shift the task -/

/-- The interrupt does not find the semaphore given. -/
def NothingLost (s : HalfBuffer) (e : Event) : Prop :=
  e = .interrupt → s.semaphoreGiven = false

/-- The step, if it takes the semaphore, begins an iteration on the half that the
DMA is filling. -/
def BeginsOnFillingHalf (s : HalfBuffer) : Event → Prop
  | .interrupt => True
  | .task => s.phase = .waiting → s.semaphoreGiven = true →
      s.readBufferStartIndex = fillingHalf s.completions

theorem lostGives_step {s : HalfBuffer} {e : Event} (h : NothingLost s e) :
    (s.step e).lostGives = s.lostGives := by
  cases e with
  | interrupt =>
      change (if s.semaphoreGiven then _ else _) = _
      rw [h rfl]
      rfl
  | task =>
      change s.taskStep.lostGives = s.lostGives
      unfold taskStep
      split
      · split <;> rfl
      · split <;> rfl

theorem lostAtTake_step {s : HalfBuffer} (e : Event) :
    (s.step e).lostAtTake = s.lostAtTake ∨ (s.step e).lostAtTake = s.lostGives := by
  cases e with
  | interrupt => exact Or.inl rfl
  | task =>
      change s.taskStep.lostAtTake = _ ∨ s.taskStep.lostAtTake = _
      unfold taskStep
      split
      · split
        · exact Or.inr rfl
        · exact Or.inl rfl
      · split
        · exact Or.inl rfl
        · exact Or.inl rfl

/-- A task that takes the semaphore before every further interrupt always
processes the half that was completed last. -/
theorem onCompletedHalf_of_nothingLost {run : List Event}
    (hrun : EachStep step NothingLost initial run) : EachStep step OnCompletedHalf initial run := by
  rw [eachOnCompletedHalf_iff]
  refine EachStep.imp (fun s => s.lostGives = 0 ∧ s.lostAtTake = 0) ?_ ?_ ⟨rfl, rfl⟩ hrun
  · intro s e h hnone
    obtain ⟨hlost, htake⟩ := h
    refine ⟨(lostGives_step hnone).trans hlost, ?_⟩
    cases lostAtTake_step e with
    | inl hsame => exact hsame.trans htake
    | inr hnow => exact hnow.trans hlost
  · intro s e h _
    obtain ⟨hlost, htake⟩ := h
    cases e with
    | interrupt => trivial
    | task =>
        unfold TakenInPhase
        cases s.phase with
        | waiting =>
            intro _
            rw [hlost]
        | reading i =>
            intro _
            rw [htake]

/-- Once an odd number of gives has been lost, every further iteration begins on
the half that the DMA is filling, until another give is lost. -/
theorem beginsOnFillingHalf_of_lost {s : HalfBuffer} (inv : Accounted s)
    (hlost : s.lostGives % 2 = 1) {run : List Event} (hrun : EachStep step NothingLost s run) :
    EachStep step BeginsOnFillingHalf s run := by
  refine EachStep.imp (fun s => Accounted s ∧ s.lostGives % 2 = 1) ?_ ?_ ⟨inv, hlost⟩ hrun
  · intro s e h hnone
    refine ⟨h.1.step e, ?_⟩
    rw [lostGives_step hnone]
    exact h.2
  · intro s e h _
    cases e with
    | interrupt => trivial
    | task =>
        intro hphase hgiven
        have inv := h.1
        unfold Accounted at inv
        rw [hphase] at inv
        obtain ⟨finished, hcount, hindex⟩ := inv
        rw [hgiven] at hcount
        change s.completions = s.lostGives + 1 + finished at hcount
        have hodd := h.2
        rw [hindex, fillingHalf]
        congr 1
        omega

end HalfBuffer

end WindradLogger.Adc
