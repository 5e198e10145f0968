import Mathlib.Logic.Function.Basic
import WindradLogger.Lib.Fifo
import WindradLogger.Lib.History
import WindradLogger.McuAdc.Smoothing

set_option autoImplicit false

/-!
# Sequencing (`task_adc.c`)

`taskADC` starts one conversion at a time.  Its interrupt puts the result into a
queue, together with the index that the task left in `adcSequenceIndex`; the task
takes it out, stores it, and starts the next conversion.  The ADC takes its time,
the task may give up waiting at any moment and wait anew, and interrupts come
between any two steps of the task.
-/

namespace WindradLogger.McuAdc

open WindradLogger.Lib

/-! ## Channels -/

/-- The channels of the ADC that are used. -/
inductive AdcChannel where
  | tempsensor | currExt | supplySense | vbat | vrefint
  deriving DecidableEq, Repr

/-- `adcCHANNELS` -/
def adcChannels : List AdcChannel := [.tempsensor, .currExt, .supplySense, .vbat, .vrefint]

namespace AdcSequenceIndex

/-- `adsi_max` -/
def adsiMax : Nat := 5

/-- The enumerators in their order. -/
def all : List AdcSequenceIndex := [.temperature, .currExt, .supplySensse, .coinCell, .ref]

/-- The value of the enumerator. -/
def value : AdcSequenceIndex → Nat
  | temperature => 0
  | currExt => 1
  | supplySensse => 2
  | coinCell => 3
  | ref => 4

/-- The channel of the index. -/
def channel : AdcSequenceIndex → AdcChannel
  | temperature => .tempsensor
  | currExt => .currExt
  | supplySensse => .supplySense
  | coinCell => .vbat
  | ref => .vrefint

/-- The index that is converted next. -/
def next : AdcSequenceIndex → AdcSequenceIndex
  | temperature => currExt
  | currExt => supplySensse
  | supplySensse => coinCell
  | coinCell => ref
  | ref => temperature

@[simp] theorem all_value (j : AdcSequenceIndex) : all[j.value]? = some j := by
  cases j <;> rfl

@[simp] theorem adcChannels_value (j : AdcSequenceIndex) :
    adcChannels[j.value]? = some j.channel := by
  cases j <;> rfl

theorem value_lt (j : AdcSequenceIndex) : j.value < adsiMax := by
  cases j <;> decide

theorem value_next (j : AdcSequenceIndex) : j.next.value = (j.value + 1) % adsiMax := by
  cases j <;> rfl

theorem value_next_of_ne {j : AdcSequenceIndex} (h : j ≠ ref) : j.next.value = j.value + 1 := by
  cases j <;> first | rfl | exact absurd rfl h

theorem value_eq_ref_iff {j : AdcSequenceIndex} : j.value = ref.value ↔ j = ref := by
  cases j <;> decide

end AdcSequenceIndex

/-! ## The system -/

/-- `conversion_result_t` -/
structure ConversionResult where
  index : Nat
  value : UInt16
  deriving DecidableEq, Repr

/-- The length of `adcConversionsQueue`. -/
def adcConversionsQueueLength : Nat := 10

/-- Where `taskADC` is. -/
inductive TaskPlace where
  /-- in `xQueueReceive` -/
  | waiting
  /-- `xQueueReceive` has returned `pdTRUE` -/
  | received (conversionResult : ConversionResult)
  /-- in `vTaskDelay`, after the computation -/
  | delaying
  /-- in `startConversion`, before `HAL_ADC_ConfigChannel` -/
  | configuring (channelindex : Nat)
  /-- before `adcSequenceIndex = channelindex` -/
  | indexing (channelindex : Nat)
  /-- before `HAL_ADC_Start_IT` -/
  | starting (channelindex : Nat)
  deriving DecidableEq, Repr

/-- The ADC, the queue and the task. -/
structure System where
  place : TaskPlace
  /-- the channel the ADC is set to -/
  configured : AdcChannel
  adcSequenceIndex : Nat
  /-- conversions that were started and have not completed, with their channels -/
  running : List AdcChannel
  adcConversionsQueue : Fifo ConversionResult adcConversionsQueueLength
  adcValuesPlain : Readings
  filter : Filter
  /-- the conversions that have completed, in this order; the code does not keep them -/
  converted : List (AdcChannel × UInt16)
  /-- the indices that were received, in this order; the code does not keep them -/
  receivedIndices : List Nat

/-- `taskADC` before its first `startConversion`. -/
def System.initial : System :=
  { place := .configuring 0
    configured := .vrefint
    adcSequenceIndex := 0
    running := []
    adcConversionsQueue := .empty
    adcValuesPlain := fun _ => 0
    filter := .initial
    converted := []
    receivedIndices := [] }

/-- A conversion completes, or the task goes on. -/
inductive Action where
  | complete (k : Nat) (value : UInt16)
  | receive
  | timeout
  | store
  | delayOver
  | configure
  | setIndex
  | start
  deriving DecidableEq, Repr

/-- What an action comes to. -/
inductive Outcome where
  /-- it cannot come now -/
  | blocked
  /-- it reads or writes outside of an array -/
  | outOfRange
  | next (s : System)

/-- `HAL_ADC_ConvCpltCallback`, when the `k`th of the running conversions, of
`channel`, completes with `value`.  A full queue drops the result. -/
def convCpltCallback (s : System) (k : Nat) (channel : AdcChannel) (value : UInt16) : System :=
  { s with
    running := s.running.eraseIdx k
    adcConversionsQueue :=
      (s.adcConversionsQueue.send { index := s.adcSequenceIndex, value := value }).getD
        s.adcConversionsQueue
    converted := s.converted ++ [(channel, value)] }

/-- The task with a received result: it stores the value, and at `adsi_ref` computes
the units and smooths them. -/
def storeResult (calibData : TsCalib) (s : System) (conversionResult : ConversionResult) :
    Outcome :=
  match AdcSequenceIndex.all[conversionResult.index]? with
  | none => .outOfRange
  | some index =>
      let plain := Function.update s.adcValuesPlain index conversionResult.value
      if conversionResult.index = AdcSequenceIndex.ref.value then
        .next { s with
          adcValuesPlain := plain
          filter := s.filter.smooth (physicalUnits calibData plain).value
          place := .delaying }
      else
        .next { s with
          adcValuesPlain := plain
          place := .configuring (conversionResult.index + 1) }

/-- One step of the task or the ADC. -/
def System.step (calibData : TsCalib) (s : System) : Action → Outcome
  | .complete k value =>
      match s.running[k]? with
      | none => .blocked
      | some channel => .next (convCpltCallback s k channel value)
  | .receive =>
      match s.place, s.adcConversionsQueue.receive with
      | .waiting, some (conversionResult, queue) =>
          .next { s with
            adcConversionsQueue := queue
            place := .received conversionResult
            receivedIndices := s.receivedIndices ++ [conversionResult.index] }
      | _, _ => .blocked
  | .timeout =>
      match s.place with
      | .waiting => .next s
      | _ => .blocked
  | .store =>
      match s.place with
      | .received conversionResult => storeResult calibData s conversionResult
      | _ => .blocked
  | .delayOver =>
      match s.place with
      | .delaying => .next { s with place := .configuring 0 }
      | _ => .blocked
  | .configure =>
      match s.place with
      | .configuring channelindex =>
          match adcChannels[channelindex]? with
          | none => .outOfRange
          | some channel =>
              .next { s with configured := channel, place := .indexing channelindex }
      | _ => .blocked
  | .setIndex =>
      match s.place with
      | .indexing channelindex =>
          .next { s with adcSequenceIndex := channelindex, place := .starting channelindex }
      | _ => .blocked
  | .start =>
      match s.place with
      | .starting _ => .next { s with running := s.running ++ [s.configured], place := .waiting }
      | _ => .blocked

/-- The state after a step that can come and stays within the arrays. -/
def System.advance (calibData : TsCalib) (s : System) (action : Action) : Option System :=
  match s.step calibData action with
  | .next s' => some s'
  | _ => none

/-! ## What has been measured -/

/-- The entries of `adcValuesPlain` below an index, with their channels. -/
def measured (plain : Readings) (j : AdcSequenceIndex) : List (AdcChannel × UInt16) :=
  (AdcSequenceIndex.all.take j.value).map fun i => (i.channel, plain i)

/-- All entries of `adcValuesPlain`, with their channels. -/
def measuredAll (plain : Readings) : List (AdcChannel × UInt16) :=
  AdcSequenceIndex.all.map fun i => (i.channel, plain i)

theorem measured_next (plain : Readings) {j : AdcSequenceIndex} (h : j ≠ .ref) (v : UInt16) :
    measured (Function.update plain j v) j.next = measured plain j ++ [(j.channel, v)] := by
  cases j with
  | ref => exact absurd rfl h
  | _ => simp [measured, AdcSequenceIndex.all, AdcSequenceIndex.next, AdcSequenceIndex.value]

theorem measuredAll_ref (plain : Readings) (v : UInt16) :
    measuredAll (Function.update plain .ref v) =
      measured plain .ref ++ [(AdcSequenceIndex.ref.channel, v)] := by
  simp [measured, measuredAll, AdcSequenceIndex.all, AdcSequenceIndex.value]

/-! ## The invariant -/

namespace System

/-- The result that is received next is one of index `j`. -/
def Expects (s : System) (j : AdcSequenceIndex) : Prop :=
  s.receivedIndices.length % AdcSequenceIndex.adsiMax = j.value

/-- No conversion is running or queued. -/
def Quiet (s : System) : Prop := s.running = [] ∧ s.adcConversionsQueue.items = []

/-- The conversions so far are those of some complete cycles, then those of the entries
of `adcValuesPlain` below `j`, and then those of `pending`; the filter has smoothed the
units of the complete cycles. -/
def Latest (calibData : TsCalib) (s : System) (j : AdcSequenceIndex)
    (pending : List (AdcChannel × UInt16)) : Prop :=
  ∃ cycles : List Readings,
    s.converted = cycles.flatMap measuredAll ++ (measured s.adcValuesPlain j ++ pending) ∧
      s.filter = Filter.after (cycles.map fun plain => (physicalUnits calibData plain).value)

/-- A conversion for index `j` is running. -/
def Running (calibData : TsCalib) (s : System) (j : AdcSequenceIndex) : Prop :=
  s.running = [j.channel] ∧ s.adcConversionsQueue.items = [] ∧ s.adcSequenceIndex = j.value ∧
    Latest calibData s j []

/-- The result of a conversion for index `j` is queued. -/
def Queued (calibData : TsCalib) (s : System) (j : AdcSequenceIndex) : Prop :=
  ∃ v, s.running = [] ∧ s.adcConversionsQueue.items = [{ index := j.value, value := v }] ∧
    Latest calibData s j [(j.channel, v)]

/-- What holds where the task is. -/
def Phase (calibData : TsCalib) (s : System) : TaskPlace → Prop
  | .waiting => ∃ j, s.Expects j ∧ (Running calibData s j ∨ Queued calibData s j)
  | .received r => ∃ j : AdcSequenceIndex, r.index = j.value ∧ s.Expects j.next ∧ s.Quiet ∧
      Latest calibData s j [(j.channel, r.value)]
  | .delaying => s.Expects .temperature ∧ s.Quiet ∧ Latest calibData s .temperature []
  | .configuring i => ∃ j : AdcSequenceIndex, i = j.value ∧ s.Expects j ∧ s.Quiet ∧
      Latest calibData s j []
  | .indexing i => ∃ j : AdcSequenceIndex, i = j.value ∧ s.Expects j ∧ s.Quiet ∧
      Latest calibData s j [] ∧ s.configured = j.channel
  | .starting i => ∃ j : AdcSequenceIndex, i = j.value ∧ s.Expects j ∧ s.Quiet ∧
      Latest calibData s j [] ∧ s.configured = j.channel ∧ s.adcSequenceIndex = j.value

/-- The indices received so far run through the sequence again and again. -/
def InSequence (s : System) : Prop :=
  s.receivedIndices =
    (List.range s.receivedIndices.length).map fun n => n % AdcSequenceIndex.adsiMax

/-- The invariant of the system. -/
structure Invariant (calibData : TsCalib) (s : System) : Prop where
  phase : Phase calibData s s.place
  inSequence : s.InSequence

theorem invariant_initial (calibData : TsCalib) : Invariant calibData initial :=
  ⟨⟨.temperature, rfl, rfl, ⟨rfl, rfl⟩, [], rfl, rfl⟩, rfl⟩

/-! ## Every step keeps it -/

/-- An outcome is within the arrays, and keeps the invariant. -/
def Keeps (calibData : TsCalib) : Outcome → Prop
  | .blocked => True
  | .outOfRange => False
  | .next s => Invariant calibData s

variable {s : System} {calibData : TsCalib}

/-- Only while the task waits is a conversion running or queued. -/
theorem quiet_of_phase {place : TaskPlace} (h : Phase calibData s place)
    (hplace : place ≠ .waiting) : s.Quiet := by
  cases place with
  | waiting => exact absurd rfl hplace
  | received r =>
      obtain ⟨_, _, _, hquiet, _⟩ := h
      exact hquiet
  | delaying => exact h.2.1
  | configuring i =>
      obtain ⟨_, _, _, hquiet, _⟩ := h
      exact hquiet
  | indexing i =>
      obtain ⟨_, _, _, hquiet, _⟩ := h
      exact hquiet
  | starting i =>
      obtain ⟨_, _, _, hquiet, _⟩ := h
      exact hquiet

/-- A conversion that runs is that of the index the task waits for. -/
theorem running_of_invariant (h : Invariant calibData s) (hrunning : s.running ≠ []) :
    s.place = .waiting ∧ ∃ j, s.Expects j ∧ Running calibData s j := by
  have hphase := h.phase
  rcases eq_or_ne s.place .waiting with hplace | hplace
  · rw [hplace] at hphase
    obtain ⟨j, hexpects, hrun | ⟨v, hquiet, -⟩⟩ := hphase
    · exact ⟨hplace, j, hexpects, hrun⟩
    · exact absurd hquiet hrunning
  · exact absurd (quiet_of_phase hphase hplace).1 hrunning

theorem keeps_complete (h : Invariant calibData s) (k : Nat) (v : UInt16) :
    Keeps calibData (s.step calibData (.complete k v)) := by
  simp only [step]
  split
  · trivial
  · rename_i channel hchannel
    have hrunning : s.running ≠ [] := by
      intro hnil
      rw [hnil] at hchannel
      cases hchannel
    obtain ⟨hplace, j, hexpects, hone, hempty, hindex, cycles, hlatest, hfilter⟩ :=
      running_of_invariant h hrunning
    rw [hone] at hchannel
    obtain ⟨hk, hj⟩ : k = 0 ∧ j.channel = channel := by
      cases k with
      | zero => exact ⟨rfl, Option.some.inj hchannel⟩
      | succ k => cases hchannel
    subst hk hj
    obtain ⟨queue, hsend, hitems⟩ := Fifo.send_of_empty (by decide) hempty
      { index := s.adcSequenceIndex, value := v }
    have hsent : ((s.adcConversionsQueue.send { index := s.adcSequenceIndex, value := v }).getD
        s.adcConversionsQueue).items = [{ index := j.value, value := v }] := by
      rw [hsend, Option.getD_some, hitems, hindex]
    have hphase : Phase calibData (convCpltCallback s 0 j.channel v) .waiting := by
      refine ⟨j, hexpects, Or.inr ⟨v, ?_, hsent, cycles, ?_, hfilter⟩⟩
      · change s.running.eraseIdx 0 = []
        rw [hone]
        rfl
      · change s.converted ++ [(j.channel, v)] = _
        rw [hlatest, List.append_nil, List.append_assoc]
        rfl
    rw [← hplace] at hphase
    exact ⟨hphase, h.inSequence⟩

theorem keeps_receive (h : Invariant calibData s) :
    Keeps calibData (s.step calibData .receive) := by
  have hphase := h.phase
  simp only [step]
  split
  · rename_i r queue hplace hreceive
    rw [hplace] at hphase
    rw [Fifo.receive_eq_some_iff] at hreceive
    obtain ⟨j, hexpects, ⟨-, hempty, -⟩ | ⟨v, hquiet, hqueued, hlatest⟩⟩ := hphase
    · rw [hempty] at hreceive
      cases hreceive
    · rw [hqueued] at hreceive
      obtain ⟨hr, hrest⟩ := List.cons.inj hreceive
      subst hr
      have hnow : s.receivedIndices.length % AdcSequenceIndex.adsiMax = j.value := hexpects
      refine ⟨⟨j, rfl, ?_, ⟨hquiet, hrest.symm⟩, hlatest⟩, ?_⟩
      · change (s.receivedIndices ++ [j.value]).length % AdcSequenceIndex.adsiMax = j.next.value
        rw [AdcSequenceIndex.value_next, ← hnow, List.length_append, List.length_singleton,
          Nat.mod_add_mod]
      · have hpast := h.inSequence
        change s.receivedIndices ++ [j.value] = (List.range (s.receivedIndices ++
          [j.value]).length).map fun n => n % AdcSequenceIndex.adsiMax
        rw [List.length_append, List.length_singleton, List.range_succ, List.map_append,
          List.map_singleton, hnow]
        exact congrArg (· ++ [j.value]) hpast
  · trivial

theorem keeps_store (h : Invariant calibData s) : Keeps calibData (s.step calibData .store) := by
  have hphase := h.phase
  simp only [step]
  split
  · rename_i r hplace
    rw [hplace] at hphase
    obtain ⟨j, hindex, hexpects, hquiet, cycles, hlatest, hfilter⟩ := hphase
    simp only [storeResult, hindex, AdcSequenceIndex.all_value, AdcSequenceIndex.value_eq_ref_iff]
    split
    · -- The last entry: the cycle is complete.
      rename_i href
      subst href
      refine ⟨⟨hexpects, hquiet, cycles ++ [Function.update s.adcValuesPlain .ref r.value], ?_, ?_⟩,
        h.inSequence⟩
      · change s.converted = _
        rw [hlatest, List.flatMap_append, List.flatMap_singleton, measuredAll_ref]
        exact (List.append_nil _).symm
      · change s.filter.smooth _ = _
        rw [List.map_append, List.map_singleton, Filter.after_concat, ← hfilter]
    · rename_i hother
      refine ⟨⟨j.next, (AdcSequenceIndex.value_next_of_ne hother).symm, hexpects, hquiet, cycles,
        ?_, hfilter⟩, h.inSequence⟩
      change s.converted = cycles.flatMap measuredAll ++
        (measured (Function.update s.adcValuesPlain j r.value) j.next ++ [])
      rw [hlatest, measured_next _ hother, List.append_nil]
  · trivial

theorem keeps_timeout (h : Invariant calibData s) :
    Keeps calibData (s.step calibData .timeout) := by
  simp only [step]
  split
  · exact h
  · trivial

theorem keeps_delayOver (h : Invariant calibData s) :
    Keeps calibData (s.step calibData .delayOver) := by
  have hphase := h.phase
  simp only [step]
  split
  · rename_i hplace
    rw [hplace] at hphase
    obtain ⟨hexpects, hquiet, hlatest⟩ := hphase
    exact ⟨⟨.temperature, rfl, hexpects, hquiet, hlatest⟩, h.inSequence⟩
  · trivial

theorem keeps_configure (h : Invariant calibData s) :
    Keeps calibData (s.step calibData .configure) := by
  have hphase := h.phase
  simp only [step]
  split
  · rename_i i hplace
    rw [hplace] at hphase
    obtain ⟨j, hindex, hexpects, hquiet, hlatest⟩ := hphase
    simp only [hindex, AdcSequenceIndex.adcChannels_value]
    exact ⟨⟨j, rfl, hexpects, hquiet, hlatest, rfl⟩, h.inSequence⟩
  · trivial

theorem keeps_setIndex (h : Invariant calibData s) :
    Keeps calibData (s.step calibData .setIndex) := by
  have hphase := h.phase
  simp only [step]
  split
  · rename_i i hplace
    rw [hplace] at hphase
    obtain ⟨j, hindex, hexpects, hquiet, hlatest, hchannel⟩ := hphase
    exact ⟨⟨j, hindex, hexpects, hquiet, hlatest, hchannel, hindex⟩, h.inSequence⟩
  · trivial

theorem keeps_start (h : Invariant calibData s) : Keeps calibData (s.step calibData .start) := by
  have hphase := h.phase
  simp only [step]
  split
  · rename_i i hplace
    rw [hplace] at hphase
    obtain ⟨j, -, hexpects, hquiet, hlatest, hchannel, hset⟩ := hphase
    refine ⟨⟨j, hexpects, Or.inl ⟨?_, hquiet.2, hset, hlatest⟩⟩, h.inSequence⟩
    change s.running ++ [s.configured] = [j.channel]
    rw [hquiet.1, hchannel, List.nil_append]
  · trivial

theorem keeps_step (h : Invariant calibData s) (action : Action) :
    Keeps calibData (s.step calibData action) := by
  cases action with
  | complete k v => exact keeps_complete h k v
  | receive => exact keeps_receive h
  | timeout => exact keeps_timeout h
  | store => exact keeps_store h
  | delayOver => exact keeps_delayOver h
  | configure => exact keeps_configure h
  | setIndex => exact keeps_setIndex h
  | start => exact keeps_start h

/-- The invariant holds after every run. -/
theorem invariant_of_run {run : List Action}
    (hrun : runFrom (advance calibData) initial run = some s) : Invariant calibData s := by
  refine runFrom_invariant (fun _ s => Invariant calibData s) (invariant_initial calibData) ?_ hrun
  intro past before action after hbefore hstep
  have hkeeps := keeps_step hbefore action
  unfold advance at hstep
  split at hstep
  · rename_i next hnext
    cases hstep
    rw [hnext] at hkeeps
    exact hkeeps
  · cases hstep

/-! ## The sequence -/

theorem running_queued_le (h : Invariant calibData s) :
    s.running.length + s.adcConversionsQueue.items.length ≤ 1 := by
  have hphase := h.phase
  rcases eq_or_ne s.place .waiting with hplace | hplace
  · rw [hplace] at hphase
    obtain ⟨j, -, ⟨hrunning, hempty, -⟩ | ⟨v, hquiet, hqueued, -⟩⟩ := hphase
    · rw [hrunning, hempty]
      exact Nat.le_refl 1
    · rw [hquiet, hqueued]
      exact Nat.le_refl 1
  · obtain ⟨hquiet, hempty⟩ := quiet_of_phase hphase hplace
    rw [hquiet, hempty]
    exact Nat.zero_le 1

/-- A step that computes the units has just completed the five entries of
`adcValuesPlain`. -/
theorem computed_of_store (h : Invariant calibData s) {s' : System}
    (hstep : s.step calibData .store = .next s') (hcomputed : s'.place = .delaying) :
    ∃ earlier, s'.converted = earlier ++ measuredAll s'.adcValuesPlain := by
  have hphase := h.phase
  simp only [step] at hstep
  split at hstep
  · rename_i r hplace
    rw [hplace] at hphase
    obtain ⟨j, hindex, -, -, cycles, hlatest, -⟩ := hphase
    simp only [storeResult, hindex, AdcSequenceIndex.all_value, AdcSequenceIndex.value_eq_ref_iff]
      at hstep
    split at hstep
    · rename_i href
      subst href
      cases hstep
      refine ⟨cycles.flatMap measuredAll, ?_⟩
      rw [measuredAll_ref]
      exact hlatest
    · cases hstep
      cases hcomputed
  · cases hstep

/-- In every run of conversions, timeouts and steps of the task, in any order, at
most one conversion is running or queued, the results come in sequence, no step
leaves an array, and the units are computed from the last five conversions, one of
each channel. -/
theorem sequencing {run : List Action}
    (hrun : runFrom (advance calibData) initial run = some s) :
    s.running.length + s.adcConversionsQueue.items.length ≤ 1 ∧
      s.receivedIndices = (List.range s.receivedIndices.length).map (fun n => n % 5) ∧
      (∀ action, s.step calibData action ≠ .outOfRange) ∧
      ∀ s', s.step calibData .store = .next s' → s'.place = .delaying →
        ∃ earlier, s'.converted = earlier ++
          [(.tempsensor, s'.adcValuesPlain .temperature), (.currExt, s'.adcValuesPlain .currExt),
           (.supplySense, s'.adcValuesPlain .supplySensse),
           (.vbat, s'.adcValuesPlain .coinCell), (.vrefint, s'.adcValuesPlain .ref)] := by
  have hinvariant := invariant_of_run hrun
  refine ⟨running_queued_le hinvariant, hinvariant.inSequence, ?_, ?_⟩
  · intro action hout
    have hkeeps := keeps_step hinvariant action
    rw [hout] at hkeeps
    exact hkeeps
  · intro s' hstep hcomputed
    exact computed_of_store hinvariant hstep hcomputed

/-- Wherever the task is, the conversions so far are those of the complete cycles and
some of the cycle that is under way. -/
theorem latest_of_phase {place : TaskPlace} (h : Phase calibData s place) :
    ∃ j pending, Latest calibData s j pending ∧ pending.length ≤ 1 := by
  cases place with
  | waiting =>
      obtain ⟨j, -, ⟨-, -, -, hlatest⟩ | ⟨v, -, -, hlatest⟩⟩ := h
      · exact ⟨j, [], hlatest, Nat.zero_le 1⟩
      · exact ⟨j, [(j.channel, v)], hlatest, Nat.le_refl 1⟩
  | received r =>
      obtain ⟨j, -, -, -, hlatest⟩ := h
      exact ⟨j, _, hlatest, Nat.le_refl 1⟩
  | delaying => exact ⟨.temperature, [], h.2.2, Nat.zero_le 1⟩
  | configuring i =>
      obtain ⟨j, -, -, -, hlatest⟩ := h
      exact ⟨j, [], hlatest, Nat.zero_le 1⟩
  | indexing i =>
      obtain ⟨j, -, -, -, hlatest, -⟩ := h
      exact ⟨j, [], hlatest, Nat.zero_le 1⟩
  | starting i =>
      obtain ⟨j, -, -, -, hlatest, -⟩ := h
      exact ⟨j, [], hlatest, Nat.zero_le 1⟩

/-- In every run the published values are those of the filter after the complete
cycles, each of them with the units of five conversions in a row. -/
theorem filter_of_run {run : List Action}
    (hrun : runFrom (advance calibData) initial run = some s) :
    ∃ (cycles : List Readings) (rest : List (AdcChannel × UInt16)),
      s.converted = cycles.flatMap measuredAll ++ rest ∧
        rest.length ≤ AdcSequenceIndex.adsiMax ∧
        s.filter =
          Filter.after (cycles.map fun plain => (physicalUnits calibData plain).value) := by
  obtain ⟨j, pending, ⟨cycles, hconverted, hfilter⟩, hpending⟩ :=
    latest_of_phase (invariant_of_run hrun).phase
  refine ⟨cycles, _, hconverted, ?_, hfilter⟩
  have hvalue := j.value_lt
  rw [List.length_append, measured, List.length_map, List.length_take]
  unfold AdcSequenceIndex.adsiMax at hvalue ⊢
  omega

/-- A conversion that completes at once, from its start to the reception of its
result. -/
def promptConversion (v : UInt16) : List Action :=
  [.configure, .setIndex, .start, .complete 0 v, .timeout, .receive]

/-- Six conversions, so that the units are computed once. -/
theorem sequencing_six :
    ∃ s, runFrom (advance { vref := 1500, tsCal1 := 943, tsCal2 := 1200 }) initial
        (promptConversion 900 ++ [.store] ++ promptConversion 10 ++ [.store] ++
          promptConversion 20 ++ [.store] ++ promptConversion 2000 ++ [.store] ++
          promptConversion 1490 ++ [.store, .delayOver] ++ promptConversion 901) = some s ∧
      s.receivedIndices = (List.range s.receivedIndices.length).map fun n => n % 5 := by
  obtain ⟨s, hrun⟩ := Option.isSome_iff_exists.mp (rfl :
    (runFrom (advance { vref := 1500, tsCal1 := 943, tsCal2 := 1200 }) initial
        (promptConversion 900 ++ [.store] ++ promptConversion 10 ++ [.store] ++
          promptConversion 20 ++ [.store] ++ promptConversion 2000 ++ [.store] ++
          promptConversion 1490 ++ [.store, .delayOver] ++ promptConversion 901)).isSome = true)
  exact ⟨s, hrun, (sequencing hrun).2.1⟩

end System

end WindradLogger.McuAdc
