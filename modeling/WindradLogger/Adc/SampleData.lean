import WindradLogger.Adc.Record
import WindradLogger.Lib.History

set_option autoImplicit false

/-!
# Acquired sample data (`task_external_adc.c`)

The acquisition task collects records in a buffer of `ADC_RECORDS_TO_BUFFER`
positions.  Each time the buffer is full it is copied, as one chunk, behind the
chunks already in `adc_channels_complete`, until that holds
`COMPLETE_RECORDS_CHUNK_COUNT` of them.  Other tasks restart the acquisition and
read the chunks one by one; the three positions involved are independent
variables, shared between the tasks.
-/

namespace WindradLogger.Adc

open WindradLogger.Lib

/-- `COMPLETE_RECORDS_CHUNK_COUNT` -/
def completeRecordsChunkCount : Nat := 4 * 32

/-- `COMPLETE_RECORDS_LENGTH` -/
def completeRecordsLength : Nat := adcRecordsToBuffer * completeRecordsChunkCount

/-- The buffers and positions of the acquisition; the cells of an array are
given by their index. -/
structure SampleData where
  adcChannels : ExtAdcValue → Nat → Int16
  writeIndex : Nat
  adcChannelsComplete : ExtAdcValue → Nat → Int16
  completeRecordsChunkWriteIndex : Nat
  completeRecordsChunkReadIndex : Nat

namespace SampleData

/-- Static storage and the locals of `taskExternalADC` at its start. -/
def initial : SampleData :=
  { adcChannels := fun _ _ => 0
    writeIndex := 0
    adcChannelsComplete := fun _ _ => 0
    completeRecordsChunkWriteIndex := 0
    completeRecordsChunkReadIndex := 0 }

/-- The values of `record` go to position `write_index` of their channels. -/
def put (s : SampleData) (record : Record) : SampleData :=
  { s with adcChannels := fun channel =>
      Function.update (s.adcChannels channel) s.writeIndex (record channel) }

/-- The loops that copy the buffer behind the chunks acquired so far. -/
def copyChunk (s : SampleData) : SampleData :=
  let base := s.completeRecordsChunkWriteIndex * adcRecordsToBuffer
  { s with
    adcChannelsComplete := fun channel m =>
      if base ≤ m ∧ m < base + adcRecordsToBuffer then s.adcChannels channel (m - base)
      else s.adcChannelsComplete channel m
    completeRecordsChunkWriteIndex := s.completeRecordsChunkWriteIndex + 1 }

/-- `taskExternalADC`, the steps for one completed record: it is stored at
`write_index`, and the chunk is copied when the buffer is full.  `none` is a
failed `assert`. -/
def completeRecord (s : SampleData) (record : Record) : Option SampleData :=
  if s.writeIndex < adcRecordsToBuffer then
    let s := s.put record
    let s := { s with writeIndex := s.writeIndex + 1 }
    if s.writeIndex ≥ adcRecordsToBuffer then
      let s := { s with writeIndex := 0 }
      if s.completeRecordsChunkWriteIndex < completeRecordsChunkCount then
        some s.copyChunk
      else some s
    else some s
  else none

/-- `extadc_start_acquire_sample_data` -/
def extadcStartAcquireSampleData (s : SampleData) : SampleData :=
  { s with completeRecordsChunkWriteIndex := 0 }

/-- `extadc_is_sample_data_complete` -/
def extadcIsSampleDataComplete (s : SampleData) : Bool :=
  s.completeRecordsChunkWriteIndex ≥ completeRecordsChunkCount

/-- `extadc_reset_sample_data_readpointer` -/
def extadcResetSampleDataReadpointer (s : SampleData) : SampleData :=
  { s with completeRecordsChunkReadIndex := 0 }

/-- `extadc_get_sample_data` -/
def extadcGetSampleData (s : SampleData) (channel : ExtAdcValue) : List Int16 × SampleData :=
  let samples := (List.range adcRecordsToBuffer).map fun i =>
    s.adcChannelsComplete channel (i + s.completeRecordsChunkReadIndex * adcRecordsToBuffer)
  let readIndex := s.completeRecordsChunkReadIndex + 1
  (samples, { s with
    completeRecordsChunkReadIndex :=
      if readIndex ≥ completeRecordsChunkCount then 0 else readIndex })

/-- What happens to the acquisition, in any order. -/
inductive Event where
  | record (record : Record)
  | start
  | reset
  | get (channel : ExtAdcValue)
  | isComplete

/-- One event; the results of the calls are read off the state before it. -/
def step (s : SampleData) : Event → Option SampleData
  | .record record => s.completeRecord record
  | .start => some s.extadcStartAcquireSampleData
  | .reset => some s.extadcResetSampleDataReadpointer
  | .get channel => some (s.extadcGetSampleData channel).2
  | .isComplete => some s

/-- The state after a run of events from the start of the task. -/
abbrev after (events : List Event) : Option SampleData := runFrom step initial events

/-! ## The recording

What the acquisition is for, told by the events alone. -/

/-- The records in the order they were completed, how many of them the most
recent start call found (none, for the acquisition that the task begins itself),
and the chunks read since the most recent reset. -/
structure Recording where
  records : List Record
  startedAt : Nat
  chunksRead : Nat

namespace Recording

/-- Nothing has happened. -/
def empty : Recording := { records := [], startedAt := 0, chunksRead := 0 }

/-- The recording goes on with one event. -/
def observe (h : Recording) : Event → Recording
  | .record record => { h with records := h.records ++ [record] }
  | .start => { h with startedAt := h.records.length }
  | .reset => { h with chunksRead := 0 }
  | .get _ => { h with chunksRead := h.chunksRead + 1 }
  | .isComplete => h

/-- The recording that a run of events makes. -/
def of (events : List Event) : Recording := events.foldl observe empty

theorem of_concat (events : List Event) (e : Event) :
    of (events ++ [e]) = (of events).observe e := by
  simp [of]

/-- The value of a channel in the record with this number. -/
def value (h : Recording) (channel : ExtAdcValue) (n : Nat) : Option Int16 :=
  (h.records[n]?).map fun record => record channel

/-- The number of the first record of the chunk in which the acquisition was
started. -/
def first (h : Recording) : Nat := 32 * (h.startedAt / 32)

theorem observe_value_of_some {h : Recording} {channel : ExtAdcValue} {n : Nat} {v : Int16}
    (hv : h.value channel n = some v) (e : Event) : (h.observe e).value channel n = some v := by
  unfold value at hv ⊢
  obtain ⟨record, hrecord, hchannel⟩ := Option.map_eq_some_iff.mp hv
  have hlt := (List.getElem?_eq_some_iff.mp hrecord).1
  cases e with
  | record next =>
      rw [observe, List.getElem?_append_left hlt, hrecord, Option.map_some, hchannel]
  | start => exact hv
  | reset => exact hv
  | get _ => exact hv
  | isComplete => exact hv

theorem observe_record_length (h : Recording) (record : Record) :
    (h.observe (.record record)).records.length = h.records.length + 1 := by
  simp [observe]

theorem observe_record_value_length (h : Recording) (record : Record) (channel : ExtAdcValue) :
    (h.observe (.record record)).value channel h.records.length = some (record channel) := by
  simp [value, observe]

end Recording

/-- The state agrees with the recording: the positions are those the numbers of
records and calls determine, the filled part of the buffer holds the records of
the chunk in progress, and the chunks acquired hold the records from the one in
which the acquisition was started. -/
structure Recorded (h : Recording) (s : SampleData) : Prop where
  startedAt_le : h.startedAt ≤ h.records.length
  writeIndex : s.writeIndex = h.records.length % 32
  chunkWriteIndex : s.completeRecordsChunkWriteIndex =
    min 128
      (h.records.length / 32 - h.startedAt / 32)
  chunkReadIndex : s.completeRecordsChunkReadIndex = h.chunksRead % 128
  buffered : ∀ channel i, i < s.writeIndex →
    h.value channel (32 * (h.records.length / 32) + i) =
      some (s.adcChannels channel i)
  acquired : ∀ channel m, m < 32 * s.completeRecordsChunkWriteIndex →
    h.value channel (h.first + m) = some (s.adcChannelsComplete channel m)

namespace Recorded

theorem initial : Recorded .empty SampleData.initial where
  startedAt_le := Nat.le_refl _
  writeIndex := rfl
  chunkWriteIndex := rfl
  chunkReadIndex := rfl
  buffered := by
    intro channel i hi
    cases hi
  acquired := by
    intro channel m hm
    cases hm

variable {h : Recording} {s : SampleData}

theorem start (inv : Recorded h s) : Recorded (h.observe .start) s.extadcStartAcquireSampleData where
  startedAt_le := Nat.le_refl _
  writeIndex := inv.writeIndex
  chunkWriteIndex := by
    simp [Recording.observe, extadcStartAcquireSampleData]
  chunkReadIndex := inv.chunkReadIndex
  buffered := inv.buffered
  acquired := by
    intro channel m hm
    cases hm

theorem reset (inv : Recorded h s) :
    Recorded (h.observe .reset) s.extadcResetSampleDataReadpointer where
  startedAt_le := inv.startedAt_le
  writeIndex := inv.writeIndex
  chunkWriteIndex := inv.chunkWriteIndex
  chunkReadIndex := rfl
  buffered := inv.buffered
  acquired := inv.acquired

theorem get (inv : Recorded h s) (channel : ExtAdcValue) :
    Recorded (h.observe (.get channel)) (s.extadcGetSampleData channel).2 where
  startedAt_le := inv.startedAt_le
  writeIndex := inv.writeIndex
  chunkWriteIndex := inv.chunkWriteIndex
  chunkReadIndex := by
    have hread := inv.chunkReadIndex
    change (if s.completeRecordsChunkReadIndex + 1 ≥ 128 then 0
      else s.completeRecordsChunkReadIndex + 1) = (h.chunksRead + 1) % 128
    split
    · omega
    · omega
  buffered := inv.buffered
  acquired := inv.acquired

/-- After `put` the buffer also holds the new record, at `write_index`. -/
theorem buffered_put (inv : Recorded h s) (record : Record) (channel : ExtAdcValue) {i : Nat}
    (hi : i < s.writeIndex + 1) :
    (h.observe (.record record)).value channel
        (32 * (h.records.length / 32) + i) =
      some ((s.put record).adcChannels channel i) := by
  have hindex := inv.writeIndex
  by_cases hlast : i = s.writeIndex
  · have hnumber : 32 * (h.records.length / 32) + i =
        h.records.length := by omega
    rw [hnumber, Recording.observe_record_value_length, hlast]
    simp [put]
  · have hbefore := inv.buffered channel i (by omega)
    rw [Recording.observe_value_of_some hbefore]
    simp [put, Function.update_of_ne hlast]

/-- A record that leaves the buffer with room for more. -/
theorem record_of_lt (inv : Recorded h s) (record : Record)
    (hroom : s.writeIndex + 1 < 32) :
    Recorded (h.observe (.record record))
      { s.put record with writeIndex := s.writeIndex + 1 } := by
  have hindex := inv.writeIndex
  have hlength := h.observe_record_length record
  have hstarted : (h.observe (.record record)).startedAt = h.startedAt := rfl
  have hchunk : (h.records.length + 1) / 32 =
      h.records.length / 32 := by omega
  constructor
  · have := inv.startedAt_le
    omega
  · rw [hlength]
    change s.writeIndex + 1 = _
    omega
  · rw [hlength, hstarted, hchunk]
    exact inv.chunkWriteIndex
  · exact inv.chunkReadIndex
  · intro channel i hi
    rw [hlength, hchunk]
    exact inv.buffered_put record channel hi
  · intro channel m hm
    exact Recording.observe_value_of_some (inv.acquired channel m hm) _

/-- A record that fills the buffer, while chunks are still acquired. -/
theorem record_chunk (inv : Recorded h s) (record : Record)
    (hfull : s.writeIndex + 1 = 32)
    (hroom : s.completeRecordsChunkWriteIndex < 128) :
    Recorded (h.observe (.record record)) (copyChunk { s.put record with writeIndex := 0 }) := by
  have hindex := inv.writeIndex
  have hstarted := inv.startedAt_le
  have hwrite := inv.chunkWriteIndex
  have hlength := h.observe_record_length record
  have hat : (h.observe (.record record)).startedAt = h.startedAt := rfl
  have hchunk : (h.records.length + 1) / 32 =
      h.records.length / 32 + 1 := by omega
  constructor
  · omega
  · rw [hlength]
    change 0 = _
    omega
  · rw [hlength, hat, hchunk]
    change s.completeRecordsChunkWriteIndex + 1 = _
    omega
  · exact inv.chunkReadIndex
  · intro channel i hi
    cases hi
  · intro channel m hm
    change m < 32 * (s.completeRecordsChunkWriteIndex + 1) at hm
    have hfirst : (h.observe (.record record)).first = h.first := rfl
    rw [hfirst]
    change _ = some (if s.completeRecordsChunkWriteIndex * 32 ≤ m ∧
      m < s.completeRecordsChunkWriteIndex * 32 + 32 then _ else _)
    split
    · rename_i hcopied
      -- the chunk in progress is the next one of the acquisition
      have hnumber : h.first + m = 32 * (h.records.length / 32) +
          (m - s.completeRecordsChunkWriteIndex * 32) := by
        unfold Recording.first
        omega
      rw [hnumber]
      refine inv.buffered_put record channel ?_
      omega
    · rename_i hold
      refine Recording.observe_value_of_some (inv.acquired channel m ?_) _
      omega

/-- A record that fills the buffer when all chunks have been acquired. -/
theorem record_complete (inv : Recorded h s) (record : Record)
    (hfull : s.writeIndex + 1 = 32)
    (hcomplete : ¬s.completeRecordsChunkWriteIndex < 128) :
    Recorded (h.observe (.record record)) { s.put record with writeIndex := 0 } := by
  have hindex := inv.writeIndex
  have hstarted := inv.startedAt_le
  have hwrite := inv.chunkWriteIndex
  have hlength := h.observe_record_length record
  have hat : (h.observe (.record record)).startedAt = h.startedAt := rfl
  constructor
  · omega
  · rw [hlength]
    change 0 = _
    omega
  · rw [hlength, hat]
    change s.completeRecordsChunkWriteIndex = _
    omega
  · exact inv.chunkReadIndex
  · intro channel i hi
    cases hi
  · intro channel m hm
    exact Recording.observe_value_of_some (inv.acquired channel m hm) _

/-- A record never meets the failing assertion. -/
theorem record (inv : Recorded h s) (record : Record) :
    ∃ s', s.completeRecord record = some s' ∧ Recorded (h.observe (.record record)) s' := by
  have hindex := inv.writeIndex
  have hroom : s.writeIndex < adcRecordsToBuffer := by
    unfold adcRecordsToBuffer
    omega
  unfold completeRecord
  rw [if_pos hroom]
  by_cases hfull : s.writeIndex + 1 ≥ 32
  · have hlast : s.writeIndex + 1 = 32 := by omega
    by_cases hchunk : s.completeRecordsChunkWriteIndex < 128
    · refine ⟨_, ?_, inv.record_chunk record hlast hchunk⟩
      simp [put, adcRecordsToBuffer, completeRecordsChunkCount, hfull, hchunk]
    · refine ⟨_, ?_, inv.record_complete record hlast hchunk⟩
      simp [put, adcRecordsToBuffer, completeRecordsChunkCount, hfull, hchunk]
  · refine ⟨_, ?_, inv.record_of_lt record (by omega)⟩
    simp [put, adcRecordsToBuffer, hfull]

/-- Every event keeps the state in agreement with the recording. -/
theorem step (inv : Recorded h s) (e : Event) :
    ∃ s', s.step e = some s' ∧ Recorded (h.observe e) s' := by
  cases e with
  | record record => exact inv.record record
  | start => exact ⟨_, rfl, inv.start⟩
  | reset => exact ⟨_, rfl, inv.reset⟩
  | get channel => exact ⟨_, rfl, inv.get channel⟩
  | isComplete => exact ⟨_, rfl, inv⟩

end Recorded

/-- The task never stops, and its state is what the recording says. -/
theorem recorded_after (events : List Event) :
    ∃ s, after events = some s ∧ Recorded (.of events) s := by
  refine runFrom_total (fun past s => Recorded (.of past) s) Recorded.initial ?_ events
  intro past before e inv
  rw [Recording.of_concat]
  exact inv.step e

/-! ## What the chunks hold -/

namespace Recording

/-- The values of a channel in `count` consecutive records from number `start`. -/
def stretch (h : Recording) (channel : ExtAdcValue) (start count : Nat) : List Int16 :=
  ((h.records.drop start).take count).map fun record => record channel

/-- Cells that hold consecutive records, read in order. -/
theorem map_range_eq_stretch {h : Recording} {channel : ExtAdcValue} {start count : Nat}
    {cell : Nat → Int16} (hcell : ∀ i, i < count → h.value channel (start + i) = some (cell i)) :
    (List.range count).map cell = h.stretch channel start count := by
  apply List.ext_getElem?
  intro i
  unfold stretch
  rw [List.getElem?_map, List.getElem?_map, List.getElem?_take]
  split
  · rename_i hi
    have := hcell i hi
    unfold value at this
    rw [List.getElem?_drop, List.getElem?_range hi, this, Option.map_some]
  · rename_i hi
    rw [List.getElem?_eq_none (by simpa using hi)]
    rfl

theorem of_append (events later : List Event) :
    of (events ++ later) = later.foldl observe (of events) := by
  simp [of]

theorem foldl_observe_value {channel : ExtAdcValue} {n : Nat} {v : Int16} :
    ∀ (later : List Event) {h : Recording}, h.value channel n = some v →
      (later.foldl observe h).value channel n = some v := by
  intro later
  induction later with
  | nil =>
      intro h hv
      exact hv
  | cons e rest ih =>
      intro h hv
      exact ih (observe_value_of_some hv e)

theorem length_le_foldl_observe (later : List Event) (h : Recording) :
    h.records.length ≤ (later.foldl observe h).records.length := by
  induction later generalizing h with
  | nil => exact Nat.le_refl _
  | cons e rest ih =>
      refine Nat.le_trans ?_ (ih (h.observe e))
      cases e with
      | record _ =>
          simp [observe]
      | start => exact Nat.le_refl _
      | reset => exact Nat.le_refl _
      | get _ => exact Nat.le_refl _
      | isComplete => exact Nat.le_refl _

/-- Only a start call moves the beginning of the acquisition. -/
theorem foldl_observe_startedAt {later : List Event} (hlater : Event.start ∉ later)
    (h : Recording) : (later.foldl observe h).startedAt = h.startedAt := by
  induction later generalizing h with
  | nil => rfl
  | cons e rest ih =>
      obtain ⟨hfirst, hrest⟩ := List.ne_and_not_mem_of_not_mem_cons hlater
      rw [List.foldl_cons, ih hrest]
      cases e with
      | start => exact absurd rfl hfirst
      | record _ => rfl
      | reset => rfl
      | get _ => rfl
      | isComplete => rfl

end Recording

/-- The event is a call of `extadc_get_sample_data`. -/
def Event.isGet : Event → Bool
  | .get _ => true
  | _ => false

/-- Without a reset the chunks read are those read before and the calls made. -/
theorem Recording.foldl_observe_chunksRead {later : List Event} (hlater : Event.reset ∉ later)
    (h : Recording) :
    (later.foldl observe h).chunksRead = h.chunksRead + later.countP Event.isGet := by
  induction later generalizing h with
  | nil => rfl
  | cons e rest ih =>
      obtain ⟨hfirst, hrest⟩ := List.ne_and_not_mem_of_not_mem_cons hlater
      rw [List.foldl_cons, ih hrest, List.countP_cons]
      cases e with
      | reset => exact absurd rfl hfirst
      | get _ =>
          change h.chunksRead + 1 + _ = h.chunksRead + (_ + 1)
          omega
      | record _ => rfl
      | start => rfl
      | isComplete => rfl

/-- An acquisition is complete once `COMPLETE_RECORDS_LENGTH` records have been
taken since the beginning of the chunk it was started in. -/
theorem Recorded.complete_iff {h : Recording} {s : SampleData} (inv : Recorded h s) :
    s.extadcIsSampleDataComplete = true ↔ h.first + completeRecordsLength ≤ h.records.length := by
  have hwrite := inv.chunkWriteIndex
  have hstarted := inv.startedAt_le
  have hlength : completeRecordsLength = 4096 := rfl
  unfold extadcIsSampleDataComplete completeRecordsChunkCount Recording.first
  rw [decide_eq_true_iff]
  omega

theorem Recorded.chunkWriteIndex_of_complete {h : Recording} {s : SampleData}
    (inv : Recorded h s) (hcomplete : s.extadcIsSampleDataComplete = true) :
    s.completeRecordsChunkWriteIndex = 128 := by
  have hwrite := inv.chunkWriteIndex
  have hcount : s.completeRecordsChunkWriteIndex ≥ 128 := of_decide_eq_true hcomplete
  omega

/-- As long as there is no start call, a completed acquisition keeps its chunks. -/
theorem Recorded.chunks_kept {h : Recording} {s s' : SampleData} {later : List Event}
    (inv : Recorded h s) (hcomplete : s.extadcIsSampleDataComplete = true)
    (inv' : Recorded (later.foldl .observe h) s') (hlater : Event.start ∉ later)
    (channel : ExtAdcValue) {m : Nat} (hm : m < completeRecordsLength) :
    s'.adcChannelsComplete channel m = s.adcChannelsComplete channel m := by
  have hlength : completeRecordsLength = 4096 := rfl
  have hstarted := Recording.foldl_observe_startedAt hlater h
  have hgrows := Recording.length_le_foldl_observe later h
  have hwrite := inv.chunkWriteIndex_of_complete hcomplete
  have hwrite' : s'.completeRecordsChunkWriteIndex = 128 := by
    have hindex := inv.chunkWriteIndex
    have hindex' := inv'.chunkWriteIndex
    omega
  have hfirst : (later.foldl Recording.observe h).first = h.first := by
    unfold Recording.first
    rw [hstarted]
  have hbefore := Recording.foldl_observe_value later (inv.acquired channel m (by omega))
  have hafter := inv'.acquired channel m (by omega)
  rw [hfirst, hbefore] at hafter
  exact (Option.some.inj hafter).symm

/-- Between a completed acquisition and the next start call the chunks are read
in order from a reset on. -/
theorem get_after_reset {events between reads : List Event} {s : SampleData}
    (inv : Recorded (.of events) s) (hcomplete : s.extadcIsSampleDataComplete = true)
    (hstart : Event.start ∉ between ++ reads) (hreset : Event.reset ∉ reads) :
    ∃ s', after (events ++ between ++ .reset :: reads) = some s' ∧
      ∀ channel, (s'.extadcGetSampleData channel).1 = (Recording.of events).stretch channel
        ((Recording.of events).first +
          adcRecordsToBuffer * (reads.countP Event.isGet % completeRecordsChunkCount))
        adcRecordsToBuffer := by
  obtain ⟨s', hrun, inv'⟩ := recorded_after (events ++ between ++ .reset :: reads)
  refine ⟨s', hrun, ?_⟩
  intro channel
  have hindex : s'.completeRecordsChunkReadIndex = reads.countP Event.isGet % 128 := by
    have hread := inv'.chunkReadIndex
    rw [Recording.of_append, List.foldl_cons, Recording.foldl_observe_chunksRead hreset] at hread
    change _ = (0 + _) % 128 at hread
    rw [hread, Nat.zero_add]
  have hlater : Event.start ∉ between ++ .reset :: reads := by
    simpa using hstart
  rw [List.append_assoc, Recording.of_append] at inv'
  have hwrite := inv.chunkWriteIndex_of_complete hcomplete
  apply Recording.map_range_eq_stretch
  intro i hi
  unfold adcRecordsToBuffer at hi
  unfold adcRecordsToBuffer completeRecordsChunkCount
  have hcell : i + s'.completeRecordsChunkReadIndex * 32 < 4096 := by omega
  rw [inv.chunks_kept hcomplete inv' hlater channel hcell,
    ← inv.acquired channel _ (by omega), hindex]
  congr 1
  omega

/-- The acquired sample data is a recording without gaps.  When the acquisition
is complete, all channels hold the same `COMPLETE_RECORDS_LENGTH` consecutive
records, at most `ADC_RECORDS_TO_BUFFER - 1` of them from before the most recent
start call; until the next one the `i`-th call of `extadc_get_sample_data` after a
reset returns their chunk `i % COMPLETE_RECORDS_CHUNK_COUNT`. -/
theorem complete_sampleData {events : List Event} {s : SampleData} (hrun : after events = some s)
    (hcomplete : s.extadcIsSampleDataComplete = true) :
    ∃ first,
      first ≤ (Recording.of events).startedAt ∧
      (Recording.of events).startedAt ≤ first + (adcRecordsToBuffer - 1) ∧
      first + completeRecordsLength ≤ (Recording.of events).records.length ∧
      (∀ channel, (List.range completeRecordsLength).map (s.adcChannelsComplete channel) =
        (Recording.of events).stretch channel first completeRecordsLength) ∧
      ∀ between reads : List Event, Event.start ∉ between ++ reads → Event.reset ∉ reads →
        ∃ s', after (events ++ between ++ .reset :: reads) = some s' ∧
          ∀ channel, (s'.extadcGetSampleData channel).1 = (Recording.of events).stretch channel
            (first + adcRecordsToBuffer * (reads.countP Event.isGet % completeRecordsChunkCount))
            adcRecordsToBuffer := by
  obtain ⟨s', hafter, inv⟩ := recorded_after events
  obtain rfl : s = s' := Option.some.inj (hrun.symm.trans hafter)
  have hwrite := inv.chunkWriteIndex_of_complete hcomplete
  refine ⟨(Recording.of events).first, ?_, ?_, inv.complete_iff.mp hcomplete, ?_, ?_⟩
  · unfold Recording.first
    omega
  · unfold Recording.first adcRecordsToBuffer
    omega
  · intro channel
    apply Recording.map_range_eq_stretch
    intro m hm
    refine inv.acquired channel m ?_
    rw [hwrite]
    exact hm
  · intro between reads hstart hreset
    exact get_after_reset inv hcomplete hstart hreset

theorem Recording.of_replicate_record (n : Nat) (record : Record) :
    of (List.replicate n (.record record)) =
      { records := List.replicate n record, startedAt := 0, chunksRead := 0 } := by
  induction n with
  | zero => rfl
  | succ n ih =>
      rw [List.replicate_succ', of_concat, ih, observe, List.replicate_succ']

/-- The acquisition that the task begins itself is complete after
`COMPLETE_RECORDS_LENGTH` records. -/
theorem complete_sampleData_first :
    ∃ s, after (List.replicate completeRecordsLength (.record fun _ => 7)) = some s ∧
      ∀ channel, (List.range completeRecordsLength).map (s.adcChannelsComplete channel) =
        List.replicate completeRecordsLength 7 := by
  obtain ⟨s, hrun, inv⟩ := recorded_after (List.replicate completeRecordsLength (.record fun _ => 7))
  have hcomplete : s.extadcIsSampleDataComplete = true := by
    rw [inv.complete_iff, Recording.of_replicate_record]
    simp [Recording.first]
  obtain ⟨first, hfirst, _, _, hchunks, _⟩ := complete_sampleData hrun hcomplete
  refine ⟨s, hrun, ?_⟩
  intro channel
  rw [Recording.of_replicate_record] at hfirst hchunks
  obtain rfl : first = 0 := Nat.le_zero.mp hfirst
  rw [hchunks channel]
  simp [Recording.stretch]

end SampleData

end WindradLogger.Adc
