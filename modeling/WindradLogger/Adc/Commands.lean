import WindradLogger.Adc.RawWords

set_option autoImplicit false

/-!
# From commands to records (`task_external_adc.c`)

`external_adc_transmission` fills `adc_output_buffer` with the commands that ask for
the channels of the acquisition order, and the circular DMA sends the buffer over and
over.  Each answer of the ADC comes some words after its command, behind words it had
pending from before.  Neither this delay nor where it makes the halves of the input
buffer begin plays a part for the records.
-/

namespace WindradLogger.Adc

open WindradLogger.Lib

/-! ## Commands -/

/-- `ADS_MANUAL_MODE` -/
def adsManualMode : UInt32 := 0x1000

/-- `ADS_NXT_CHANNEL_POS` -/
def adsNxtChannelPos : UInt32 := 7

/-- `TX_BUFFER_SIZE` -/
def txBufferSize : Nat := adcRecordsToBuffer * channelCount * adcWordSize / 8

/-- The command that asks for a channel. -/
def channelCommand (channel : RawChannel) : UInt32 :=
  adsManualMode ||| UInt32.ofNat channel.number <<< adsNxtChannelPos

/-- `next_channel_index` of the next pass. -/
def nextChannelIndex (i : Fin channelCount) : Fin channelCount :=
  if h : i.val + 1 ≥ channelCount then ⟨0, Nat.zero_lt_succ 13⟩
  else ⟨i.val + 1, Nat.lt_of_not_ge h⟩

/-- The loop of `external_adc_transmission`: the commands of its last `n` passes. -/
def fillOutputBuffer : Nat → Fin channelCount → List UInt32
  | 0, _ => []
  | n + 1, i => channelCommand (orderOfAcquisition.get i) :: fillOutputBuffer n (nextChannelIndex i)

/-- `external_adc_transmission`: `adc_output_buffer` as the DMA is given it. -/
def externalAdcTransmission : List UInt32 := fillOutputBuffer txBufferSize ⟨0, Nat.zero_lt_succ 13⟩

/-- Word `n` that the circular DMA sends. -/
def sentCommand (n : Nat) : UInt32 := externalAdcTransmission.getD (n % txBufferSize) 0

theorem nextChannelIndex_ofNat (n : Nat) :
    nextChannelIndex (Fin.ofNat 14 n) = Fin.ofNat 14 (n + 1) := by
  unfold nextChannelIndex
  have hcount : channelCount = 14 := rfl
  have hval : (Fin.ofNat 14 n).val = n % 14 := rfl
  split
  · rename_i hlast
    apply Fin.ext
    change 0 = (n + 1) % 14
    omega
  · rename_i hlast
    apply Fin.ext
    change n % 14 + 1 = (n + 1) % 14
    omega

theorem fillOutputBuffer_eq (n start : Nat) :
    fillOutputBuffer n (Fin.ofNat 14 start) =
      (List.range n).map fun k =>
        channelCommand (orderOfAcquisition.get (Fin.ofNat 14 (start + k))) := by
  induction n generalizing start with
  | zero => rfl
  | succ n ih =>
      change channelCommand (orderOfAcquisition.get (Fin.ofNat 14 start)) ::
        fillOutputBuffer n (nextChannelIndex (Fin.ofNat 14 start)) = _
      rw [nextChannelIndex_ofNat, ih, List.range_succ_eq_map, List.map_cons, List.map_map]
      refine congrArg _ (List.map_congr_left fun k _ => ?_)
      rw [Function.comp_apply, Nat.succ_eq_add_one, Nat.add_assoc, Nat.add_comm 1 k]

/-- The buffer holds whole cycles of the order, so that its repetition is the repetition of
the order. -/
theorem sentCommand_eq (n : Nat) :
    sentCommand n = channelCommand (orderOfAcquisition.get (Fin.ofNat 14 n)) := by
  have hlt : n % txBufferSize < txBufferSize := Nat.mod_lt _ (by decide)
  have hbuffer := fillOutputBuffer_eq txBufferSize 0
  have hindex : Fin.ofNat 14 (0 + n % txBufferSize) = Fin.ofNat 14 n := by
    apply Fin.ext
    change (0 + n % 56) % 14 = n % 14
    omega
  have hget : externalAdcTransmission[n % txBufferSize]? =
      some (channelCommand (orderOfAcquisition.get (Fin.ofNat 14 n))) := by
    change (fillOutputBuffer txBufferSize (Fin.ofNat 14 0))[n % txBufferSize]? = _
    rw [hbuffer, List.getElem?_map, List.getElem?_range hlt, Option.map_some, hindex]
  rw [sentCommand, List.getD_eq_getElem?_getD, hget, Option.getD_some]

/-! ## Answers -/

/-- The words that come from the ADC: in manual mode a word names, in its bits 12 to 15, the
channel that bits 7 to 10 of the command `latency` words before have asked for, with its
value in the bits below.  Nothing is known of the upper half-word, nor of the first words. -/
def Answers (latency : Nat) (words : Nat → UInt32) : Prop :=
  ∀ n, sentCommand n &&& 0xF000 = adsManualMode →
    (words (latency + n) &&& 0xF000) >>> 12 = (sentCommand n >>> 7) &&& 0xF

/-- The twelve bits below the channel. -/
def answerValue (word : UInt32) : BitVec 12 := BitVec.ofNat 12 word.toNat

theorem channelCommand_manual (channel : RawChannel) :
    channelCommand channel &&& 0xF000 = adsManualMode := by
  cases channel <;> decide

theorem channelCommand_channel (channel : RawChannel) :
    ((channelCommand channel >>> 7) &&& 0xF).toNat = channel.number := by
  cases channel <;> decide

/-- The value that goes with the channel is the lower bits. -/
theorem names_of_channel {word : UInt32} {channel : RawChannel}
    (h : ((word &&& 0xF000) >>> 12).toNat = channel.number) :
    WordStream.Names word channel (answerValue word) := by
  intro dataRecord
  have hassert : (word &&& 0xF000) >>> 12 < 16 := by
    rw [UInt32.lt_iff_toNat_lt, h]
    exact channel.number_lt
  have hvalue : (word &&& 0x0FFF).toUInt16.toInt16 = sample (answerValue word) := by
    have hlow : (word &&& 0x0FFF).toUInt16.toNat = (answerValue word).toNat := by
      rw [UInt32.toNat_toUInt16, UInt32.toNat_and]
      change (word.toNat &&& (2 ^ 12 - 1)) % 2 ^ 16 = word.toNat % 2 ^ 12
      rw [Nat.and_two_pow_sub_one_eq_mod]
      omega
    have hlt := (answerValue word).isLt
    apply Int16.toInt_inj.mp
    rw [toInt_toInt16, hlow, toInt_sample]
    exact Int.bmod_eq_of_le (by omega) (by omega)
  unfold storeWord
  dsimp only
  rw [if_pos hassert, h, hvalue]
  split
  · rename_i hnumber
    rw [if_pos (RawChannel.number_injective hnumber)]
  · rename_i hnumber
    rw [if_neg fun heq => hnumber (congrArg RawChannel.number heq)]

/-- The answers, as a stream of words that begins with the order. -/
def answered (latency : Nat) (words : Nat → UInt32) : WordStream :=
  { start := 0, value := fun n => answerValue (words (latency + n)) }

theorem names_answered {latency : Nat} {words : Nat → UInt32} (h : Answers latency words) (n : Nat) :
    WordStream.Names (words (latency + n)) ((answered latency words).channel n)
      ((answered latency words).value n) := by
  have hcommand := sentCommand_eq n
  have hchannel : (answered latency words).channel n =
      orderOfAcquisition.get (Fin.ofNat 14 n) := by
    rw [WordStream.channel, answered, Nat.zero_add]
  refine names_of_channel ?_
  rw [h n (by rw [hcommand]; exact channelCommand_manual _), hcommand, hchannel]
  exact channelCommand_channel _

/-! ## The records -/

section Records

variable {latency : Nat} {words : Nat → UInt32}

theorem channel_answered (n : Nat) :
    (answered latency words).channel n = orderOfAcquisition.get (Fin.ofNat 14 n) := by
  rw [WordStream.channel, answered, Nat.zero_add]

theorem sentCommand_eq_last_iff (latency : Nat) (words : Nat → UInt32) (n : Nat) :
    sentCommand n = channelCommand lastChannelInAcquireOrder ↔
      (answered latency words).channel n = lastChannelInAcquireOrder := by
  rw [sentCommand_eq, channel_answered]
  constructor
  · intro h
    apply RawChannel.number_injective
    rw [← channelCommand_channel, ← channelCommand_channel, h]
  · intro h
    rw [h]

/-- Where cycle `k` of the commands asks for a channel. -/
def asked (k : Nat) (c : RawChannel) : Nat := channelCount * k + orderOfAcquisition.toList.idxOf c

theorem asked_spec (k : Nat) {c : RawChannel} (hc : c ∈ orderOfAcquisition.toList) :
    channelCount * k ≤ asked k c ∧ asked k c < channelCount * k + channelCount ∧
      orderOfAcquisition.get (Fin.ofNat 14 (asked k c)) = c := by
  have hindex : orderOfAcquisition.toList.idxOf c < orderOfAcquisition.toList.length :=
    List.idxOf_lt_length_of_mem hc
  have hlength : orderOfAcquisition.toList.length = 14 := rfl
  have hcount : channelCount = 14 := rfl
  unfold asked
  refine ⟨Nat.le_add_right _ _, by omega, ?_⟩
  have hfin : Fin.ofNat 14 (channelCount * k + orderOfAcquisition.toList.idxOf c) =
      ⟨orderOfAcquisition.toList.idxOf c, by omega⟩ := by
    apply Fin.ext
    change (14 * k + orderOfAcquisition.toList.idxOf c) % 14 = orderOfAcquisition.toList.idxOf c
    omega
  rw [hfin]
  change orderOfAcquisition.toList[orderOfAcquisition.toList.idxOf c] = c
  exact List.getElem_idxOf hindex

/-- The words behind the first answer: what each of them completes. -/
theorem completed_answered (hanswers : Answers latency words) {n : Nat}
    {after : Nat → Int16} {completed : List (Option Record)}
    (hrun : transduce storeWord WordLoop.initial.dataRecord ((List.range n).map words) =
      some (after, completed)) :
    completed.length = n ∧ ∀ m, latency + m < n →
      ∃ latest, (answered latency words).Recent (m + 1) latest ∧
        completed[latency + m]? = some ((answered latency words).completes m latest) := by
  have hlength : completed.length = n := by
    obtain ⟨_, all, hall, hlength⟩ := exists_transduce WordStream.exists_storeWord
      WordLoop.initial.dataRecord ((List.range n).map words)
    rw [hrun] at hall
    cases hall
    rw [hlength, List.length_map, List.length_range]
  refine ⟨hlength, fun m hm => ?_⟩
  obtain ⟨behind, rfl⟩ : ∃ behind, n = latency + behind := ⟨n - latency, by omega⟩
  obtain ⟨first, pending, hfirst, hpending⟩ := exists_transduce WordStream.exists_storeWord
    WordLoop.initial.dataRecord ((List.range latency).map words)
  rw [List.length_map, List.length_range] at hpending
  rw [List.range_add, List.map_append, List.map_map] at hrun
  obtain ⟨rest, hrest, rfl⟩ := transduce_drop hrun hfirst
  obtain ⟨_, all, hall, _, _, hcompleted⟩ :=
    (answered latency words).transduce_named (names_answered hanswers) first behind
  obtain rfl : rest = all := by
    have hsame : some (after, rest) = some (_, all) := hrest.symm.trans hall
    cases hsame
    rfl
  obtain ⟨latest, hlatest, hword⟩ := hcompleted m (by omega)
  refine ⟨latest, hlatest, ?_⟩
  rw [List.getElem?_append_right (by omega), hpending, Nat.add_sub_cancel_left]
  exact hword

/-- Whatever the ADC had pending and however many words its answers come late: behind the
first answer a word completes a record exactly if it answers the last command of a cycle,
and the record is taken from the answers to the commands of this cycle. -/
theorem records_of_commands (hanswers : Answers latency words) {buffers : Nat → Nat → UInt32}
    (hfills : ∀ b i, i < rxBufferSize / 2 →
      buffers b (HalfBuffer.completedHalf (b + 1) + i) = words (rxBufferSize / 2 * b + i))
    (batches : Nat) :
    ∃ loop completed,
      transduce WordLoop.readHalf .initial ((List.range batches).map buffers) =
        some (loop, completed) ∧
      completed.flatten.length = rxBufferSize / 2 * batches ∧
      (∀ n, latency + n < rxBufferSize / 2 * batches →
        ((∃ record, completed.flatten[latency + n]? = some (some record)) ↔
          sentCommand n = channelCommand lastChannelInAcquireOrder)) ∧
      ∀ k, latency + (channelCount * k + 13) < rxBufferSize / 2 * batches →
        ∃ record, completed.flatten[latency + (channelCount * k + 13)]? = some (some record) ∧
          (∀ c ∈ orderOfAcquisition.toList,
            channelCount * k ≤ asked k c ∧ asked k c ≤ channelCount * k + 13 ∧
              sentCommand (asked k c) = channelCommand c) ∧
          WordStream.TakenFrom (fun c => (answerValue (words (latency + asked k c))).toNat)
            record := by
  obtain ⟨loop, completed, hrun, _, hwords⟩ := WordStream.transduce_filled hfills batches
  obtain ⟨hlength, hcompleted⟩ := completed_answered hanswers hwords
  refine ⟨loop, completed, hrun, hlength, ?_, ?_⟩
  · intro n hn
    obtain ⟨latest, _, hword⟩ := hcompleted n hn
    rw [sentCommand_eq_last_iff latency words, hword]
    constructor
    · rintro ⟨record, hrecord⟩
      unfold WordStream.completes at hrecord
      split at hrecord
      · rename_i hlast
        exact hlast
      · cases hrecord
    · intro hlast
      exact ⟨takeRecord latest,
        congrArg some ((answered latency words).completes_of_last hlast latest)⟩
  · intro k hk
    obtain ⟨latest, hlatest, hword⟩ := hcompleted (channelCount * k + 13) hk
    have hcount : channelCount = 14 := rfl
    have hlast : (answered latency words).channel (channelCount * k + 13) =
        lastChannelInAcquireOrder := by
      rw [WordStream.channel_eq_last_iff, answered, hcount]
      change (0 + (14 * k + 13)) % 14 = 13
      omega
    rw [WordStream.completes_of_last _ hlast] at hword
    refine ⟨takeRecord latest, hword, ?_, WordStream.takenFrom_takeRecord ?_⟩
    · intro c hc
      obtain ⟨hlow, hhigh, hasked⟩ := asked_spec k hc
      refine ⟨hlow, by omega, ?_⟩
      rw [sentCommand_eq, hasked]
    · intro c hc
      obtain ⟨hlow, hhigh, hasked⟩ := asked_spec k hc
      have hvalue := hlatest (asked k c) (by omega) (by omega)
      rw [channel_answered, hasked] at hvalue
      exact hvalue

end Records

/-- Answers that come two words late, with the value `0x123` and an upper half-word that means
nothing. -/
def lateAnswers (n : Nat) : UInt32 :=
  if n < 2 then 0xFFFFFFFF
  else ((sentCommand (n - 2) >>> 7) &&& 0xF) <<< 12 ||| (0xABCD0123 : UInt32)

theorem answers_lateAnswers : Answers 2 lateAnswers := by
  intro n _
  have hchannel : ∀ channel : RawChannel,
      ((((channelCommand channel >>> 7) &&& 0xF) <<< 12 ||| (0xABCD0123 : UInt32)) &&& 0xF000) >>>
        12 = (channelCommand channel >>> 7) &&& 0xF := by
    intro channel
    cases channel <;> decide
  rw [lateAnswers, if_neg (by omega), Nat.add_sub_cancel_left, sentCommand_eq]
  exact hchannel _

/-- The first record is in the first half of the buffer. -/
theorem records_of_commands_late :
    ∃ loop completed,
      transduce WordLoop.readHalf .initial ((List.range 2).map fun b i =>
        lateAnswers (28 * b + (i - HalfBuffer.completedHalf (b + 1)))) = some (loop, completed) ∧
      ∃ record, completed.flatten[2 + (14 * 0 + 13)]? = some (some record) := by
  obtain ⟨loop, completed, hrun, _, _, hrecords⟩ :=
    @records_of_commands 2 lateAnswers answers_lateAnswers
      (fun b i => lateAnswers (28 * b + (i - HalfBuffer.completedHalf (b + 1))))
      (fun b i _ => by rw [Nat.add_sub_cancel_left]; rfl) 2
  obtain ⟨record, hrecord, _⟩ := hrecords 0 (by decide)
  exact ⟨loop, completed, hrun, record, hrecord⟩

end WindradLogger.Adc
