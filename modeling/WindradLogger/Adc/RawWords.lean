import WindradLogger.Adc.HalfBuffer
import WindradLogger.Lib.Transducer
import WindradLogger.Lib.Width

set_option autoImplicit false

/-!
# From ADC words to records (`task_external_adc.c`, `board.h`)

Every word of the external ADC names the channel it was taken from.
`taskExternalADC` keeps the latest value of every channel in `data_record`, and
each time the last channel of the acquisition order arrives it takes a record
from there.  The words come in halves of the input buffer, which begin and end
anywhere in the order.
-/

namespace WindradLogger.Adc

open WindradLogger.Lib

/-- `ext_adc_raw_channel_t` -/
inductive RawChannel where
  | currL1Pos | currL1Neg | currL2Pos | currL2Neg | currL3Pos | currL3Neg
  | vref | voltL21 | voltL23 | voltL13 | auxVolt
  | tempL1 | tempL2 | tempL3
  | gnd1 | gnd2
  deriving DecidableEq, Repr, Inhabited

/-- The number of the channel in the enumeration. -/
def RawChannel.number : RawChannel → Nat
  | .currL1Pos => 0
  | .currL1Neg => 1
  | .currL2Pos => 2
  | .currL2Neg => 3
  | .currL3Pos => 4
  | .currL3Neg => 5
  | .vref => 6
  | .voltL21 => 7
  | .voltL23 => 8
  | .voltL13 => 9
  | .auxVolt => 10
  | .tempL1 => 12
  | .tempL2 => 13
  | .tempL3 => 14
  | .gnd1 => 15
  | .gnd2 => 11

/-- `ORDER_OF_ACQUISITION` -/
def orderOfAcquisition : Vector RawChannel channelCount :=
  #v[.currL1Neg, .currL1Pos, .currL2Pos, .currL2Neg,
    .currL3Pos, .currL3Neg, .vref, .voltL21,
    .voltL23, .voltL13, .tempL1, .tempL2,
    .tempL3, .auxVolt]

/-- `LAST_CHANNEL_IN_ACQUIRE_ORDER` -/
def lastChannelInAcquireOrder : RawChannel := orderOfAcquisition.get (Fin.last 13)

/-- A current from the channels of its two directions. -/
def current (pos neg : Int16) : Int16 :=
  if pos > neg then pos else (-neg.toInt32).toInt16

/-- A line voltage relative to the reference. -/
def lineVoltage (raw vref : Int16) : Int16 := (raw.toInt32 - vref.toInt32).toInt16

/-- `data_record[channel].value` -/
def rawValue (dataRecord : Nat → Int16) (channel : RawChannel) : Int16 := dataRecord channel.number

/-- The record taken from `data_record`, before calibration. -/
def takeRecord (dataRecord : Nat → Int16) : Record
  | .currL1 => current (rawValue dataRecord .currL1Pos) (rawValue dataRecord .currL1Neg)
  | .currL2 => current (rawValue dataRecord .currL2Pos) (rawValue dataRecord .currL2Neg)
  | .currL3 => current (rawValue dataRecord .currL3Pos) (rawValue dataRecord .currL3Neg)
  | .voltL21 => lineVoltage (rawValue dataRecord .voltL21) (rawValue dataRecord .vref)
  | .voltL32 => lineVoltage (rawValue dataRecord .voltL23) (rawValue dataRecord .vref)
  | .voltL13 => lineVoltage (rawValue dataRecord .voltL13) (rawValue dataRecord .vref)
  | .auxVolt => rawValue dataRecord .auxVolt
  | .tempL1 => rawValue dataRecord .tempL1
  | .tempL2 => rawValue dataRecord .tempL2
  | .tempL3 => rawValue dataRecord .tempL3
  | .vref => rawValue dataRecord .vref

/-- `taskExternalADC`, one word up to the calibration: the new `data_record`, and
the record if the word completes one.  `none` is a failed `assert`. -/
def storeWord (dataRecord : Nat → Int16) (adcWord : UInt32) :
    Option ((Nat → Int16) × Option Record) :=
  let channelIndex := (adcWord &&& 0xF000) >>> 12
  let value := (adcWord &&& 0x0FFF).toUInt16
  if channelIndex < 16 then
    let dataRecord := Function.update dataRecord channelIndex.toNat value.toInt16
    if channelIndex.toNat = lastChannelInAcquireOrder.number then
      some (dataRecord, some (takeRecord dataRecord))
    else some (dataRecord, none)
  else none

/-- What `taskExternalADC` keeps between two halves: `data_record` and
`read_buffer_start_index`. -/
structure WordLoop where
  dataRecord : Nat → Int16
  readBufferStartIndex : Nat

namespace WordLoop

/-- The loop of `taskExternalADC` begins. -/
def initial : WordLoop := { dataRecord := fun _ => 0, readBufferStartIndex := 0 }

/-- `taskExternalADC`, one half of `adc_input_buffer`: what is completed at each
of its words. -/
def readHalf (s : WordLoop) (adcInputBuffer : Nat → UInt32) :
    Option (WordLoop × List (Option Record)) := do
  let words := (List.range (rxBufferSize / 2)).map fun i =>
    adcInputBuffer (s.readBufferStartIndex + i)
  let (dataRecord, completed) ← transduce storeWord s.dataRecord words
  return ({ dataRecord := dataRecord
            readBufferStartIndex := HalfBuffer.advance s.readBufferStartIndex }, completed)

end WordLoop

/-! ## Encoding and decoding a word -/

/-- The word in which the ADC sends a value of a channel. -/
def adcWord (channel : RawChannel) (value : BitVec 12) : UInt32 :=
  UInt32.ofNat channel.number <<< 12 ||| UInt32.ofNat value.toNat

theorem RawChannel.number_lt (channel : RawChannel) : channel.number < 16 := by
  cases channel <;> decide

theorem RawChannel.number_injective {c c' : RawChannel} (h : c.number = c'.number) : c = c' := by
  cases c <;> cases c' <;> first | rfl | cases h

theorem toNat_adcWord (channel : RawChannel) (value : BitVec 12) :
    (adcWord channel value).toNat = channel.number * 4096 + value.toNat := by
  have hnumber := channel.number_lt
  have hvalue := value.isLt
  have hor := Nat.shiftLeft_add_eq_or_of_lt hvalue channel.number
  unfold adcWord
  rw [UInt32.toNat_or, UInt32.toNat_shiftLeft, UInt32.toNat_ofNat', UInt32.toNat_ofNat',
    Nat.mod_eq_of_lt (show channel.number < 2 ^ 32 by omega),
    Nat.mod_eq_of_lt (show value.toNat < 2 ^ 32 by omega)]
  change channel.number <<< 12 % 2 ^ 32 ||| value.toNat = _
  rw [Nat.mod_eq_of_lt (by rw [Nat.shiftLeft_eq]; omega), ← hor, Nat.shiftLeft_eq]

theorem channel_adcWord (channel : RawChannel) (value : BitVec 12) :
    ((adcWord channel value &&& 0xF000) >>> 12).toNat = channel.number := by
  have hnumber := channel.number_lt
  have hvalue := value.isLt
  rw [UInt32.toNat_shiftRight, UInt32.toNat_and, toNat_adcWord]
  change (channel.number * 4096 + value.toNat &&& 0xF000) >>> 12 = channel.number
  rw [Nat.shiftRight_and_distrib, Nat.shiftRight_eq_div_pow]
  change (channel.number * 4096 + value.toNat) / 2 ^ 12 &&& (2 ^ 4 - 1) = channel.number
  rw [Nat.and_two_pow_sub_one_eq_mod]
  omega

/-- A 12-bit value as `data_record` holds it. -/
def sample (value : BitVec 12) : Int16 := Int16.ofNat value.toNat

theorem toInt_sample (value : BitVec 12) : (sample value).toInt = value.toNat := by
  have hvalue := value.isLt
  exact Int16.toInt_ofNat_of_lt (by omega)

theorem value_adcWord (channel : RawChannel) (value : BitVec 12) :
    (adcWord channel value &&& 0x0FFF).toUInt16.toInt16 = sample value := by
  have hvalue := value.isLt
  have hmask : (adcWord channel value &&& 0x0FFF).toUInt16.toNat = value.toNat := by
    rw [UInt32.toNat_toUInt16, UInt32.toNat_and, toNat_adcWord]
    change (channel.number * 4096 + value.toNat &&& (2 ^ 12 - 1)) % 2 ^ 16 = value.toNat
    rw [Nat.and_two_pow_sub_one_eq_mod]
    omega
  apply Int16.toInt_inj.mp
  rw [toInt_toInt16, hmask, toInt_sample]
  exact Int.bmod_eq_of_le (by omega) (by omega)

/-- A word changes the value of its channel, and completes a record exactly if
that is the last channel of the order. -/
theorem storeWord_adcWord (dataRecord : Nat → Int16) (channel : RawChannel) (value : BitVec 12) :
    storeWord dataRecord (adcWord channel value) =
      some (Function.update dataRecord channel.number (sample value),
        if channel = lastChannelInAcquireOrder then
          some (takeRecord (Function.update dataRecord channel.number (sample value)))
        else none) := by
  have hchannel := channel_adcWord channel value
  have hassert : (adcWord channel value &&& 0xF000) >>> 12 < 16 := by
    rw [UInt32.lt_iff_toNat_lt, hchannel]
    exact channel.number_lt
  unfold storeWord
  dsimp only
  rw [if_pos hassert, hchannel, value_adcWord]
  split
  · rename_i hnumber
    rw [if_pos (RawChannel.number_injective hnumber)]
  · rename_i hnumber
    rw [if_neg fun h => hnumber (congrArg RawChannel.number h)]

/-! ## The endless stream of words -/

/-- The words of the ADC: the acquisition order, repeated for ever from some
position on, with any values. -/
structure WordStream where
  start : Nat
  value : Nat → BitVec 12

namespace WordStream

variable (s : WordStream)

/-- The channel of a word. -/
def channel (n : Nat) : RawChannel := orderOfAcquisition.get (Fin.ofNat 14 (s.start + n))

/-- Word number `n`. -/
def word (n : Nat) : UInt32 := adcWord (s.channel n) (s.value n)

/-- The acquisition order has no duplicates, which `taskExternalADC` asserts when
it starts. -/
theorem orderOfAcquisition_nodup : orderOfAcquisition.toList.Nodup := by decide

theorem orderOfAcquisition_injective {i j : Fin 14}
    (h : orderOfAcquisition.get i = orderOfAcquisition.get j) : i = j := by
  have hi : i.val < orderOfAcquisition.toList.length := i.isLt
  have hj : j.val < orderOfAcquisition.toList.length := j.isLt
  have hlist : orderOfAcquisition.toList[i.val] = orderOfAcquisition.toList[j.val] := h
  exact Fin.ext ((List.getElem_inj orderOfAcquisition_nodup).mp hlist)

/-- Words are of the same channel if whole cycles lie between them. -/
theorem channel_eq_iff {m n : Nat} :
    s.channel m = s.channel n ↔ (s.start + m) % 14 = (s.start + n) % 14 := by
  constructor
  · intro h
    exact congrArg Fin.val (orderOfAcquisition_injective h)
  · intro h
    exact congrArg orderOfAcquisition.get (Fin.ext h)

theorem channel_eq_last_iff {n : Nat} :
    s.channel n = lastChannelInAcquireOrder ↔ (s.start + n) % 14 = 13 := by
  constructor
  · intro h
    exact congrArg Fin.val (orderOfAcquisition_injective (j := 13) h)
  · intro h
    exact congrArg orderOfAcquisition.get (Fin.ext h)

/-- `data_record` holds the values of the latest cycle of words before word `n`. -/
def Recent (n : Nat) (dataRecord : Nat → Int16) : Prop :=
  ∀ m, m < n → n ≤ m + channelCount → dataRecord (s.channel m).number = sample (s.value m)

/-- A word takes the place of the one a cycle before it. -/
theorem Recent.storeWord {s : WordStream} {n : Nat} {dataRecord : Nat → Int16}
    (h : s.Recent n dataRecord) :
    s.Recent (n + 1) (Function.update dataRecord (s.channel n).number (sample (s.value n))) := by
  intro m hm hcycle
  unfold channelCount at hcycle
  rcases Nat.lt_or_eq_of_le (Nat.le_of_lt_succ hm) with hearlier | rfl
  · have hother : (s.channel m).number ≠ (s.channel n).number := by
      intro heq
      have hsame := s.channel_eq_iff.mp (RawChannel.number_injective heq)
      omega
    rw [Function.update_of_ne hother]
    exact h m hearlier (by unfold channelCount; omega)
  · exact Function.update_self _ _ _

/-- What word `n` completes, told from the `data_record` it leaves. -/
def completes (n : Nat) (dataRecord : Nat → Int16) : Option Record :=
  if s.channel n = lastChannelInAcquireOrder then some (takeRecord dataRecord) else none

theorem completes_of_last {n : Nat} (h : s.channel n = lastChannelInAcquireOrder)
    (dataRecord : Nat → Int16) : s.completes n dataRecord = some (takeRecord dataRecord) :=
  if_pos h

/-- The word names the channel and the value to `taskExternalADC`, whatever else it holds. -/
def Names (word : UInt32) (channel : RawChannel) (value : BitVec 12) : Prop :=
  ∀ dataRecord, storeWord dataRecord word =
    some (Function.update dataRecord channel.number (sample value),
      if channel = lastChannelInAcquireOrder then
        some (takeRecord (Function.update dataRecord channel.number (sample value)))
      else none)

/-- From any `data_record` on, words that name those of the stream are processed without a
failed assertion, and each of them completes what its cycle says. -/
theorem transduce_named {words : Nat → UInt32}
    (hnames : ∀ n, Names (words n) (s.channel n) (s.value n)) (dataRecord : Nat → Int16) (n : Nat) :
    ∃ after completed,
      transduce storeWord dataRecord ((List.range n).map words) = some (after, completed) ∧
      s.Recent n after ∧ completed.length = n ∧
      ∀ m, m < n → ∃ latest, s.Recent (m + 1) latest ∧
        completed[m]? = some (s.completes m latest) := by
  induction n with
  | zero =>
      refine ⟨dataRecord, [], rfl, ?_, rfl, ?_⟩
      · intro m hm
        exact absurd hm (Nat.not_lt_zero m)
      · intro m hm
        exact absurd hm (Nat.not_lt_zero m)
  | succ n ih =>
      obtain ⟨after, completed, hrun, hrecent, hlength, hcompleted⟩ := ih
      refine ⟨Function.update after (s.channel n).number (sample (s.value n)),
        completed ++ [s.completes n
          (Function.update after (s.channel n).number (sample (s.value n)))],
        ?_, hrecent.storeWord, ?_, ?_⟩
      · rw [List.range_succ, List.map_append]
        exact transduce_concat hrun (hnames n after)
      · rw [List.length_append, hlength, List.length_singleton]
      · intro m hm
        rcases Nat.lt_or_eq_of_le (Nat.le_of_lt_succ hm) with hearlier | rfl
        · obtain ⟨latest, hlatest, hm⟩ := hcompleted m hearlier
          refine ⟨latest, hlatest, ?_⟩
          rw [List.getElem?_append_left (by omega)]
          exact hm
        · refine ⟨_, hrecent.storeWord, ?_⟩
          rw [List.getElem?_append_right (by omega), hlength, Nat.sub_self]
          rfl

/-- The first `n` words are processed without a failed assertion, and each of
them completes what its cycle says. -/
theorem transduce_words (n : Nat) :
    ∃ dataRecord completed,
      transduce storeWord WordLoop.initial.dataRecord ((List.range n).map s.word) =
        some (dataRecord, completed) ∧
      s.Recent n dataRecord ∧ completed.length = n ∧
      ∀ m, m < n → ∃ latest, s.Recent (m + 1) latest ∧
        completed[m]? = some (s.completes m latest) :=
  s.transduce_named (fun m dataRecord => storeWord_adcWord dataRecord (s.channel m) (s.value m))
    WordLoop.initial.dataRecord n

/-- The halves of the input buffer hold the words of the stream, one half after
the other: `buffers b` is the content of `adc_input_buffer` while its half number
`b` is processed. -/
def Fills (buffers : Nat → Nat → UInt32) : Prop :=
  ∀ b i, i < rxBufferSize / 2 →
    buffers b (HalfBuffer.completedHalf (b + 1) + i) = s.word (rxBufferSize / 2 * b + i)

theorem advance_completedHalf (b : Nat) :
    HalfBuffer.advance (HalfBuffer.completedHalf (b + 1)) =
      HalfBuffer.completedHalf (b + 1 + 1) := by
  change (if 28 * ((b + 1 + 1) % 2) + 28 ≥ 56 then 0 else 28 * ((b + 1 + 1) % 2) + 28) =
    28 * ((b + 1 + 1 + 1) % 2)
  split
  · omega
  · omega

/-- The assertion of `taskExternalADC` never fails: four bits give the channel. -/
theorem exists_storeWord (dataRecord : Nat → Int16) (adcWord : UInt32) :
    ∃ after completed, storeWord dataRecord adcWord = some (after, completed) := by
  have hassert : (adcWord &&& 0xF000) >>> 12 < 16 := by
    rw [UInt32.lt_iff_toNat_lt, UInt32.toNat_shiftRight, UInt32.toNat_and]
    change (adcWord.toNat &&& 0xF000) >>> 12 < 16
    rw [Nat.shiftRight_eq_div_pow]
    have hle : adcWord.toNat &&& 0xF000 ≤ 0xF000 := Nat.and_le_right
    omega
  unfold storeWord
  dsimp only
  rw [if_pos hassert]
  split
  · exact ⟨_, _, rfl⟩
  · exact ⟨_, _, rfl⟩

/-- Processing half after half is processing the words, whatever they are. -/
theorem transduce_filled {words : Nat → UInt32} {buffers : Nat → Nat → UInt32}
    (h : ∀ b i, i < rxBufferSize / 2 →
      buffers b (HalfBuffer.completedHalf (b + 1) + i) = words (rxBufferSize / 2 * b + i))
    (batches : Nat) :
    ∃ loop completed,
      transduce WordLoop.readHalf .initial ((List.range batches).map buffers) =
        some (loop, completed) ∧
      loop.readBufferStartIndex = HalfBuffer.completedHalf (batches + 1) ∧
      transduce storeWord WordLoop.initial.dataRecord
        ((List.range (rxBufferSize / 2 * batches)).map words) =
          some (loop.dataRecord, completed.flatten) := by
  induction batches with
  | zero => exact ⟨.initial, [], rfl, rfl, rfl⟩
  | succ b ih =>
      obtain ⟨loop, completed, hrun, hstart, hwords⟩ := ih
      obtain ⟨dataRecord, all, hall, _⟩ := exists_transduce exists_storeWord
        WordLoop.initial.dataRecord ((List.range (rxBufferSize / 2 * (b + 1))).map words)
      rw [Nat.mul_succ, List.range_add, List.map_append, List.map_map] at hall
      obtain ⟨last, hlast, rfl⟩ := transduce_drop hall hwords
      have hbuffer : ((List.range (rxBufferSize / 2)).map fun i =>
          buffers b (loop.readBufferStartIndex + i)) =
          (List.range (rxBufferSize / 2)).map (words ∘ fun i => rxBufferSize / 2 * b + i) := by
        refine List.map_congr_left ?_
        intro i hi
        rw [hstart]
        exact h b i (List.mem_range.mp hi)
      have hhalf : loop.readHalf (buffers b) =
          some ({ dataRecord := dataRecord
                  readBufferStartIndex := HalfBuffer.advance loop.readBufferStartIndex },
          last) := by
        unfold WordLoop.readHalf
        dsimp only
        rw [hbuffer, hlast]
        rfl
      refine ⟨⟨dataRecord, HalfBuffer.advance loop.readBufferStartIndex⟩, completed ++ [last],
        ?_, ?_, ?_⟩
      · rw [List.range_succ, List.map_append]
        exact transduce_concat hrun hhalf
      · rw [hstart]
        exact advance_completedHalf b
      · rw [Nat.mul_succ, List.range_add, List.map_append, List.map_map, List.flatten_append,
          List.flatten_singleton]
        exact hall

/-- Processing half after half is processing the words of the stream. -/
theorem transduce_halves {s : WordStream} {buffers : Nat → Nat → UInt32} (h : s.Fills buffers)
    (batches : Nat) :
    ∃ loop completed,
      transduce WordLoop.readHalf .initial ((List.range batches).map buffers) =
        some (loop, completed) ∧
      loop.readBufferStartIndex = HalfBuffer.completedHalf (batches + 1) ∧
      transduce storeWord WordLoop.initial.dataRecord
        ((List.range (rxBufferSize / 2 * batches)).map s.word) =
          some (loop.dataRecord, completed.flatten) :=
  transduce_filled h batches

/-! ## A record and its cycle -/

/-- The record is the one of these values of the channels, before calibration. -/
structure TakenFrom (raw : RawChannel → Nat) (record : Record) : Prop where
  currL1 : (record .currL1).toInt =
    if raw .currL1Pos > raw .currL1Neg then (raw .currL1Pos : Int) else -raw .currL1Neg
  currL2 : (record .currL2).toInt =
    if raw .currL2Pos > raw .currL2Neg then (raw .currL2Pos : Int) else -raw .currL2Neg
  currL3 : (record .currL3).toInt =
    if raw .currL3Pos > raw .currL3Neg then (raw .currL3Pos : Int) else -raw .currL3Neg
  voltL21 : (record .voltL21).toInt = raw .voltL21 - raw .vref
  voltL32 : (record .voltL32).toInt = raw .voltL23 - raw .vref
  voltL13 : (record .voltL13).toInt = raw .voltL13 - raw .vref
  auxVolt : (record .auxVolt).toInt = raw .auxVolt
  tempL1 : (record .tempL1).toInt = raw .tempL1
  tempL2 : (record .tempL2).toInt = raw .tempL2
  tempL3 : (record .tempL3).toInt = raw .tempL3
  vref : (record .vref).toInt = raw .vref

theorem toInt_current (pos neg : BitVec 12) :
    (current (sample pos) (sample neg)).toInt =
      if pos.toNat > neg.toNat then (pos.toNat : Int) else -neg.toNat := by
  have hpos := toInt_sample pos
  have hneg := toInt_sample neg
  have hlt := neg.isLt
  unfold current
  split
  · rename_i hgt
    rw [gt_iff_lt, Int16.lt_iff_toInt_lt, hpos, hneg] at hgt
    rw [if_pos (by omega), hpos]
  · rename_i hle
    rw [gt_iff_lt, Int16.lt_iff_toInt_lt, hpos, hneg] at hle
    have hopposite : (-(sample neg).toInt32).toInt = -neg.toNat := by
      rw [Int32.toInt_neg, Int16.toInt_toInt32, hneg]
      exact Int.bmod_eq_of_le (by omega) (by omega)
    rw [if_neg (by omega), Int32.toInt_toInt16, hopposite]
    exact Int.bmod_eq_of_le (by omega) (by omega)

theorem toInt_lineVoltage (raw vref : BitVec 12) :
    (lineVoltage (sample raw) (sample vref)).toInt = raw.toNat - vref.toNat := by
  have hraw := raw.isLt
  have hvref := vref.isLt
  have hdifference : ((sample raw).toInt32 - (sample vref).toInt32).toInt =
      raw.toNat - vref.toNat := by
    rw [Int32.toInt_sub, Int16.toInt_toInt32, Int16.toInt_toInt32, toInt_sample, toInt_sample]
    exact Int.bmod_eq_of_le (by omega) (by omega)
  unfold lineVoltage
  rw [Int32.toInt_toInt16, hdifference]
  exact Int.bmod_eq_of_le (by omega) (by omega)

/-- The record taken from raw values that are those of the channels. -/
theorem takenFrom_takeRecord {dataRecord : Nat → Int16} {raw : RawChannel → BitVec 12}
    (h : ∀ c ∈ orderOfAcquisition.toList, rawValue dataRecord c = sample (raw c)) :
    TakenFrom (fun c => (raw c).toNat) (takeRecord dataRecord) := by
  have hcurrent {pos neg : RawChannel} (hpos : pos ∈ orderOfAcquisition.toList)
      (hneg : neg ∈ orderOfAcquisition.toList) :
      (current (rawValue dataRecord pos) (rawValue dataRecord neg)).toInt =
        if (raw pos).toNat > (raw neg).toNat then ((raw pos).toNat : Int)
        else -(raw neg).toNat := by
    rw [h pos hpos, h neg hneg]
    exact toInt_current _ _
  have hvoltage {line : RawChannel} (hline : line ∈ orderOfAcquisition.toList) :
      (lineVoltage (rawValue dataRecord line) (rawValue dataRecord .vref)).toInt =
        (raw line).toNat - (raw .vref).toNat := by
    rw [h line hline, h .vref (by decide)]
    exact toInt_lineVoltage _ _
  have hdirect {c : RawChannel} (hc : c ∈ orderOfAcquisition.toList) :
      (rawValue dataRecord c).toInt = (raw c).toNat := by
    rw [h c hc]
    exact toInt_sample _
  exact
    { currL1 := hcurrent (by decide) (by decide)
      currL2 := hcurrent (by decide) (by decide)
      currL3 := hcurrent (by decide) (by decide)
      voltL21 := hvoltage (by decide)
      voltL32 := hvoltage (by decide)
      voltL13 := hvoltage (by decide)
      auxVolt := hdirect (by decide)
      tempL1 := hdirect (by decide)
      tempL2 := hdirect (by decide)
      tempL3 := hdirect (by decide)
      vref := hdirect (by decide) }

/-- Between two last channels that follow each other lies exactly one cycle. -/
theorem next_last {m n : Nat} (hmn : m < n) (hm : s.channel m = lastChannelInAcquireOrder)
    (hn : s.channel n = lastChannelInAcquireOrder)
    (hbetween : ∀ k, m < k → k < n → s.channel k ≠ lastChannelInAcquireOrder) :
    n = m + channelCount := by
  rw [channel_eq_last_iff] at hm hn
  unfold channelCount
  rcases Nat.lt_or_ge (m + 14) n with hlonger | hshort
  · exact absurd (s.channel_eq_last_iff.mpr (by omega)) (hbetween (m + 14) (by omega) hlonger)
  · omega

/-- Where the cycle behind word `m`, if that is of the last channel, has its word
of a channel. -/
def position (m : Nat) (c : RawChannel) : Nat := m + 1 + orderOfAcquisition.toList.idxOf c

theorem channel_position {m : Nat} (hm : s.channel m = lastChannelInAcquireOrder) {c : RawChannel}
    (hc : c ∈ orderOfAcquisition.toList) :
    m < position m c ∧ position m c ≤ m + channelCount ∧ s.channel (position m c) = c := by
  rw [channel_eq_last_iff] at hm
  have hindex : orderOfAcquisition.toList.idxOf c < orderOfAcquisition.toList.length :=
    List.idxOf_lt_length_of_mem hc
  have hlength : orderOfAcquisition.toList.length = 14 := rfl
  have hcount : channelCount = 14 := rfl
  unfold position
  refine ⟨by omega, by omega, ?_⟩
  have hfin : Fin.ofNat 14 (s.start + (m + 1 + orderOfAcquisition.toList.idxOf c)) =
      ⟨orderOfAcquisition.toList.idxOf c, by omega⟩ := by
    apply Fin.ext
    change (s.start + (m + 1 + orderOfAcquisition.toList.idxOf c)) % 14 =
      orderOfAcquisition.toList.idxOf c
    omega
  rw [channel, hfin]
  change orderOfAcquisition.toList[orderOfAcquisition.toList.idxOf c] = c
  exact List.getElem_idxOf hindex

theorem position_channel {m k : Nat} (hm : s.channel m = lastChannelInAcquireOrder) (hmk : m < k)
    (hk : k ≤ m + channelCount) : position m (s.channel k) = k := by
  obtain ⟨hlow, hhigh, hsame⟩ :=
    s.channel_position hm (c := s.channel k) (List.getElem_mem _)
  have hcount : channelCount = 14 := rfl
  rw [channel_eq_iff] at hsame
  omega

/-- However the stream begins and is cut into halves of the input buffer, exactly
the words of `ext_adc_channel_raw_aux_volt` complete a record, and from the second
one on the record is that of the 14 words behind the previous one, one of every
channel. -/
theorem records_of_cycles {buffers : Nat → Nat → UInt32} (h : s.Fills buffers) (batches : Nat) :
    ∃ loop completed,
      transduce WordLoop.readHalf .initial ((List.range batches).map buffers) =
        some (loop, completed) ∧
      completed.flatten.length = rxBufferSize / 2 * batches ∧
      (∀ n, n < rxBufferSize / 2 * batches →
        ((∃ record, completed.flatten[n]? = some (some record)) ↔ s.channel n = .auxVolt)) ∧
      ∀ m n, m < n → n < rxBufferSize / 2 * batches →
        s.channel m = .auxVolt → s.channel n = .auxVolt →
        (∀ k, m < k → k < n → s.channel k ≠ .auxVolt) →
        n = m + channelCount ∧ ∃ record, ∃ position : RawChannel → Nat,
          completed.flatten[n]? = some (some record) ∧
          (∀ c ∈ orderOfAcquisition.toList,
            m < position c ∧ position c ≤ n ∧ s.channel (position c) = c) ∧
          (∀ k, m < k → k ≤ n → position (s.channel k) = k) ∧
          TakenFrom (fun c => (s.value (position c)).toNat) record := by
  obtain ⟨loop, completed, hrun, _, hwords⟩ := transduce_halves h batches
  obtain ⟨dataRecord, all, hall, _, hlength, hcompleted⟩ :=
    s.transduce_words (rxBufferSize / 2 * batches)
  obtain ⟨_, rfl⟩ : loop.dataRecord = dataRecord ∧ completed.flatten = all := by
    rw [hwords] at hall
    cases hall
    exact ⟨rfl, rfl⟩
  refine ⟨loop, completed, hrun, hlength, ?_, ?_⟩
  · intro n hn
    obtain ⟨latest, _, hword⟩ := hcompleted n hn
    rw [hword]
    constructor
    · rintro ⟨record, hrecord⟩
      unfold completes at hrecord
      split at hrecord
      · rename_i hlast
        exact hlast
      · cases hrecord
    · intro hlast
      exact ⟨takeRecord latest, congrArg some (s.completes_of_last hlast latest)⟩
  · intro m n hmn hn hm hlast hbetween
    have hnext := s.next_last hmn hm hlast hbetween
    obtain ⟨latest, hlatest, hword⟩ := hcompleted n hn
    have hposition : ∀ c ∈ orderOfAcquisition.toList,
        m < position m c ∧ position m c ≤ n ∧ s.channel (position m c) = c := by
      intro c hc
      rw [hnext]
      exact s.channel_position hm hc
    refine ⟨hnext, takeRecord latest, position m, ?_, hposition, ?_, ?_⟩
    · rw [hword, s.completes_of_last hlast latest]
    · intro k hmk hk
      exact s.position_channel hm hmk (by omega)
    · refine takenFrom_takeRecord ?_
      intro c hc
      obtain ⟨hlow, hhigh, hsame⟩ := hposition c hc
      have hvalue := hlatest (position m c) (by omega) (by omega)
      rwa [hsame] at hvalue

/-- A stream that begins in the middle of the order, and a buffer that holds it. -/
theorem records_of_cycles_shifted :
    ∃ loop completed,
      transduce WordLoop.readHalf .initial ((List.range 3).map fun b i =>
        (WordStream.mk 5 fun n => BitVec.ofNat 12 n).word
          (28 * b + (i - HalfBuffer.completedHalf (b + 1)))) = some (loop, completed) ∧
      completed.flatten.length = 84 := by
  have hfills : (WordStream.mk 5 fun n => BitVec.ofNat 12 n).Fills fun b i =>
      (WordStream.mk 5 fun n => BitVec.ofNat 12 n).word
        (28 * b + (i - HalfBuffer.completedHalf (b + 1))) := by
    intro b i _
    dsimp only
    rw [Nat.add_sub_cancel_left]
    rfl
  obtain ⟨loop, completed, hrun, hlength, _⟩ := records_of_cycles _ hfills 3
  exact ⟨loop, completed, hrun, hlength⟩

end WordStream

end WindradLogger.Adc
