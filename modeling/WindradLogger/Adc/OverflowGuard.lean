import WindradLogger.Adc.CalibratedSamples

set_option autoImplicit false

/-!
# The guard of the sums of squares (`task_external_adc.c`)

`effectiving_test_possible_overflow` grows by `4096 * 4096` with every record, which
is more than the square of any raw value.  The sums take the squares of calibrated
values: the guard bounds them exactly as long as every calibration in use keeps
every raw value within `4096`.
-/

namespace WindradLogger.Adc

open WindradLogger.Flash WindradLogger.Eeprom WindradLogger.Lib WindradLogger.Storage

/-! ## The six sums -/

/-- The index of a sum of squares, in `currents_effectiving` or in
`voltages_effectiving`.  There is none of `u_aux`. -/
inductive EffectiveIndex where
  | current (i : CurrentIndex)
  | voltage (i : VoltageIndex) (line : i ≠ .aux)

namespace EffectiveIndex

/-- The channel whose squares are summed. -/
def channel : EffectiveIndex → ExtAdcValue
  | .current i => i.channel
  | .voltage i _ => i.channel

/-- The raw channel that makes the value positive. -/
def positive : EffectiveIndex → RawChannel
  | .current .l1 => .currL1Pos
  | .current .l2 => .currL2Pos
  | .current .l3 => .currL3Pos
  | .voltage .l21 _ => .voltL21
  | .voltage .l32 _ => .voltL23
  | .voltage .l13 _ => .voltL13
  | .voltage .aux line => absurd rfl line

/-- The raw channel that makes the value negative. -/
def negative : EffectiveIndex → RawChannel
  | .current .l1 => .currL1Neg
  | .current .l2 => .currL2Neg
  | .current .l3 => .currL3Neg
  | .voltage _ _ => .vref

/-- The value from those of the two raw channels. -/
def signed : EffectiveIndex → Nat → Nat → Int
  | .current _, pos, neg => if pos > neg then pos else -neg
  | .voltage _ _, pos, neg => pos - neg

/-- The two raw channels are different ones, and neither completes a record. -/
theorem channels_ne (i : EffectiveIndex) :
    i.positive ≠ i.negative ∧ i.positive ≠ .auxVolt ∧ i.negative ≠ .auxVolt := by
  cases i with
  | current i => cases i <;> decide
  | voltage i line =>
      cases i with
      | l21 => exact ⟨nofun, nofun, nofun⟩
      | l32 => exact ⟨nofun, nofun, nofun⟩
      | l13 => exact ⟨nofun, nofun, nofun⟩
      | aux => exact absurd rfl line

/-- The values of both raw channels have twelve bits. -/
theorem natAbs_signed_le (i : EffectiveIndex) (pos neg : BitVec 12) :
    (i.signed pos.toNat neg.toNat).natAbs ≤ 4095 := by
  have hpos := pos.isLt
  have hneg := neg.isLt
  cases i with
  | current i =>
      change (if pos.toNat > neg.toNat then (pos.toNat : Int) else -neg.toNat).natAbs ≤ 4095
      split
      · omega
      · omega
  | voltage i line =>
      change ((pos.toNat : Int) - neg.toNat).natAbs ≤ 4095
      omega

theorem signed_zero_right (i : EffectiveIndex) (n : Nat) : i.signed n 0 = n := by
  cases i with
  | current i =>
      change (if n > 0 then (n : Int) else -(0 : Nat)) = n
      split
      · rfl
      · omega
  | voltage i line => exact Int.sub_zero _

theorem signed_zero_left (i : EffectiveIndex) (n : Nat) : i.signed 0 n = -n := by
  cases i with
  | current i => rfl
  | voltage i line => exact Int.zero_sub _

end EffectiveIndex

/-- The value of each of the six channels in a record taken from raw values. -/
theorem WordStream.TakenFrom.signed {raw : RawChannel → Nat} {record : Record}
    (h : TakenFrom raw record) (i : EffectiveIndex) :
    (record i.channel).toInt = i.signed (raw i.positive) (raw i.negative) := by
  cases i with
  | current i =>
      cases i with
      | l1 => exact h.currL1
      | l2 => exact h.currL2
      | l3 => exact h.currL3
  | voltage i line =>
      cases i with
      | l21 => exact h.voltL21
      | l32 => exact h.voltL32
      | l13 => exact h.voltL13
      | aux => exact absurd rfl line

namespace AdcTask

/-- `currents_effectiving` and `voltages_effectiving` -/
def effectiving (s : AdcTask) : EffectiveIndex → UInt64
  | .current i => s.currentsEffectiving i
  | .voltage i _ => s.voltagesEffectiving i

/-- No sum is above the guard. -/
def Guards (s : AdcTask) : Prop :=
  ∀ i, s.effectiving i ≤ s.effectivingTestPossibleOverflow

/-- The task when it tests the guard, after a record has been added. -/
def atGuardTest (s : AdcTask) (record : Record) : AdcTask :=
  (s.detectCrossing record).accumulate record

/-- The guard does its work for a record: when it is tested no sum is above it, and
if it passes then every sum has grown by exactly the square of its value. -/
structure GuardsRecord (s : AdcTask) (record : Record) : Prop where
  guards : (s.atGuardTest record).Guards
  exact : (s.atGuardTest record).effectivingTestPossibleOverflow < (1 : UInt64) <<< 63 →
    ∀ i, ((s.atGuardTest record).effectiving i).toNat =
      (s.effectiving i).toNat + (value i.channel record).natAbs ^ 2

section

variable (s : AdcTask) (record : Record) (i : EffectiveIndex)

theorem addRecord_effectiving :
    (s.addRecord record).effectiving i = s.effectiving i + square (record i.channel) := by
  obtain ⟨_, _, _, _, h⟩ := s.detectCrossing_frame record
  rw [addRecord, h]
  cases i with
  | current i => rfl
  | voltage i line => exact if_neg line

/-- The number of records, which is counted next, is not part of the guard. -/
theorem atGuardTest_effectiving :
    (s.atGuardTest record).effectiving i = (s.addRecord record).effectiving i := by
  cases i <;> rfl

@[simp] theorem atGuardTest_effectivingTestPossibleOverflow :
    (s.atGuardTest record).effectivingTestPossibleOverflow =
      (s.addRecord record).effectivingTestPossibleOverflow := rfl

theorem closeWindow_effectiving (roundSqrt : UInt64 → UInt16) (closeTick : UInt32) :
    (s.closeWindow roundSqrt closeTick).effectiving i = 0 := by
  cases i with
  | current i => rfl
  | voltage i line => exact if_neg line

theorem initial_effectiving (tick : UInt32) : (initial tick).effectiving i = 0 := by
  cases i <;> rfl

end

/-- An evaluated record has passed the guard. -/
theorem guard_of_evaluateRecord {roundSqrt : UInt64 → UInt16} {s s' : AdcTask} {record : Record}
    {tick closeTick : UInt32}
    (h : s.evaluateRecord roundSqrt record tick closeTick = some s') :
    (s.addRecord record).effectivingTestPossibleOverflow < (1 : UInt64) <<< 63 := by
  unfold evaluateRecord at h
  dsimp only at h
  split at h
  · rename_i hpass
    exact hpass
  · cases h

end AdcTask

/-! ## Calibrated values -/

/-- What `adc_channels` keeps of the calibrated value of a channel. -/
def storedValue (calibrationData : Calibration) (channel : ExtAdcValue) (x : Int) : Int :=
  (calibratedValue calibrationData channel x).bmod (2 ^ 16)

/-- No raw value of the six channels is stored as more than 4096 or less than -4096. -/
def WithinGuard (calibrationData : Calibration) : Prop :=
  ∀ (i : EffectiveIndex) (x : Int), x.natAbs ≤ 4095 →
    (storedValue calibrationData i.channel x).natAbs ≤ 4096

theorem value_calibrate (calibrationData : Calibration) (record : Record)
    (channel : ExtAdcValue) :
    value channel (calibrate calibrationData record) =
      storedValue calibrationData channel (record channel).toInt := by
  obtain ⟨-, hreturned⟩ := calibApplyRecorded_computes
    (coefficientsFor calibrationData channel (record channel).toInt)
    (natAbs_int16_le (record channel))
  rw [value_calibApplyRecorded, Int16.toInt_toInt32] at hreturned
  unfold value calibrate storedValue
  rw [applyCalibration_eq, Int32.toInt_toInt16, hreturned]
  exact Int.bmod_bmod_of_dvd (by decide)

/-- The square is exact: it fits into the `int` it is computed in. -/
theorem toNat_square (v : Int16) : (AdcTask.square v).toNat = v.toInt.natAbs ^ 2 := by
  have hproduct : (v.toInt32 * v.toInt32).toInt = v.toInt * v.toInt := by
    have hbounds := product_bounds (a := v.toInt) (b := v.toInt)
      (value_bounds .currL1 fun _ => v) (value_bounds .currL1 fun _ => v)
    rw [Int32.toInt_mul, Int16.toInt_toInt32]
    exact Int.bmod_eq_of_le (by omega) (by omega)
  have hsquare : v.toInt * v.toInt = (v.toInt.natAbs ^ 2 : Nat) := by
    rw [Nat.pow_two, Int.natCast_mul, Int.natAbs_mul_self']
  have hnonneg : 0 ≤ (v.toInt32 * v.toInt32).toInt64 := by
    rw [Int64.le_iff_toInt_le, Int32.toInt_toInt64, hproduct, hsquare]
    exact Int.natCast_nonneg _
  unfold AdcTask.square
  rw [Int64.toNat_toUInt64_of_le hnonneg, Int64.toNatClampNeg, Int32.toInt_toInt64, hproduct,
    hsquare]
  exact Int.toNat_natCast _

/-! ## Words have values of twelve bits -/

/-- The values in `data_record` have twelve bits. -/
def TwelveBits (dataRecord : Nat → Int16) : Prop :=
  ∀ c : RawChannel, ∃ v : BitVec 12, rawValue dataRecord c = sample v

theorem value_word (word : UInt32) :
    (word &&& 0x0FFF).toUInt16.toInt16 = sample (BitVec.ofNat 12 word.toNat) := by
  have hmask : (word &&& 0x0FFF).toUInt16.toNat = word.toNat % 2 ^ 12 := by
    rw [UInt32.toNat_toUInt16, UInt32.toNat_and]
    change (word.toNat &&& (2 ^ 12 - 1)) % 2 ^ 16 = word.toNat % 2 ^ 12
    rw [Nat.and_two_pow_sub_one_eq_mod]
    omega
  apply Int16.toInt_inj.mp
  rw [toInt_toInt16, hmask, toInt_sample, BitVec.toNat_ofNat]
  exact Int.bmod_eq_of_le (by omega) (by omega)

/-- Whatever the word, it stores a value of twelve bits, and a record it completes is
taken from what is stored then. -/
theorem TwelveBits.storeWord {dataRecord dataRecord' : Nat → Int16} {word : UInt32}
    {completed : Option Record} (h : TwelveBits dataRecord)
    (hstore : storeWord dataRecord word = some (dataRecord', completed)) :
    TwelveBits dataRecord' ∧
      ∀ record, completed = some record → record = takeRecord dataRecord' := by
  have hupdated : TwelveBits (Function.update dataRecord ((word &&& 0xF000) >>> 12).toNat
      (word &&& 0x0FFF).toUInt16.toInt16) := by
    intro c
    unfold rawValue
    rcases eq_or_ne c.number ((word &&& 0xF000) >>> 12).toNat with hsame | hother
    · rw [hsame, Function.update_self]
      exact ⟨_, value_word word⟩
    · rw [Function.update_of_ne hother]
      exact h c
  unfold Adc.storeWord at hstore
  dsimp only at hstore
  split at hstore
  · split at hstore
    · cases hstore
      refine ⟨hupdated, ?_⟩
      intro record hrecord
      cases hrecord
      rfl
    · cases hstore
      exact ⟨hupdated, nofun⟩
  · cases hstore

/-- The six channels of a record have values of twelve bits and a sign. -/
theorem TwelveBits.natAbs_le {dataRecord : Nat → Int16} (h : TwelveBits dataRecord)
    (i : EffectiveIndex) : (takeRecord dataRecord i.channel).toInt.natAbs ≤ 4095 := by
  choose raw hraw using h
  rw [(WordStream.takenFrom_takeRecord fun c _ => hraw c).signed i]
  exact i.natAbs_signed_le _ _

/-! ## Runs -/

/-- A word of the input buffer, and the calibration in use when it is processed. -/
structure CalibratedRead where
  calibrationData : Calibration
  read : WordRead

/-- `taskExternalADC`, one word with the calibration of that moment.  The sums and
the guard are locals of the task, so no other task changes them. -/
def TaskExternalAdc.processRead (roundSqrt : UInt64 → UInt16) (t : TaskExternalAdc)
    (r : CalibratedRead) : Option TaskExternalAdc :=
  t.processWord roundSqrt r.calibrationData r.read

/-- With any of these calibrations in use at any time the guard is what it is meant to
be: after every run no sum is above it, and it does its work for every record that the
next word completes. -/
def ReallyGuards (roundSqrt : UInt64 → UInt16) (calibrations : Calibration → Prop) : Prop :=
  ∀ (tick : UInt32) (reads : List CalibratedRead) (t : TaskExternalAdc),
    (∀ r ∈ reads, calibrations r.calibrationData) →
    runFrom (TaskExternalAdc.processRead roundSqrt) (.initial tick) reads = some t →
    t.acquisition.task.Guards ∧
      ∀ calibrationData word dataRecord record, calibrations calibrationData →
        storeWord t.dataRecord word = some (dataRecord, some record) →
        t.acquisition.task.GuardsRecord (calibrate calibrationData record)

/-! ### Within the guard -/

namespace AdcTask

/-- The guard has not been tripped, and no sum is above it. -/
structure Guarded (s : AdcTask) : Prop where
  guards : s.Guards
  below : s.effectivingTestPossibleOverflow.toNat < 2 ^ 63

theorem guarded_of_zero {s : AdcTask} (hguard : s.effectivingTestPossibleOverflow = 0)
    (hsums : ∀ i, s.effectiving i = 0) : s.Guarded where
  guards := by
    intro i
    rw [hguard, hsums]
    exact UInt64.le_refl _
  below := by
    rw [hguard]
    decide

variable {s : AdcTask} {record : Record}

/-- The guard grows by the square of 4096. -/
theorem Guarded.toNat_guard (h : s.Guarded) (record : Record) :
    (s.addRecord record).effectivingTestPossibleOverflow.toNat =
      s.effectivingTestPossibleOverflow.toNat + 4096 ^ 2 := by
  have hbelow := h.below
  have hgrowth : (4096 * 4096 : UInt64).toNat = 4096 ^ 2 := by decide
  rw [addRecord_effectivingTestPossibleOverflow, UInt64.toNat_add, hgrowth]
  exact Nat.mod_eq_of_lt (by omega)

/-- A sum grows by no more. -/
theorem Guarded.toNat_effectiving (h : s.Guarded) {i : EffectiveIndex}
    (hvalue : (value i.channel record).natAbs ≤ 4096) :
    ((s.addRecord record).effectiving i).toNat =
      (s.effectiving i).toNat + (value i.channel record).natAbs ^ 2 := by
  have hbelow := h.below
  have hsum := UInt64.le_iff_toNat_le.mp (h.guards i)
  have hsquare := Nat.pow_le_pow_left hvalue 2
  rw [addRecord_effectiving, UInt64.toNat_add, toNat_square]
  exact Nat.mod_eq_of_lt (by unfold value at hsquare; omega)

/-- A record within the guard. -/
theorem Guarded.guardsRecord (h : s.Guarded)
    (hrecord : ∀ i : EffectiveIndex, (value i.channel record).natAbs ≤ 4096) :
    s.GuardsRecord record where
  guards := by
    intro i
    have hsum := UInt64.le_iff_toNat_le.mp (h.guards i)
    have hsquare := Nat.pow_le_pow_left (hrecord i) 2
    rw [atGuardTest_effectiving, UInt64.le_iff_toNat_le, h.toNat_effectiving (hrecord i)]
    exact Nat.le_trans (Nat.add_le_add hsum hsquare) (Nat.le_of_eq (h.toNat_guard record).symm)
  exact := by
    intro _ i
    rw [atGuardTest_effectiving]
    exact h.toNat_effectiving (hrecord i)

/-- Evaluating a record within the guard keeps the sums below it. -/
theorem Guarded.evaluateRecord {roundSqrt : UInt64 → UInt16} {s' : AdcTask}
    {tick closeTick : UInt32} (h : s.Guarded)
    (hrecord : ∀ i : EffectiveIndex, (value i.channel record).natAbs ≤ 4096)
    (hevaluated : s.evaluateRecord roundSqrt record tick closeTick = some s') : s'.Guarded := by
  have hpassed := guard_of_evaluateRecord hevaluated
  obtain ⟨-, rfl⟩ | ⟨-, rfl⟩ := evaluateRecord_cases hevaluated
  · refine ⟨?_, UInt64.lt_iff_toNat_lt.mp hpassed⟩
    intro i
    rw [← atGuardTest_effectiving]
    exact (h.guardsRecord hrecord).guards i
  · exact guarded_of_zero rfl fun i => closeWindow_effectiving _ i roundSqrt closeTick

end AdcTask

/-- What holds in a run within the guard. -/
structure TaskExternalAdc.Guarded (t : TaskExternalAdc) : Prop where
  samples : TwelveBits t.dataRecord
  task : t.acquisition.task.Guarded

theorem TaskExternalAdc.guarded_initial (tick : UInt32) : (initial tick).Guarded where
  samples := fun _ => ⟨0, rfl⟩
  task := AdcTask.guarded_of_zero rfl fun i => AdcTask.initial_effectiving i tick

/-- The record that a word completes is within the guard once it is calibrated. -/
theorem WithinGuard.natAbs_le {calibrationData : Calibration} (h : WithinGuard calibrationData)
    {dataRecord : Nat → Int16} (hsamples : TwelveBits dataRecord) (i : EffectiveIndex) :
    (value i.channel (calibrate calibrationData (takeRecord dataRecord))).natAbs ≤ 4096 := by
  rw [value_calibrate]
  exact h i _ (hsamples.natAbs_le i)

/-- A word keeps the sums below the guard. -/
theorem TaskExternalAdc.Guarded.processRead {roundSqrt : UInt64 → UInt16}
    {t t' : TaskExternalAdc} {r : CalibratedRead} (h : t.Guarded)
    (hwithin : WithinGuard r.calibrationData) (hread : t.processRead roundSqrt r = some t') :
    t'.Guarded := by
  obtain ⟨hstore, hsame⟩ | ⟨record, hstore, hprocess⟩ := processWord_cases hread
  · obtain ⟨hsamples, -⟩ := h.samples.storeWord hstore
    refine ⟨hsamples, ?_⟩
    rw [hsame]
    exact h.task
  · obtain ⟨hsamples, hrecord⟩ := h.samples.storeWord hstore
    obtain rfl := hrecord record rfl
    obtain ⟨hevaluated, -⟩ := Acquisition.processRecord_eq_some.mp hprocess
    exact ⟨hsamples, h.task.evaluateRecord (hwithin.natAbs_le hsamples) hevaluated⟩

/-- Calibrations that keep the raw values within 4096 let the guard do its work. -/
theorem reallyGuards_of_withinGuard {calibrations : Calibration → Prop}
    (h : ∀ calibrationData, calibrations calibrationData → WithinGuard calibrationData)
    (roundSqrt : UInt64 → UInt16) : ReallyGuards roundSqrt calibrations := by
  intro tick reads t hreads hrun
  have hguarded : (∀ r ∈ reads, calibrations r.calibrationData) → t.Guarded := by
    refine runFrom_invariant
      (fun past t => (∀ r ∈ past, calibrations r.calibrationData) → t.Guarded) ?_ ?_ hrun
    · intro _
      exact TaskExternalAdc.guarded_initial tick
    · intro past before r after ih hread hpast
      rw [List.forall_mem_append, List.forall_mem_singleton] at hpast
      exact (ih hpast.1).processRead (h _ hpast.2) hread
  obtain ⟨hsamples, htask⟩ := hguarded hreads
  refine ⟨htask.guards, ?_⟩
  intro calibrationData word dataRecord record hcalibration hstore
  obtain ⟨hlater, hrecord⟩ := hsamples.storeWord hstore
  obtain rfl := hrecord record rfl
  exact htask.guardsRecord ((h _ hcalibration).natAbs_le hlater)

/-! ### Not within the guard -/

/-- `data_record` after a first word. -/
def afterWord (c : RawChannel) (v : BitVec 12) : Nat → Int16 :=
  Function.update (fun _ => 0) c.number (sample v)

/-- `data_record` after a first word and one that completes a record. -/
def afterRecord (c : RawChannel) (v : BitVec 12) : Nat → Int16 :=
  Function.update (afterWord c v) RawChannel.auxVolt.number (sample 0)

theorem storeWord_first {c : RawChannel} (hc : c ≠ .auxVolt) (v : BitVec 12) :
    storeWord (fun _ => 0) (adcWord c v) = some (afterWord c v, none) := by
  rw [storeWord_adcWord, if_neg (show c ≠ lastChannelInAcquireOrder from hc)]
  rfl

theorem rawValue_afterRecord {c : RawChannel} (hc : c ≠ .auxVolt) (v : BitVec 12)
    (c' : RawChannel) :
    rawValue (afterRecord c v) c' = sample (if c' = c then v else 0) := by
  unfold rawValue afterRecord afterWord
  rcases eq_or_ne c' .auxVolt with rfl | hother
  · rw [Function.update_self, if_neg hc.symm]
  · rw [Function.update_of_ne fun h => hother (RawChannel.number_injective h)]
    split
    · rename_i hsame
      rw [hsame, Function.update_self]
    · rename_i hne
      rw [Function.update_of_ne fun h => hne (RawChannel.number_injective h)]
      rfl

theorem toInt_takeRecord_afterRecord {c : RawChannel} (hc : c ≠ .auxVolt) (v : BitVec 12)
    (i : EffectiveIndex) :
    (takeRecord (afterRecord c v) i.channel).toInt =
      i.signed (if i.positive = c then v else 0).toNat (if i.negative = c then v else 0).toNat :=
  (WordStream.takenFrom_takeRecord fun c' _ => rawValue_afterRecord hc v c').signed i

theorem storeWord_last (c : RawChannel) (v : BitVec 12) :
    storeWord (afterWord c v) (adcWord .auxVolt 0) =
      some (afterRecord c v, some (takeRecord (afterRecord c v))) := by
  rw [storeWord_adcWord, if_pos (show RawChannel.auxVolt = lastChannelInAcquireOrder from rfl)]
  rfl

/-- Any value can be that of a channel in the first record: a single word sets the
raw channel for its sign. -/
theorem exists_firstRecord (i : EffectiveIndex) {x : Int} (hx : x.natAbs ≤ 4095) :
    ∃ c : RawChannel, ∃ v : BitVec 12, c ≠ .auxVolt ∧
      (takeRecord (afterRecord c v) i.channel).toInt = x := by
  obtain ⟨hne, hpositive, hnegative⟩ := i.channels_ne
  have hvalue : (BitVec.ofNat 12 x.natAbs).toNat = x.natAbs := by
    rw [BitVec.toNat_ofNat]
    omega
  rcases Int.le_total 0 x with hnonneg | hneg
  · refine ⟨i.positive, BitVec.ofNat 12 x.natAbs, hpositive, ?_⟩
    rw [toInt_takeRecord_afterRecord hpositive, if_pos rfl, if_neg hne.symm, hvalue]
    exact (i.signed_zero_right _).trans (Int.natAbs_of_nonneg hnonneg)
  · refine ⟨i.negative, BitVec.ofNat 12 x.natAbs, hnegative, ?_⟩
    rw [toInt_takeRecord_afterRecord hnegative, if_neg hne, if_pos rfl, hvalue]
    refine (i.signed_zero_left _).trans ?_
    omega

/-- The first record of all bounds what is stored for any raw value. -/
theorem withinGuard_of_reallyGuards {roundSqrt : UInt64 → UInt16}
    {calibrations : Calibration → Prop} (h : ReallyGuards roundSqrt calibrations)
    {calibrationData : Calibration} (hcalibration : calibrations calibrationData) :
    WithinGuard calibrationData := by
  intro i x hx
  obtain ⟨c, v, hc, rfl⟩ := exists_firstRecord i hx
  have hrun : runFrom (TaskExternalAdc.processRead roundSqrt) (.initial 0)
      [⟨calibrationData, ⟨adcWord c v, 0, 0⟩⟩] =
        some ⟨afterWord c v, .initial 0⟩ := by
    refine runFrom_cons_eq_some.mpr ⟨_, ?_, rfl⟩
    unfold TaskExternalAdc.processRead TaskExternalAdc.processWord TaskExternalAdc.initial
    dsimp only
    rw [storeWord_first hc v]
    rfl
  obtain ⟨-, hrecords⟩ := h 0 _ _ (by simpa using hcalibration) hrun
  have hguards := (hrecords _ _ _ _ hcalibration (storeWord_last c v)).guards i
  rw [AdcTask.atGuardTest_effectiving, AdcTask.addRecord_effectiving,
    AdcTask.atGuardTest_effectivingTestPossibleOverflow,
    AdcTask.addRecord_effectivingTestPossibleOverflow] at hguards
  change (AdcTask.initial 0).effectiving i + _ ≤ 0 + 4096 * 4096 at hguards
  rw [AdcTask.initial_effectiving, UInt64.zero_add, UInt64.le_iff_toNat_le, toNat_square] at hguards
  rw [← value_calibrate]
  exact (Nat.pow_le_pow_iff_left (by decide)).mp hguards

/-- The overflow guard bounds the sums of squares exactly when every calibration in
use keeps every raw value of the six channels within 4096: in every run, with these
calibrations in use in any order, no sum is above the guard, neither between two
records nor when the guard is tested, and where the test passes no sum has overflowed. -/
theorem reallyGuards_iff (roundSqrt : UInt64 → UInt16) (calibrations : Calibration → Prop) :
    ReallyGuards roundSqrt calibrations ↔
      ∀ calibrationData, calibrations calibrationData → WithinGuard calibrationData := by
  constructor
  · intro h calibrationData hcalibration
    exact withinGuard_of_reallyGuards h hcalibration
  · intro h
    exact reallyGuards_of_withinGuard h roundSqrt

/-- The calibration that doubles the positive values of every channel. -/
def doubled : Calibration :=
  { defaultCalibration with
    channelPos := Vector.replicate adcExternalValueCount
      { unitCoefficients with c1Over65536 := BitVec.ofNat 32 (2 * 65536) } }

/-- With the calibration that `set_calibration_data` is given here, the largest raw
value takes a sum above the guard in the first record. -/
theorem not_reallyGuards :
    ¬ ReallyGuards (fun _ => 0) fun calibrationData => calibrationData =
      calibGet (finalState ((setCalibrationData doubled).run (afterBoot secondSlotNext))) := by
  intro h
  have hset := calibGet_setCalibrationData (afterBoot secondSlotNext) doubled
  have hwithin := withinGuard_of_reallyGuards h hset.symm (.voltage .l21 (by decide)) 4095
    (by decide)
  exact absurd hwithin (by decide)

/-- The calibration that changes nothing lets the guard do its work. -/
theorem withinGuard_of_isIdentity {calibrationData : Calibration}
    (h : IsIdentity calibrationData) : WithinGuard calibrationData := by
  intro i x hx
  have hround : (Int16.ofInt x).toInt = x := Int16.toInt_ofInt_of_le (by omega) (by omega)
  have hvalue := value_calibrate calibrationData (fun _ => Int16.ofInt x) i.channel
  rw [hround] at hvalue
  rw [← hvalue, value, calibrate, h.1, Int32.toInt_toInt16, Int16.toInt_toInt32, hround,
    Int.bmod_eq_of_le (by omega) (by omega)]
  exact Nat.le_succ_of_le hx

/-- So the guard works with the calibration that `calib_init` falls back to. -/
theorem reallyGuards_of_isIdentity (roundSqrt : UInt64 → UInt16) :
    ReallyGuards roundSqrt IsIdentity :=
  reallyGuards_of_withinGuard (fun _ => withinGuard_of_isIdentity) roundSqrt

end WindradLogger.Adc
