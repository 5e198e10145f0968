import WindradLogger.Adc.HalfBuffer
import WindradLogger.Lib.Width

set_option autoImplicit false

/-!
# The frequency read-out (`task_external_adc.c`)

`extadc_get_frequency` computes the sample clock from the registers of the I2S
peripheral, and from it and the period, which is counted in samples, the frequency
in Hz.  Four divisions follow each other; here a division by zero is `none`.
-/

namespace WindradLogger.Adc

open WindradLogger.Lib

/-- The division of two `uint64_t`. -/
def divideU64 (a b : UInt64) : Option UInt64 := if b = 0 then none else some (a / b)

/-- The division of two `uint32_t`. -/
def divideU32 (a b : UInt32) : Option UInt32 := if b = 0 then none else some (a / b)

/-- What `extadc_get_frequency` reads of the I2S peripheral: the clock that
`get_i2s3_clock` returns, and the fields `I2SDIV` and `ODD` of `I2SPR`. -/
structure I2sConfiguration where
  spiFrequency : UInt64
  i2sdiv : UInt32
  odd : UInt32
  deriving DecidableEq, Repr

/-- `extadc_get_frequency`, `i2s_sample_clock`. -/
def i2sSampleClock (c : I2sConfiguration) : Option UInt32 := do
  let i2sBitClock ← divideU64 c.spiFrequency ((2 * c.i2sdiv + c.odd) * 2).toUInt64
  divideU32 i2sBitClock.toUInt32 (32 * UInt32.ofNat channelCount)

/-- `extadc_get_frequency` -/
def extadcGetFrequency (c : I2sConfiguration) (periodLength : Int32) : Option UInt16 := do
  let i2sSampleClock ← i2sSampleClock c
  let sampleTimeUsOver10 ← divideU32 (100 * 1000 * 1000) i2sSampleClock
  let periodLength_ := periodLength.toUInt32
  let periodLengthUsOver10 : UInt64 :=
    if periodLength_ ≠ 0 then periodLength_.toUInt64 * sampleTimeUsOver10.toUInt64 else 0
  let frequency ← divideU64 (100 * 1000 * 1000) periodLengthUsOver10
  return frequency.toUInt16

theorem divideU64_eq_some {a b : UInt64} (h : b ≠ 0) : divideU64 a b = some (a / b) := if_neg h

theorem divideU32_eq_some {a b : UInt32} (h : b ≠ 0) : divideU32 a b = some (a / b) := if_neg h

/-- The read-out divides by zero nowhere, is 0 without a period, and otherwise is
the frequency of `period_length` samples, rounded down. -/
structure FrequencyExact (fs : UInt32) (periodLength : Int32) (result : Option UInt16) : Prop where
  total : result ≠ none
  zero : periodLength = 0 → result = some 0
  exact : periodLength ≠ 0 → ∀ frequency, result = some frequency →
    (frequency.toNat : Int) =
      Int.fdiv (10 ^ 8) (periodLength.toInt * (10 ^ 8 / fs.toNat : Nat))

section Readout

variable {c : I2sConfiguration} {fs : UInt32} {periodLength : Int32}

/-- A sample takes at least `2000` and at most `10 ^ 8` hundredths of a
microsecond. -/
theorem sampleTime_bounds (hlow : 1 ≤ fs.toNat) (hhigh : fs.toNat ≤ 50000) :
    2000 ≤ 10 ^ 8 / fs.toNat ∧ 10 ^ 8 / fs.toNat ≤ 10 ^ 8 := by
  refine ⟨?_, Nat.div_le_self _ _⟩
  rw [Nat.le_div_iff_mul_le hlow]
  omega

/-- Without a period the last division is one by zero. -/
theorem extadcGetFrequency_zero (hclock : i2sSampleClock c = some fs) :
    extadcGetFrequency c 0 = none := by
  unfold extadcGetFrequency
  rw [hclock]
  simp only [Option.bind_eq_bind, Option.bind_some]
  cases divideU32 (100 * 1000 * 1000) fs with
  | none => rfl
  | some _ => rfl

/-- With a period, read as a `uint32_t`, the read-out is exact and fits its type. -/
theorem extadcGetFrequency_of_ne_zero (hclock : i2sSampleClock c = some fs)
    (hlow : 1 ≤ fs.toNat) (hhigh : fs.toNat ≤ 50000) (hperiod : periodLength ≠ 0) :
    ∃ frequency, extadcGetFrequency c periodLength = some frequency ∧
      frequency.toNat = 10 ^ 8 / (periodLength.toUInt32.toNat * (10 ^ 8 / fs.toNat)) := by
  obtain ⟨htime, htime'⟩ := sampleTime_bounds hlow hhigh
  have hperiodNat : 0 < periodLength.toUInt32.toNat := by
    rw [Nat.pos_iff_ne_zero]
    intro hzero
    have hnone : periodLength.toUInt32 = 0 := UInt32.toNat_inj.mp hzero
    exact hperiod (congrArg UInt32.toInt32 hnone)
  have hfs : fs ≠ 0 := by
    rintro rfl
    exact absurd hlow (by decide)
  have hsample : ((100 * 1000 * 1000 : UInt32) / fs).toUInt64.toNat = 10 ^ 8 / fs.toNat := by
    rw [UInt32.toNat_toUInt64, UInt32.toNat_div]
    rfl
  have hproduct : (periodLength.toUInt32.toUInt64 *
      ((100 * 1000 * 1000 : UInt32) / fs).toUInt64).toNat =
        periodLength.toUInt32.toNat * (10 ^ 8 / fs.toNat) := by
    have hlt := periodLength.toUInt32.toNat_lt
    have hmul : periodLength.toUInt32.toNat * (10 ^ 8 / fs.toNat) ≤ 2 ^ 32 * 10 ^ 8 :=
      Nat.mul_le_mul (Nat.le_of_lt hlt) htime'
    rw [UInt64.toNat_mul, UInt32.toNat_toUInt64, hsample, Nat.mod_eq_of_lt (by omega)]
  have hlarge : 2000 ≤ periodLength.toUInt32.toNat * (10 ^ 8 / fs.toNat) := by
    calc 2000 ≤ 10 ^ 8 / fs.toNat := htime
      _ ≤ periodLength.toUInt32.toNat * (10 ^ 8 / fs.toNat) := Nat.le_mul_of_pos_left _ hperiodNat
  have hne : periodLength.toUInt32.toUInt64 *
      ((100 * 1000 * 1000 : UInt32) / fs).toUInt64 ≠ 0 := by
    intro hzero
    rw [hzero] at hproduct
    change 0 = _ at hproduct
    omega
  have hperiod' : periodLength.toUInt32 ≠ 0 := by
    intro hzero
    rw [hzero] at hperiodNat
    exact absurd hperiodNat (by decide)
  refine ⟨((100 * 1000 * 1000 : UInt64) / (periodLength.toUInt32.toUInt64 *
    ((100 * 1000 * 1000 : UInt32) / fs).toUInt64)).toUInt16, ?_, ?_⟩
  · unfold extadcGetFrequency
    simp only [hclock, divideU32_eq_some hfs, Option.bind_eq_bind, Option.bind_some,
      if_pos hperiod', divideU64_eq_some hne, Option.pure_def]
  · rw [UInt64.toNat_toUInt16, UInt64.toNat_div, hproduct]
    have hquotient : 10 ^ 8 / (periodLength.toUInt32.toNat * (10 ^ 8 / fs.toNat)) ≤
        10 ^ 8 / 2000 := Nat.div_le_div_left hlarge (by decide)
    exact Nat.mod_eq_of_lt (Nat.lt_of_le_of_lt hquotient (by decide))

/-- The read-out is exact for a positive period only.  Without a period it divides
by zero; a count of `2 ^ 31` samples or more, negative in `period_length`, is read
back as the count, of which the frequency rounds to 0. -/
theorem frequencyExact_iff (hclock : i2sSampleClock c = some fs)
    (hlow : 1 ≤ fs.toNat) (hhigh : fs.toNat ≤ 50000) :
    (FrequencyExact fs periodLength (extadcGetFrequency c periodLength) ↔
        0 < periodLength.toInt) ∧
      (periodLength ≠ 0 → ∃ frequency, extadcGetFrequency c periodLength = some frequency ∧
        frequency.toNat = 10 ^ 8 / (periodLength.toUInt32.toNat * (10 ^ 8 / fs.toNat))) := by
  refine ⟨?_, extadcGetFrequency_of_ne_zero hclock hlow hhigh⟩
  obtain ⟨htime, _⟩ := sampleTime_bounds hlow hhigh
  have hunsigned := toInt_toInt32 periodLength.toUInt32
  rw [Int32.toInt32_toUInt32] at hunsigned
  constructor
  · intro h
    have hperiod : periodLength ≠ 0 := by
      rintro rfl
      exact h.total (extadcGetFrequency_zero hclock)
    obtain ⟨frequency, hresult, _⟩ := extadcGetFrequency_of_ne_zero hclock hlow hhigh hperiod
    have hexact := h.exact hperiod frequency hresult
    -- A negative period would make the quotient negative, which the result is not.
    rcases Int.lt_or_le 0 periodLength.toInt with hpos | hneg
    · exact hpos
    · exfalso
      have hne : periodLength.toInt ≠ 0 := by
        intro hzero
        exact hperiod (Int32.toInt_inj.mp hzero)
      have hproduct : periodLength.toInt * (10 ^ 8 / fs.toNat : Nat) < 0 :=
        Int.mul_neg_of_neg_of_pos (by omega) (by omega)
      have hquotient : Int.fdiv (10 ^ 8) (periodLength.toInt * (10 ^ 8 / fs.toNat : Nat)) < 0 := by
        rw [← Int.neg_fdiv_neg]
        exact Int.fdiv_neg_of_neg_of_pos (by decide) (Int.neg_pos_of_neg hproduct)
      omega
  · intro hpos
    have hperiod : periodLength ≠ 0 := by
      rintro rfl
      exact absurd hpos (by decide)
    obtain ⟨frequency, hresult, hvalue⟩ :=
      extadcGetFrequency_of_ne_zero hclock hlow hhigh hperiod
    have hnat : (periodLength.toUInt32.toNat : Int) = periodLength.toInt := by
      have hlt := periodLength.toUInt32.toNat_lt
      have hmax := periodLength.toInt_lt
      rw [hunsigned, Int.bmod_def] at hpos ⊢
      split at hpos
      · rename_i hsmall
        rw [if_pos hsmall]
        omega
      · omega
    refine ⟨?_, fun hzero => absurd hzero hperiod, ?_⟩
    · rw [hresult]
      exact Option.some_ne_none _
    · intro _ result hsame
      rw [hresult] at hsame
      cases hsame
      rw [hvalue, ← hnat, ← Int.natCast_mul, Int.fdiv_eq_ediv_of_nonneg _ (Int.natCast_nonneg _)]
      rfl

end Readout

/-- A sample clock of 1 kHz. -/
def kilohertz : I2sConfiguration := { spiFrequency := 1792000, i2sdiv := 1, odd := 0 }

/-- A period of 20 samples is 50 Hz. -/
theorem frequencyExact_fifty : FrequencyExact 1000 20 (extadcGetFrequency kilohertz 20) := by
  have hclock : i2sSampleClock kilohertz = some 1000 := by decide
  exact (frequencyExact_iff hclock (by decide) (by decide)).1.mpr (by decide)

/-- Before the first window closes there is no period, and the read-out divides by
zero. -/
theorem not_frequencyExact_start :
    i2sSampleClock kilohertz = some 1000 ∧
      ¬FrequencyExact 1000 0 (extadcGetFrequency kilohertz 0) := by
  have hclock : i2sSampleClock kilohertz = some 1000 := by decide
  refine ⟨hclock, ?_⟩
  intro h
  exact h.total (extadcGetFrequency_zero hclock)

end WindradLogger.Adc
