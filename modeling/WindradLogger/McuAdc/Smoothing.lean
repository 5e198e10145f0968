import Mathlib.Data.List.Basic
import WindradLogger.Lib.Smoothing
import WindradLogger.McuAdc.Units

set_option autoImplicit false

/-!
# Smoothing (`task_adc.c`)

Every cycle adds the five quantities to accumulators of 32 bits without sign, of
which a sixteenth is published in 16 bits and taken off again.  For quantities of
at most 16 bits this is the smoothing of `Lib.Smoothing`.  The temperature has a
sign, and when it is negative the accumulator wraps.
-/

namespace WindradLogger.McuAdc

open WindradLogger.Lib

/-! ## The filter -/

/-- `SMOOTHVALUE` -/
def smoothvalue : UInt16 := 16

/-- `VALUES_NEEDED_FOR_BEING_VALID` -/
def valuesNeededForBeingValid : UInt16 := 16

/-- What is added to the accumulator of an index. -/
def PhysicalUnits.input (units : PhysicalUnits) : AdcSequenceIndex → UInt32
  | .temperature => units.temperatureC.toUInt32
  | .currExt => units.adc1Mv
  | .supplySensse => units.adc2Mv
  | .coinCell => units.coinCellMv
  | .ref => units.refVoltageMv

/-- `adcValues_smoothed_SMOOTHVALUE`, `adcValues_smoothed` and
`acquired_adc_values`. -/
structure Filter where
  accumulated : AdcSequenceIndex → UInt32
  smoothed : AdcSequenceIndex → UInt16
  acquiredAdcValues : UInt16

namespace Filter

/-- The filter when `taskADC` begins. -/
def initial : Filter :=
  { accumulated := fun _ => 0, smoothed := fun _ => 0, acquiredAdcValues := 0 }

/-- `adc_values_valid` -/
def adcValuesValid (f : Filter) : Bool := valuesNeededForBeingValid < f.acquiredAdcValues

/-- The accumulators with the units of a cycle added. -/
def added (f : Filter) (units : PhysicalUnits) (index : AdcSequenceIndex) : UInt32 :=
  f.accumulated index + units.input index

/-- The smoothing of a cycle. -/
def smooth (f : Filter) (units : PhysicalUnits) : Filter :=
  let smoothed := fun index => (f.added units index / smoothvalue.toUInt32).toUInt16
  { accumulated := fun index => f.added units index - (smoothed index).toUInt32
    smoothed := smoothed
    acquiredAdcValues :=
      if f.adcValuesValid then f.acquiredAdcValues else f.acquiredAdcValues + 1 }

/-- The filter after cycles. -/
def after (cycles : List PhysicalUnits) : Filter := cycles.foldl smooth initial

theorem after_concat (cycles : List PhysicalUnits) (units : PhysicalUnits) :
    after (cycles ++ [units]) = (after cycles).smooth units := by
  rw [after, List.foldl_append]
  rfl

/-- What is published is a sixteenth of the accumulator, in 16 bits. -/
theorem toNat_smoothed (f : Filter) (units : PhysicalUnits) (index : AdcSequenceIndex) :
    ((f.smooth units).smoothed index).toNat = (f.added units index).toNat / 16 % 2 ^ 16 := by
  have hdivisor : smoothvalue.toUInt32.toNat = 16 := rfl
  change ((f.added units index / smoothvalue.toUInt32).toUInt16).toNat = _
  rw [UInt32.toNat_toUInt16, UInt32.toNat_div, hdivisor]

/-! ## Quantities of 16 bits -/

section Bounded

variable {f : Filter} {units : PhysicalUnits} {index : AdcSequenceIndex} {bound : Nat}

/-- A cycle whose input and accumulator are small wraps and truncates nothing. -/
theorem smooth_exact (hbound : bound ≤ 65535) (hacc : (f.accumulated index).toNat ≤ 15 * bound)
    (hinput : (units.input index).toNat ≤ bound) :
    (f.added units index).toNat =
        (f.accumulated index).toNat + (units.input index).toNat ∧
      ((f.smooth units).smoothed index).toNat =
        Smoothing.output 16 (f.accumulated index).toNat (units.input index).toNat ∧
      ((f.smooth units).accumulated index).toNat =
        Smoothing.leak 16 (f.accumulated index).toNat (units.input index).toNat := by
  have hadded : (f.added units index).toNat =
      (f.accumulated index).toNat + (units.input index).toNat := by
    rw [added, UInt32.toNat_add, Nat.mod_eq_of_lt]
    omega
  have hle := Smoothing.output_le (by decide : 0 < 16) hacc hinput
  have hsmoothed : ((f.smooth units).smoothed index).toNat =
      Smoothing.output 16 (f.accumulated index).toNat (units.input index).toNat := by
    rw [toNat_smoothed, hadded]
    change Smoothing.output 16 _ _ % 2 ^ 16 = _
    rw [Nat.mod_eq_of_lt]
    omega
  refine ⟨hadded, hsmoothed, ?_⟩
  change (f.added units index - ((f.smooth units).smoothed index).toUInt32).toNat = _
  have hpart : Smoothing.output 16 (f.accumulated index).toNat (units.input index).toNat ≤
      (f.accumulated index).toNat + (units.input index).toNat := Nat.div_le_self _ _
  rw [UInt32.toNat_sub_of_le, hadded, UInt16.toNat_toUInt32, hsmoothed]
  · rfl
  · rw [UInt32.le_iff_toNat_le, UInt16.toNat_toUInt32, hsmoothed, hadded]
    exact hpart

/-- As long as the inputs of an index are small its accumulator is that of the
smoothing. -/
theorem accumulated_after (hbound : bound ≤ 65535) {cycles : List PhysicalUnits}
    (h : ∀ units ∈ cycles, (units.input index).toNat ≤ bound) :
    ((after cycles).accumulated index).toNat =
        Smoothing.accumulated 16 (cycles.map fun units => (units.input index).toNat) ∧
      ((after cycles).accumulated index).toNat ≤ 15 * bound := by
  induction cycles using List.reverseRecOn with
  | nil => exact ⟨rfl, Nat.zero_le _⟩
  | append_singleton past units ih =>
      obtain ⟨heq, hle⟩ := ih fun u hu => h u (List.mem_append_left _ hu)
      have hinput := h units (List.mem_append_right _ List.mem_cons_self)
      obtain ⟨-, -, hnext⟩ := smooth_exact hbound hle hinput
      rw [after_concat, List.map_append, List.map_cons, List.map_nil,
        Smoothing.accumulated_concat, hnext, ← heq]
      exact ⟨rfl, Smoothing.leak_le (by decide : 0 < 16) hle hinput⟩

end Bounded

/-- `adcValues_smoothed` after cycles. -/
def published (cycles : List PhysicalUnits) (index : AdcSequenceIndex) : UInt16 :=
  (after cycles).smoothed index

/-- The published value is a sixteenth of the accumulator at its highest. -/
theorem published_concat {index : AdcSequenceIndex} {bound : Nat} (hbound : bound ≤ 65535)
    {past : List PhysicalUnits} {units : PhysicalUnits}
    (h : ∀ u ∈ past ++ [units], (u.input index).toNat ≤ bound) :
    (published (past ++ [units]) index).toNat =
        Smoothing.output 16 (Smoothing.accumulated 16
          (past.map fun u => (u.input index).toNat)) (units.input index).toNat := by
  obtain ⟨heq, hle⟩ := accumulated_after hbound fun u hu => h u (List.mem_append_left _ hu)
  have hinput := h units (List.mem_append_right _ List.mem_cons_self)
  obtain ⟨-, hsmoothed, -⟩ := smooth_exact hbound hle hinput
  rw [published, after_concat, hsmoothed, heq]

/-- With equal inputs it is that of the smoothing. -/
theorem published_constant {index : AdcSequenceIndex} {x : Nat} (hx : x ≤ 65535)
    {past : List PhysicalUnits} {units : PhysicalUnits}
    (h : ∀ u ∈ past ++ [units], (u.input index).toNat = x) :
    (published (past ++ [units]) index).toNat = Smoothing.constantOutput 16 x past.length := by
  have hpast : (past.map fun u => (u.input index).toNat) = List.replicate past.length x := by
    rw [List.eq_replicate_iff, List.length_map]
    refine ⟨rfl, fun value hvalue => ?_⟩
    obtain ⟨u, hu, rfl⟩ := List.mem_map.mp hvalue
    exact h u (List.mem_append_left _ hu)
  rw [published_concat hx fun u hu => Nat.le_of_eq (h u hu), hpast,
    h units (List.mem_append_right _ List.mem_cons_self)]
  rfl

/-- For inputs of at most 16 bits the accumulator stays within sixteen times their
bound and the published value within the bound, nothing being lost when it is stored
in 16 bits.  With equal inputs the published value does not fall, does not exceed the
input, and has reached it after `15 * x + 1` cycles. -/
theorem smoothing_bounded_exact {index : AdcSequenceIndex} {bound : Nat} (hbound : bound ≤ 65535)
    {past : List PhysicalUnits} {units : PhysicalUnits}
    (h : ∀ u ∈ past ++ [units], (u.input index).toNat ≤ bound) :
    ((after past).added units index).toNat ≤ 16 * bound ∧
      ((after (past ++ [units])).accumulated index).toNat ≤ 16 * bound ∧
      (published (past ++ [units]) index).toNat =
        ((after past).added units index).toNat / 16 ∧
      (published (past ++ [units]) index).toNat ≤ bound ∧
      ∀ x, (∀ u ∈ past ++ [units], (u.input index).toNat = x) →
        (published past index).toNat ≤ (published (past ++ [units]) index).toNat ∧
          (published (past ++ [units]) index).toNat ≤ x ∧
          (15 * x ≤ past.length → (published (past ++ [units]) index).toNat = x) := by
  have hpast : ∀ u ∈ past, (u.input index).toNat ≤ bound :=
    fun u hu => h u (List.mem_append_left _ hu)
  have hinput := h units (List.mem_append_right _ List.mem_cons_self)
  have hsixteen : 0 < 16 := by decide
  obtain ⟨-, hle⟩ := accumulated_after hbound hpast
  obtain ⟨-, hle'⟩ := accumulated_after hbound h
  obtain ⟨hadded, hsmoothed, -⟩ := smooth_exact hbound hle hinput
  have hpublished : (published (past ++ [units]) index).toNat =
      Smoothing.output 16 ((after past).accumulated index).toNat (units.input index).toNat := by
    rw [published, after_concat, hsmoothed]
  refine ⟨?_, Nat.le_trans hle' (Nat.mul_le_mul_right _ (by decide)), ?_, ?_, ?_⟩
  · rw [hadded]
    exact Smoothing.add_le hsixteen hle hinput
  · rw [hpublished, hadded]
    rfl
  · rw [hpublished]
    exact Smoothing.output_le hsixteen hle hinput
  · intro x hx
    have hxbound : x ≤ 65535 := by
      rw [← hx units (List.mem_append_right _ List.mem_cons_self)]
      omega
    rw [published_constant hxbound hx]
    refine ⟨?_, Smoothing.constantOutput_le hsixteen _, Smoothing.constantOutput_eq hsixteen⟩
    rcases past.eq_nil_or_concat' with rfl | ⟨earlier, last, rfl⟩
    · exact Nat.zero_le _
    · rw [published_constant hxbound fun u hu => hx u (List.mem_append_left _ hu),
        List.length_append]
      exact Smoothing.constantOutput_mono hsixteen _

/-- Units that are all the same number. -/
def uniform (x : UInt32) : PhysicalUnits :=
  { refVoltageMv := x, temperatureC := x.toInt32, adc1Mv := x, adc2Mv := x, coinCellMv := x }

/-- A constant 1 shows after sixteen cycles. -/
theorem smoothing_bounded_exact_one :
    (published (List.replicate 15 (uniform 1) ++ [uniform 1]) .currExt).toNat = 1 := by
  have hall : ∀ u ∈ List.replicate 15 (uniform 1) ++ [uniform 1],
      (u.input .currExt).toNat = 1 := by decide
  obtain ⟨-, -, -, -, hconstant⟩ := smoothing_bounded_exact (by decide : 1 ≤ 65535)
    fun u hu => Nat.le_of_eq (hall u hu)
  exact (hconstant 1 hall).2.2 (by decide)

/-! ## The temperature -/

/-- The published temperature, with the sign it has in `cpu_temperature`. -/
def publishedTemperature (cycles : List PhysicalUnits) : Int :=
  (published cycles .temperature).toInt16.toInt

/-- The cycles compute one and the same temperature. -/
def Steady (t : Int32) (cycles : List PhysicalUnits) : Prop :=
  ∀ units ∈ cycles, units.temperatureC = t

/-- A constant temperature is approached from zero, reached and kept. -/
def TemperatureReported (t : Int32) : Prop :=
  (∀ cycles, Steady t cycles →
      min 0 t.toInt ≤ publishedTemperature cycles ∧ publishedTemperature cycles ≤ max 0 t.toInt) ∧
    ∃ n, ∀ cycles, Steady t cycles → n ≤ cycles.length → publishedTemperature cycles = t.toInt

/-- From zero degrees on the published temperature is that of the smoothing. -/
theorem publishedTemperature_of_nonneg {t : Int32} (hlower : 0 ≤ t.toInt) (hupper : t.toInt ≤ 85)
    {past : List PhysicalUnits} {units : PhysicalUnits} (h : Steady t (past ++ [units])) :
    publishedTemperature (past ++ [units]) =
      Smoothing.constantOutput 16 t.toInt.toNat past.length := by
  have hinput : ∀ u ∈ past ++ [units], (u.input .temperature).toNat = t.toInt.toNat := by
    intro u hu
    have hread := toNat_toUInt32 t
    change u.temperatureC.toUInt32.toNat = _
    rw [h u hu]
    omega
  have hvalue := published_constant (by omega) hinput
  have hle := Smoothing.constantOutput_le (by decide : 0 < 16) (x := t.toInt.toNat) past.length
  rw [publishedTemperature, toInt_toInt16, hvalue]
  exact Int.bmod_eq_of_le (by omega) (by omega)

/-- It has reached the temperature after `15 * t + 1` cycles. -/
theorem publishedTemperature_settled {t : Int32} (hlower : 0 ≤ t.toInt) (hupper : t.toInt ≤ 85)
    {cycles : List PhysicalUnits} (h : Steady t cycles)
    (hlength : 15 * t.toInt.toNat + 1 ≤ cycles.length) : publishedTemperature cycles = t.toInt := by
  rcases cycles.eq_nil_or_concat' with rfl | ⟨past, units, rfl⟩
  · cases hlength
  · rw [List.length_append, List.length_singleton] at hlength
    rw [publishedTemperature_of_nonneg hlower hupper h,
      Smoothing.constantOutput_eq (by decide : 0 < 16) (by omega)]
    exact Int.toNat_of_nonneg hlower

/-- Half-words that read as one negative number are one number. -/
theorem toNat_of_toInt16_neg {v : UInt16} {t : Int} (hneg : t < 0) (h : v.toInt16.toInt = t) :
    (v.toNat : Int) = 2 ^ 16 + t := by
  have hlt := v.toNat_lt
  rw [toInt_toInt16, Int.bmod_def] at h
  split at h
  · omega
  · omega

/-- A negative temperature that is published is not published in the next cycle: it
is taken off the accumulator as 65536 more than was added. -/
theorem publishedTemperature_not_kept {t : Int32} (hneg : t.toInt < 0)
    {past : List PhysicalUnits} {units next : PhysicalUnits} (hnext : next.temperatureC = t)
    (h : publishedTemperature (past ++ [units]) = t.toInt) :
    publishedTemperature (past ++ [units] ++ [next]) ≠ t.toInt := by
  intro h'
  have hvalue := toNat_of_toInt16_neg hneg h
  have hvalue' := toNat_of_toInt16_neg hneg h'
  have hlower := t.le_toInt
  have hinput : (next.input .temperature).toNat = 2 ^ 32 + t.toInt := by
    have hread := toNat_toUInt32 t
    change (next.temperatureC.toUInt32.toNat : Int) = _
    rw [hnext]
    omega
  rw [published, after_concat] at hvalue hvalue'
  rw [after_concat] at hvalue'
  have hnow := toNat_smoothed (after past) units .temperature
  have hthen := toNat_smoothed ((after past).smooth units) next .temperature
  -- The accumulator with the next temperature added.
  have hlt := ((after past).added units .temperature).toNat_lt
  have hadded : (((after past).smooth units).added next .temperature).toNat =
      ((2 ^ 32 - (((after past).smooth units).smoothed .temperature).toNat +
        ((after past).added units .temperature).toNat) % 2 ^ 32 +
          (next.input .temperature).toNat) % 2 ^ 32 := by
    change (((after past).added units .temperature -
      (((after past).smooth units).smoothed .temperature).toUInt32) +
        next.input .temperature).toNat = _
    rw [UInt32.toNat_add, UInt32.toNat_sub, UInt16.toNat_toUInt32]
  omega

/-- A constant temperature within the range of the device is reported exactly when it
is not below zero. -/
theorem temperatureReported_iff {t : Int32} (h : -40 ≤ t.toInt ∧ t.toInt ≤ 85) :
    TemperatureReported t ↔ 0 ≤ t.toInt := by
  constructor
  · rintro ⟨-, n, hkept⟩
    refine Int.not_lt.mp fun hneg => ?_
    -- Two cycles of which the second cannot keep what the first publishes.
    have hback : (uniform t.toUInt32).temperatureC = t := rfl
    have hsteady : ∀ m, Steady t (List.replicate m (uniform t.toUInt32)) := by
      intro m u hu
      rw [List.eq_of_mem_replicate hu, hback]
    have hfirst := hkept _ (hsteady (n + 1)) (by rw [List.length_replicate]; omega)
    have hsecond := hkept _ (hsteady (n + 2)) (by rw [List.length_replicate]; omega)
    rw [List.replicate_succ'] at hfirst hsecond
    rw [List.replicate_succ'] at hsecond
    exact publishedTemperature_not_kept hneg hback hfirst hsecond
  · intro hnonneg
    refine ⟨?_, 15 * t.toInt.toNat + 1, ?_⟩
    · intro cycles hsteady
      rcases cycles.eq_nil_or_concat' with rfl | ⟨past, units, rfl⟩
      · have hzero : publishedTemperature [] = 0 := rfl
        omega
      · rw [publishedTemperature_of_nonneg hnonneg h.2 hsteady]
        have hle := Smoothing.constantOutput_le (by decide : 0 < 16) (x := t.toInt.toNat)
          past.length
        omega
    · intro cycles hsteady hlength
      exact publishedTemperature_settled hnonneg h.2 hsteady hlength

theorem temperatureReported_iff_room : TemperatureReported 20 :=
  (temperatureReported_iff (by decide)).mpr (by decide)

/-- One degree below zero: the second cycle publishes 4097 degrees below. -/
theorem not_temperatureReported_frost :
    ¬ TemperatureReported (-1) ∧
      publishedTemperature (List.replicate 2 (uniform (-1))) = -4097 := by
  have hsecond : publishedTemperature (List.replicate 2 (uniform (-1))) = -4097 := by decide
  have hsteady : Steady (-1) (List.replicate 2 (uniform (-1))) := by
    intro u hu
    rw [List.eq_of_mem_replicate hu]
    rfl
  refine ⟨?_, hsecond⟩
  rintro ⟨hbetween, -⟩
  have hlower := (hbetween _ hsteady).1
  rw [hsecond] at hlower
  exact absurd hlower (by decide)

end Filter

end WindradLogger.McuAdc
