import WindradLogger.Lib.Recorded
import WindradLogger.Lib.Width
import WindradLogger.Storage.Calibration
import Mathlib.Data.Int.ModEq

set_option autoImplicit false

/-!
# The arithmetic of the calibration (`storage_calibration.c`)

`calib_apply_calibration` computes in `int64_t` and returns an `int32_t`.  Its
callers pass values of 16 bits, signed or not; for these nothing overflows before
the value is returned, however large the coefficients are.
-/

namespace WindradLogger.Storage

open WindradLogger.Lib

/-- `c0 + c1*x + c2*x*x` over the integers -/
def CalibrationCoefficients.polynomial (coeffs : CalibrationCoefficients) (x : Int) : Int :=
  coeffs.c0Over65536.toInt + coeffs.c1Over65536.toInt * x + coeffs.c2Over65536.toInt * x * x

/-- The calibrated value over the integers, truncated towards zero. -/
def CalibrationCoefficients.calibrated (coeffs : CalibrationCoefficients) (x : Int) : Int :=
  (coeffs.polynomial x).tdiv 65536

/-- `calib_apply_calibration`, with the products, sums and the quotient it computes
in the order of the source. -/
def calibApplyRecorded (inValue : Int32) (coeffs : CalibrationCoefficients) :
    Recorded Int32 := do
  let linear ← Recorded.mul (Int32.ofBitVec coeffs.c1Over65536).toInt64 inValue.toInt64
  let constantAndLinear ← Recorded.add (Int32.ofBitVec coeffs.c0Over65536).toInt64 linear
  let product ← Recorded.mul (Int32.ofBitVec coeffs.c2Over65536).toInt64 inValue.toInt64
  let quadratic ← Recorded.mul product inValue.toInt64
  let result ← Recorded.add constantAndLinear quadratic
  let quotient ← Recorded.div result 65536
  return quotient.toInt32

theorem value_calibApplyRecorded (inValue : Int32) (coeffs : CalibrationCoefficients) :
    (calibApplyRecorded inValue coeffs).value = calibApplyCalibration inValue coeffs := rfl

/-! ## Bounds -/

/-- A product is no larger than the product of the bounds. -/
theorem mul_bounds {a b : Int} {m n : Nat} (ha : a.natAbs ≤ m) (hb : b.natAbs ≤ n) :
    (a * b).natAbs ≤ m * n := by
  rw [Int.natAbs_mul]
  exact Nat.mul_le_mul ha hb

theorem natAbs_toInt_le (c : BitVec 32) : c.toInt.natAbs ≤ 2 ^ 31 := by
  have hlower := BitVec.le_toInt c
  have hupper := BitVec.toInt_lt (x := c)
  omega

variable (coeffs : CalibrationCoefficients) {x : Int}

/-- The terms of the polynomial. -/
theorem natAbs_terms_le (hx : x.natAbs ≤ 65535) :
    (coeffs.c1Over65536.toInt * x).natAbs ≤ 2 ^ 31 * 65535 ∧
      (coeffs.c2Over65536.toInt * x).natAbs ≤ 2 ^ 31 * 65535 ∧
      (coeffs.c2Over65536.toInt * x * x).natAbs ≤ 2 ^ 31 * 65535 * 65535 := by
  have hproduct := mul_bounds (natAbs_toInt_le coeffs.c2Over65536) hx
  exact ⟨mul_bounds (natAbs_toInt_le coeffs.c1Over65536) hx, hproduct, mul_bounds hproduct hx⟩

/-- At their largest the terms together stay `2^47 - 2^31` below `2^63`. -/
theorem natAbs_polynomial_le (hx : x.natAbs ≤ 65535) :
    (coeffs.polynomial x).natAbs ≤ 2 ^ 63 - 2 ^ 47 + 2 ^ 31 := by
  obtain ⟨hlinear, -, hquadratic⟩ := natAbs_terms_le coeffs hx
  have hconstant := natAbs_toInt_le coeffs.c0Over65536
  rw [CalibrationCoefficients.polynomial]
  omega

/-! ## Exactness -/

theorem int64_range {exact : Int} (h : exact.natAbs ≤ 2 ^ 63 - 2 ^ 47 + 2 ^ 31) :
    MachineInt.lower Int64 ≤ exact ∧ exact < MachineInt.upper Int64 := by
  change -2 ^ 63 ≤ exact ∧ exact < 2 ^ 63
  omega

theorem read_coefficient (c : BitVec 32) :
    MachineInt.read (Int32.ofBitVec c).toInt64 = c.toInt :=
  Int32.toInt_toInt64 _

/-- For a value of the callers every operation of `calib_apply_calibration` fits,
and only the conversion of the quotient to the result can lose something. -/
theorem calibApplyRecorded_computes {inValue : Int32} (h : inValue.toInt.natAbs ≤ 65535) :
    (calibApplyRecorded inValue coeffs).Computes fun value =>
      value.toInt = (coeffs.calibrated inValue.toInt).bmod (2 ^ 32) := by
  obtain ⟨hlinear, hproduct, hquadratic⟩ := natAbs_terms_le coeffs h
  have hconstant := natAbs_toInt_le coeffs.c0Over65536
  have hpolynomial := natAbs_polynomial_le coeffs h
  have hread : MachineInt.read inValue.toInt64 = inValue.toInt := Int32.toInt_toInt64 _
  have hdivisor : MachineInt.read (65536 : Int64) = 65536 := rfl
  have hquotient : (coeffs.calibrated inValue.toInt).natAbs ≤ 2 ^ 63 - 2 ^ 47 + 2 ^ 31 := by
    rw [CalibrationCoefficients.calibrated, Int.natAbs_tdiv]
    exact Nat.le_trans (Nat.div_le_self _ _) hpolynomial
  unfold calibApplyRecorded
  -- c1*x, and the sum with c0
  obtain ⟨hlower, hupper⟩ := int64_range (Nat.le_trans hlinear (by decide))
  refine Recorded.computes_bind
    (Recorded.computes_mul (read_coefficient _) hread hlower hupper) fun linear hlinear' => ?_
  have hsum : (coeffs.c0Over65536.toInt + coeffs.c1Over65536.toInt * inValue.toInt).natAbs ≤
      2 ^ 63 - 2 ^ 47 + 2 ^ 31 := by omega
  obtain ⟨hlower, hupper⟩ := int64_range hsum
  refine Recorded.computes_bind
    (Recorded.computes_add (read_coefficient _) hlinear' hlower hupper) fun initial hinitial => ?_
  -- c2*x*x
  obtain ⟨hlower, hupper⟩ := int64_range (Nat.le_trans hproduct (by decide))
  refine Recorded.computes_bind
    (Recorded.computes_mul (read_coefficient _) hread hlower hupper) fun product hproduct' => ?_
  obtain ⟨hlower, hupper⟩ := int64_range (Nat.le_trans hquadratic (by decide))
  refine Recorded.computes_bind
    (Recorded.computes_mul hproduct' hread hlower hupper) fun quadratic hquadratic' => ?_
  -- the sum and the quotient
  obtain ⟨hlower, hupper⟩ := int64_range hpolynomial
  refine Recorded.computes_bind
    (Recorded.computes_add hinitial hquadratic' hlower hupper) fun result hresult => ?_
  obtain ⟨hlower, hupper⟩ := int64_range hquotient
  refine Recorded.computes_bind
    (Recorded.computes_div hresult hdivisor (by decide) hlower hupper) fun quotient hvalue => ?_
  apply Recorded.computes_pure
  rw [Int64.toInt_toInt32]
  exact congrArg (Int.bmod · (2 ^ 32)) hvalue

/-- `calib_apply_calibration` overflows nowhere for the values of its callers, and
returns the calibrated value modulo `2^32`. -/
theorem calibApplyCalibration_congruent {inValue : Int32}
    (h : inValue.toInt.natAbs ≤ 65535) :
    (calibApplyRecorded inValue coeffs).value = calibApplyCalibration inValue coeffs ∧
      (calibApplyRecorded inValue coeffs).Sound ∧
      (calibApplyCalibration inValue coeffs).toInt ≡
        coeffs.calibrated inValue.toInt [ZMOD 2 ^ 32] := by
  obtain ⟨hsound, hvalue⟩ := calibApplyRecorded_computes coeffs h
  rw [value_calibApplyRecorded] at hvalue
  refine ⟨value_calibApplyRecorded inValue coeffs, hsound, ?_⟩
  rw [hvalue]
  exact Int.bmod_emod

/-- With the smallest coefficients the smallest value comes as close to `-2^63` as
any. -/
theorem calibApplyCalibration_congruent_smallest :
    (calibApplyRecorded (-65535) ⟨0x80000000#32, 0x7FFFFFFF#32, 0x80000000#32⟩).Sound ∧
      (calibApplyCalibration (-65535) ⟨0x80000000#32, 0x7FFFFFFF#32, 0x80000000#32⟩).toInt ≡
        CalibrationCoefficients.calibrated ⟨0x80000000#32, 0x7FFFFFFF#32, 0x80000000#32⟩ (-65535)
          [ZMOD 2 ^ 32] :=
  (calibApplyCalibration_congruent ⟨0x80000000#32, 0x7FFFFFFF#32, 0x80000000#32⟩
    (by decide : (-65535 : Int32).toInt.natAbs ≤ 65535)).2

/-! ## The callers -/

/-- The values of a record of the external ADC. -/
theorem natAbs_int16_le (value : Int16) : value.toInt32.toInt.natAbs ≤ 65535 := by
  have hlower := value.le_toInt
  have hupper := value.toInt_lt
  rw [Int16.toInt_toInt32]
  omega

/-- The values of the ADC of the MCU. -/
theorem natAbs_uint16_le (value : UInt16) : value.toUInt32.toInt32.toInt.natAbs ≤ 65535 := by
  have hlt := value.toNat_lt
  rw [toInt_toInt32_toUInt32]
  omega

end WindradLogger.Storage
