import Mathlib.Algebra.Group.Int.Defs
import Mathlib.Algebra.Group.Nat.Defs
import Mathlib.Data.Int.Basic

set_option autoImplicit false

/-!
# Conversions between integer types of a machine

The value that is left when an integer is stored in a variable of another width
or signedness.
-/

namespace WindradLogger.Lib

/-- Stored in an `int16_t`, a `uint16_t` wraps. -/
theorem toInt_toInt16 (u : UInt16) : u.toInt16.toInt = (u.toNat : Int).bmod (2 ^ 16) :=
  BitVec.toInt_eq_toNat_bmod u.toBitVec

/-- Stored in an `int32_t`, a `uint32_t` wraps. -/
theorem toInt_toInt32 (u : UInt32) : u.toInt32.toInt = (u.toNat : Int).bmod (2 ^ 32) :=
  BitVec.toInt_eq_toNat_bmod u.toBitVec

/-- Promoted to `int`, a `uint16_t` keeps its value. -/
theorem toInt_toInt32_toUInt32 (u : UInt16) : u.toUInt32.toInt32.toInt = u.toNat := by
  have hlt := u.toNat_lt
  rw [toInt_toInt32, UInt16.toNat_toUInt32]
  exact Int.bmod_eq_of_le (by omega) (by omega)

/-- Read as a `uint16_t`, an `int16_t` wraps back. -/
theorem toNat_toUInt16 (v : Int16) : (v.toUInt16.toNat : Int) = v.toInt % 2 ^ 16 := by
  change (v.toBitVec.toNat : Int) = v.toBitVec.toInt % 2 ^ 16
  have hlt := v.toBitVec.isLt
  rw [BitVec.toInt_eq_toNat_cond]
  split
  · omega
  · omega

/-- Read as a `uint32_t`, an `int32_t` wraps back. -/
theorem toNat_toUInt32 (v : Int32) : (v.toUInt32.toNat : Int) = v.toInt % 2 ^ 32 := by
  change (v.toBitVec.toNat : Int) = v.toBitVec.toInt % 2 ^ 32
  have hlt := v.toBitVec.isLt
  rw [BitVec.toInt_eq_toNat_cond]
  split
  · omega
  · omega

/-! ## Narrowing -/

/-- An `int32_t` keeps its value in an `int16_t` exactly when it fits. -/
theorem toInt_toInt16_eq_iff (v : Int32) :
    v.toInt16.toInt = v.toInt ↔ -2 ^ 15 ≤ v.toInt ∧ v.toInt < 2 ^ 15 := by
  constructor
  · intro h
    rw [← h]
    exact ⟨v.toInt16.le_toInt, v.toInt16.toInt_lt⟩
  · rintro ⟨hlower, hupper⟩
    rw [Int32.toInt_toInt16]
    exact Int.bmod_eq_of_le hlower hupper

/-- A quotient truncated towards zero lies in a range around zero exactly when the
dividend does not reach the multiples outside. -/
theorem tdiv_mem_iff {total n low high : Int} (hn : 0 < n) (hlow : low ≤ 0) (hhigh : 0 ≤ high) :
    (low ≤ total.tdiv n ∧ total.tdiv n ≤ high) ↔
      (low - 1) * n < total ∧ total < (high + 1) * n := by
  rcases Int.le_total 0 total with hpos | hneg
  · rw [Int.tdiv_eq_ediv_of_nonneg hpos]
    have hquotient : 0 ≤ total / n := Int.ediv_nonneg hpos (Int.le_of_lt hn)
    have hbelow : (low - 1) * n < 0 := Int.mul_neg_of_neg_of_pos (by omega) hn
    have hiff : total / n < high + 1 ↔ total < (high + 1) * n := Int.ediv_lt_iff_lt_mul hn
    constructor
    · rintro ⟨-, hle⟩
      exact ⟨by omega, hiff.mp (by omega)⟩
    · rintro ⟨-, hlt⟩
      exact ⟨by omega, Int.le_of_lt_add_one (hiff.mpr hlt)⟩
  · obtain ⟨opposite, rfl⟩ : ∃ t, total = -t := ⟨-total, (Int.neg_neg total).symm⟩
    rw [Int.neg_tdiv, Int.tdiv_eq_ediv_of_nonneg (by omega)]
    have hquotient : 0 ≤ opposite / n := Int.ediv_nonneg (by omega) (Int.le_of_lt hn)
    have habove : 0 < (high + 1) * n := Int.mul_pos (by omega) hn
    have hiff : opposite / n < -low + 1 ↔ opposite < (-low + 1) * n := Int.ediv_lt_iff_lt_mul hn
    have hside : (low - 1) * n = -((-low + 1) * n) := by
      rw [← Int.neg_mul]
      congr 1
      omega
    rw [hside]
    constructor
    · rintro ⟨hle, -⟩
      have := hiff.mp (by omega)
      omega
    · rintro ⟨hlt, -⟩
      have := hiff.mpr (by omega)
      omega

/-- A quotient times a factor stays below a limit exactly when the dividend stays
below as many divisors as the factor fits into the limit, rounded up. -/
theorem div_mul_lt_iff {dividend divisor factor limit : Nat} (hdivisor : 0 < divisor)
    (hlimit : 0 < limit) :
    dividend / divisor * factor < limit ↔
      factor = 0 ∨ dividend < (limit + factor - 1) / factor * divisor := by
  rcases Nat.eq_zero_or_pos factor with rfl | hfactor
  · simp only [Nat.mul_zero, hlimit, true_or]
  · have hne : factor ≠ 0 := Nat.ne_of_gt hfactor
    have hrounded : (limit + factor - 1) / factor < dividend / divisor + 1 ↔
        limit + factor - 1 < (dividend / divisor + 1) * factor := Nat.div_lt_iff_lt_mul hfactor
    have hquotient : dividend / divisor < (limit + factor - 1) / factor ↔
        dividend < (limit + factor - 1) / factor * divisor := Nat.div_lt_iff_lt_mul hdivisor
    rw [or_iff_right hne, ← hquotient]
    rw [Nat.succ_mul] at hrounded
    omega

end WindradLogger.Lib
