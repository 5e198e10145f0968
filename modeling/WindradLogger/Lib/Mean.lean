import Mathlib.Algebra.Order.BigOperators.Group.List
import Mathlib.Algebra.Order.Ring.Int
import Mathlib.Tactic.Linarith

set_option autoImplicit false

/-!
# Means and peaks of samples

The mean of a list of integers, truncated towards zero as a machine divides, and
the largest magnitude in it.  Both stay within the bounds of the samples, which
is what makes it safe to store them with the width of a sample.
-/

namespace WindradLogger.Lib

/-- The sum divided by the number of samples, truncated towards zero. -/
def truncatedMean (samples : List Int) : Int := samples.sum.tdiv samples.length

section Bounds

variable {samples : List Int} {low high : Int}

theorem sum_le_length_mul (h : ∀ x ∈ samples, x ≤ high) :
    samples.sum ≤ samples.length * high := by
  simpa using List.sum_le_card_nsmul samples high h

theorem length_mul_le_sum (h : ∀ x ∈ samples, low ≤ x) :
    samples.length * low ≤ samples.sum := by
  simpa using List.card_nsmul_le_sum samples low h

end Bounds

/-- A quotient truncated towards zero lies between any integers that the exact
quotient lies between. -/
theorem tdiv_bounds {n total low high : Int} (hn : 0 < n) (hlow : n * low ≤ total)
    (hhigh : total ≤ n * high) : low ≤ total.tdiv n ∧ total.tdiv n ≤ high := by
  rcases Int.le_total 0 total with hpos | hneg
  · rw [Int.tdiv_eq_ediv_of_nonneg hpos]
    refine ⟨?_, ?_⟩
    · rw [Int.le_ediv_iff_mul_le hn, Int.mul_comm]
      exact hlow
    · exact Int.ediv_le_of_le_mul hn (by rwa [Int.mul_comm])
  · obtain ⟨opposite, rfl⟩ : ∃ t, total = -t := ⟨-total, (Int.neg_neg total).symm⟩
    rw [Int.neg_tdiv, Int.tdiv_eq_ediv_of_nonneg (by omega)]
    refine ⟨?_, ?_⟩
    · have : opposite / n ≤ -low := by
        refine Int.ediv_le_of_le_mul hn ?_
        nlinarith
      omega
    · have : -high ≤ opposite / n := by
        rw [Int.le_ediv_iff_mul_le hn]
        nlinarith
      omega

/-- The mean of samples within bounds is within them. -/
theorem truncatedMean_bounds {samples : List Int} {low high : Int} (hne : samples ≠ [])
    (h : ∀ x ∈ samples, low ≤ x ∧ x ≤ high) :
    low ≤ truncatedMean samples ∧ truncatedMean samples ≤ high := by
  have hlength : (0 : Int) < samples.length := by
    have := List.length_pos_iff.mpr hne
    omega
  exact tdiv_bounds hlength (length_mul_le_sum fun x hx => (h x hx).1)
    (sum_le_length_mul fun x hx => (h x hx).2)

/-- The largest of a list of magnitudes, 0 if there is none. -/
def peak (magnitudes : List Nat) : Nat := magnitudes.foldr max 0

@[simp] theorem peak_nil : peak [] = 0 := rfl

@[simp] theorem peak_cons (x : Nat) (rest : List Nat) : peak (x :: rest) = max x (peak rest) := rfl

@[simp] theorem peak_append (first second : List Nat) :
    peak (first ++ second) = max (peak first) (peak second) := by
  induction first with
  | nil => simp
  | cons x rest ih => simp [ih, Nat.max_assoc]

theorem peak_le {magnitudes : List Nat} {bound : Nat} (h : ∀ x ∈ magnitudes, x ≤ bound) :
    peak magnitudes ≤ bound := by
  induction magnitudes with
  | nil => exact Nat.zero_le _
  | cons x rest ih =>
      rw [peak_cons]
      exact Nat.max_le.mpr ⟨h x List.mem_cons_self, ih fun y hy => h y (List.mem_cons_of_mem _ hy)⟩

theorem le_peak {magnitudes : List Nat} {x : Nat} (h : x ∈ magnitudes) : x ≤ peak magnitudes := by
  induction magnitudes with
  | nil => cases h
  | cons y rest ih =>
      rw [peak_cons]
      cases h with
      | head => exact Nat.le_max_left _ _
      | tail _ hmem => exact Nat.le_trans (ih hmem) (Nat.le_max_right _ _)

end WindradLogger.Lib
