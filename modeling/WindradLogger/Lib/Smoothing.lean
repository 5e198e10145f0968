import Mathlib.Data.List.Induction

set_option autoImplicit false

/-!
# Smoothing with a leaking accumulator

Inputs are added to an accumulator, whose `k`th part is put out and taken off it
again.  In integers the output is rounded down; what is rounded off stays in the
accumulator and is put out later, so that a constant input is reached exactly.

The accumulator holds at most `k - 1` times a bound of the inputs, and `k` times
the bound when an input has just been added.
-/

namespace WindradLogger.Lib.Smoothing

variable (k : Nat)

/-- The output when an input is added. -/
def output (accumulator x : Nat) : Nat := (accumulator + x) / k

/-- The accumulator after an input. -/
def leak (accumulator x : Nat) : Nat := accumulator + x - output k accumulator x

/-- The accumulator after inputs, from nothing. -/
def accumulated (inputs : List Nat) : Nat := inputs.foldl (leak k) 0

@[simp] theorem accumulated_concat (inputs : List Nat) (x : Nat) :
    accumulated k (inputs ++ [x]) = leak k (accumulated k inputs) x := by
  rw [accumulated, List.foldl_append]
  rfl

variable {k}

/-! ## Bounds -/

section Bounds

variable {accumulator x bound : Nat}

theorem mul_eq_pred_mul_add (hk : 0 < k) (n : Nat) : k * n = (k - 1) * n + n := by
  rw [← Nat.succ_mul, Nat.succ_eq_add_one, Nat.sub_add_cancel hk]

/-- With an input added, the accumulator is at most `k` times the bound. -/
theorem add_le (hk : 0 < k) (hacc : accumulator ≤ (k - 1) * bound) (hx : x ≤ bound) :
    accumulator + x ≤ k * bound := by
  have hsplit := mul_eq_pred_mul_add hk bound
  omega

theorem output_le (hk : 0 < k) (hacc : accumulator ≤ (k - 1) * bound) (hx : x ≤ bound) :
    output k accumulator x ≤ bound :=
  Nat.div_le_of_le_mul (add_le hk hacc hx)

/-- Rounding down the output leaves no more than `k - 1` times the bound. -/
theorem leak_le (hk : 0 < k) (hacc : accumulator ≤ (k - 1) * bound) (hx : x ≤ bound) :
    leak k accumulator x ≤ (k - 1) * bound := by
  have hsum := add_le hk hacc hx
  have hout := output_le hk hacc hx
  have hparts := Nat.div_add_mod (accumulator + x) k
  have hrest := Nat.mod_lt (accumulator + x) hk
  change k * output k accumulator x + _ = _ at hparts
  rw [mul_eq_pred_mul_add hk] at hparts
  unfold leak
  rcases Nat.lt_or_eq_of_le hout with hlt | heq
  · -- The output is one less than the bound, or lower still.
    have hnext : (k - 1) * (output k accumulator x + 1) ≤ (k - 1) * bound :=
      Nat.mul_le_mul_left _ hlt
    rw [Nat.mul_succ] at hnext
    omega
  · rw [heq] at hparts ⊢
    rw [mul_eq_pred_mul_add hk] at hsum
    omega

/-- The accumulator after bounded inputs. -/
theorem accumulated_le (hk : 0 < k) {inputs : List Nat} (h : ∀ x ∈ inputs, x ≤ bound) :
    accumulated k inputs ≤ (k - 1) * bound := by
  induction inputs using List.reverseRecOn with
  | nil => exact Nat.zero_le _
  | append_singleton past last ih =>
      rw [accumulated_concat]
      exact leak_le hk (ih fun x hx => h x (List.mem_append_left _ hx))
        (h last (List.mem_append_right _ List.mem_cons_self))

end Bounds

/-! ## A constant input -/

section Constant

variable {x : Nat}

/-- The accumulator after `n` equal inputs. -/
theorem accumulated_replicate_succ (n : Nat) :
    accumulated k (List.replicate (n + 1) x) = leak k (accumulated k (List.replicate n x)) x := by
  rw [List.replicate_succ', accumulated_concat]

theorem accumulated_replicate_le (hk : 0 < k) (n : Nat) :
    accumulated k (List.replicate n x) ≤ (k - 1) * x :=
  accumulated_le hk fun _ h => Nat.le_of_eq (List.eq_of_mem_replicate h)

/-- The output after `n` equal inputs and one more. -/
def constantOutput (k x n : Nat) : Nat := output k (accumulated k (List.replicate n x)) x

theorem constantOutput_le (hk : 0 < k) (n : Nat) : constantOutput k x n ≤ x :=
  output_le hk (accumulated_replicate_le hk n) (Nat.le_refl x)

/-- What the accumulator gains is what the output lacks. -/
theorem accumulated_replicate_gain (n : Nat) :
    accumulated k (List.replicate (n + 1) x) + constantOutput k x n =
      accumulated k (List.replicate n x) + x := by
  have hle : constantOutput k x n ≤ accumulated k (List.replicate n x) + x :=
    Nat.div_le_self _ _
  rw [accumulated_replicate_succ]
  exact Nat.sub_add_cancel hle

theorem constantOutput_mono (hk : 0 < k) (n : Nat) :
    constantOutput k x n ≤ constantOutput k x (n + 1) := by
  have hgain := accumulated_replicate_gain (k := k) (x := x) n
  have hle := constantOutput_le (x := x) hk n
  refine Nat.div_le_div_right ?_
  omega

/-- Once the input is reached it is kept. -/
theorem constantOutput_stays {n : Nat} (h : constantOutput k x n = x) :
    constantOutput k x (n + 1) = x := by
  have hgain := accumulated_replicate_gain (k := k) (x := x) n
  have hsame : accumulated k (List.replicate (n + 1) x) = accumulated k (List.replicate n x) := by
    omega
  rw [constantOutput, hsame]
  exact h

/-- As long as the input is not reached the accumulator gains with every input. -/
theorem gains_or_reached (hk : 0 < k) (n : Nat) :
    n ≤ accumulated k (List.replicate n x) ∨ constantOutput k x n = x := by
  induction n with
  | zero => exact Or.inl (Nat.zero_le _)
  | succ n ih =>
      rcases Nat.lt_or_eq_of_le (constantOutput_le (x := x) hk n) with hlt | heq
      · have hgain := accumulated_replicate_gain (k := k) (x := x) n
        have hge := ih.resolve_right (Nat.ne_of_lt hlt)
        exact Or.inl (by omega)
      · exact Or.inr (constantOutput_stays heq)

/-- A constant input is reached after at most `(k - 1) * x` inputs, for good. -/
theorem constantOutput_eq (hk : 0 < k) {n : Nat} (hn : (k - 1) * x ≤ n) :
    constantOutput k x n = x := by
  rcases gains_or_reached (x := x) hk n with hge | heq
  · -- The accumulator is full.
    have hle := accumulated_replicate_le (x := x) hk n
    have hfull : accumulated k (List.replicate n x) = (k - 1) * x := by omega
    rw [constantOutput, output, hfull, ← mul_eq_pred_mul_add hk, Nat.mul_div_cancel_left x hk]
  · exact heq

end Constant

end WindradLogger.Lib.Smoothing
