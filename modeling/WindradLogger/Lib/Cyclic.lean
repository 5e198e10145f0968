import Mathlib.Data.Nat.Basic

set_option autoImplicit false

/-!
# Counters that wrap

A counter of period `m` that has counted to `a` shows `a % m`, and has gone
through `a / m` laps.  Readings order counts that lie in the same lap; across the
end of a lap they order them the other way round, as long as the counts are less
than a period apart.
-/

namespace WindradLogger.Lib

/-- The counter shows both counts in the same lap. -/
def SameLap (m a b : Nat) : Prop := a / m = b / m

instance (m a b : Nat) : Decidable (SameLap m a b) := inferInstanceAs (Decidable (a / m = b / m))

variable {m a b : Nat}

theorem SameLap.refl (m a : Nat) : SameLap m a a := rfl

/-- In one lap the readings are ordered as the counts are. -/
theorem SameLap.mod_lt_mod_iff (h : SameLap m a b) : a % m < b % m ↔ a < b := by
  have ha := Nat.div_add_mod a m
  have hb := Nat.div_add_mod b m
  rw [h] at ha
  omega

/-- Less than a period ahead, but in another lap, the reading falls behind. -/
theorem mod_lt_mod_of_not_sameLap (h : ¬SameLap m a b) (hle : a ≤ b) (hlt : b < a + m) :
    b % m < a % m := by
  have hm : 0 < m := by omega
  have hlow : a / m ≤ b / m := Nat.div_le_div_right hle
  have hhigh : b / m ≤ (a + m) / m := Nat.div_le_div_right (Nat.le_of_lt hlt)
  rw [Nat.add_div_right a hm] at hhigh
  have hnext : b / m = a / m + 1 := by
    unfold SameLap at h
    omega
  have ha := Nat.div_add_mod a m
  have hb := Nat.div_add_mod b m
  rw [hnext, Nat.mul_add, Nat.mul_one] at hb
  omega

end WindradLogger.Lib
