import Mathlib.Data.List.Basic
import Mathlib.Logic.Function.Basic

set_option autoImplicit false

/-!
# Append-only logs over numbered slots

A log is a sequence of slots, each holding a key and a value.  A key is looked
up by scanning a window of slots from the newest end; a new entry goes to the
lowest free slot of a window.  Whether an append becomes visible to a lookup is
then a question about three slot numbers only: where the append lands, where
the lookup starts and stops, and whether an older slot above the landing place
already carries the key.
-/

namespace WindradLogger.Lib

variable {κ ν : Type}

/-- The slots of a log: slot `i` holds a key and a value. -/
abbrev SlotLog (κ ν : Type) : Type := Nat → κ × ν

namespace SlotLog

/-! ## Lookup -/

/-- Scan the slots `lo + n, …, lo + 1` downwards for the key `k`. -/
def lookup [DecidableEq κ] (log : SlotLog κ ν) (lo : Nat) (k : κ) : Nat → Option ν
  | 0 => none
  | n + 1 =>
      if (log (lo + (n + 1))).1 = k then some (log (lo + (n + 1))).2
      else lookup log lo k n

/-- Slot `j` is the one a downward scan of `lo + n, …, lo + 1` for `k` stops at. -/
structure Newest (log : SlotLog κ ν) (lo n : Nat) (k : κ) (j : Nat) : Prop where
  above : lo < j
  within : j ≤ lo + n
  key : (log j).1 = k
  last : ∀ i, j < i → i ≤ lo + n → (log i).1 ≠ k

theorem Newest.unique {log : SlotLog κ ν} {lo n : Nat} {k : κ} {i j : Nat}
    (hi : Newest log lo n k i) (hj : Newest log lo n k j) : i = j := by
  rcases Nat.lt_trichotomy i j with h | h | h
  · exact absurd hj.key (hi.last j h hj.within)
  · exact h
  · exact absurd hi.key (hj.last i h hi.within)

section Lookup

variable [DecidableEq κ]

theorem lookup_eq_none_iff {log : SlotLog κ ν} {lo n : Nat} {k : κ} :
    lookup log lo k n = none ↔ ∀ j, lo < j → j ≤ lo + n → (log j).1 ≠ k := by
  induction n with
  | zero =>
      simp only [lookup, true_iff]
      intro j h1 h2
      omega
  | succ n ih =>
      simp only [lookup]
      split
      · rename_i hkey
        simp only [reduceCtorEq, false_iff]
        intro h
        exact h (lo + (n + 1)) (by omega) (by omega) hkey
      · rename_i hkey
        rw [ih]
        constructor
        · intro h j h1 h2
          by_cases hj : j = lo + (n + 1)
          · rw [hj]; exact hkey
          · exact h j h1 (by omega)
        · intro h j h1 h2
          exact h j h1 (by omega)

/-- A lookup returns the value of the newest slot carrying the key. -/
theorem lookup_of_newest {log : SlotLog κ ν} {lo n : Nat} {k : κ} {j : Nat}
    (h : Newest log lo n k j) : lookup log lo k n = some (log j).2 := by
  induction n with
  | zero =>
      have h1 := h.above
      have h2 := h.within
      omega
  | succ n ih =>
      simp only [lookup]
      by_cases hj : j = lo + (n + 1)
      · rw [if_pos (hj ▸ h.key), ← hj]
      · have hle : j ≤ lo + n := by have := h.within; omega
        rw [if_neg (h.last (lo + (n + 1)) (by omega) (by omega))]
        exact ih ⟨h.above, hle, h.key, fun i h1 h2 => h.last i h1 (by omega)⟩

/-- A successful lookup stopped at some slot. -/
theorem newest_of_lookup {log : SlotLog κ ν} {lo n : Nat} {k : κ} {v : ν}
    (h : lookup log lo k n = some v) :
    ∃ j, Newest log lo n k j ∧ (log j).2 = v := by
  induction n with
  | zero => simp [lookup] at h
  | succ n ih =>
      simp only [lookup] at h
      split at h
      · rename_i hkey
        refine ⟨lo + (n + 1), ⟨by omega, by omega, hkey, ?_⟩, by simpa using h⟩
        intro i h1 h2
        omega
      · rename_i hkey
        obtain ⟨j, hj, hv⟩ := ih h
        refine ⟨j, ⟨hj.above, by have := hj.within; omega, hj.key, ?_⟩, hv⟩
        intro i h1 h2
        by_cases hi : i = lo + (n + 1)
        · rw [hi]; exact hkey
        · exact hj.last i h1 (by omega)

/-- A scan goes through the upper part of its window first. -/
theorem lookup_add (log : SlotLog κ ν) (lo : Nat) (k : κ) (m n : Nat) :
    lookup log lo k (m + n) = (lookup log (lo + m) k n).or (lookup log lo k m) := by
  induction n with
  | zero => rfl
  | succ n ih =>
      rw [← Nat.add_assoc, lookup, lookup, ih, Nat.add_assoc lo, Nat.add_assoc m]
      split
      · rfl
      · rfl

/-- Two logs that agree on every slot in which either carries the key give the
same lookup. -/
theorem lookup_congr {log log' : SlotLog κ ν} {lo n : Nat} {k : κ}
    (h : ∀ j, lo < j → j ≤ lo + n → (log j).1 = k ∨ (log' j).1 = k → log j = log' j) :
    lookup log lo k n = lookup log' lo k n := by
  induction n with
  | zero => rfl
  | succ n ih =>
      have hrec := ih fun j h1 h2 => h j h1 (by omega)
      have htop := h (lo + (n + 1)) (by omega) (by omega)
      simp only [lookup, hrec]
      by_cases hk : (log (lo + (n + 1))).1 = k
      · rw [if_pos hk, if_pos ((htop (Or.inl hk)) ▸ hk), htop (Or.inl hk)]
      · by_cases hk' : (log' (lo + (n + 1))).1 = k
        · rw [htop (Or.inr hk')] at hk
          exact absurd hk' hk
        · rw [if_neg hk, if_neg hk']

/-! ## Append -/

/-- Write the entry `(k, v)` into slot `j`. -/
def put (log : SlotLog κ ν) (j : Nat) (k : κ) (v : ν) : SlotLog κ ν :=
  Function.update log j (k, v)

/-- An append changes no lookup of a key other than its own, provided the slot
it overwrites did not carry that key. -/
theorem lookup_put_of_ne {log : SlotLog κ ν} {lo n j : Nat} {k k' : κ} {v : ν}
    (hne : k' ≠ k) (hold : (log j).1 ≠ k') :
    lookup (put log j k v) lo k' n = lookup log lo k' n := by
  apply lookup_congr
  intro i _ _ hi
  by_cases hij : i = j
  · subst hij
    rcases hi with hi | hi
    · simp [put] at hi
      exact absurd hi.symm hne
    · exact absurd hi hold
  · simp [put, Function.update_of_ne hij]

/-- The slot `j` lies in the scanned window and no newer slot carries `k`: an
entry for `k` written there is the one a lookup finds. -/
structure Visible (log : SlotLog κ ν) (lo n : Nat) (k : κ) (j : Nat) : Prop where
  above : lo < j
  within : j ≤ lo + n
  last : ∀ i, j < i → i ≤ lo + n → (log i).1 ≠ k

theorem lookup_put_self {log : SlotLog κ ν} {lo n j : Nat} {k : κ} {v : ν}
    (h : Visible log lo n k j) : lookup (put log j k v) lo k n = some v := by
  have hnew : Newest (put log j k v) lo n k j := by
    refine ⟨h.above, h.within, by simp [put], ?_⟩
    intro i h1 h2
    have hij : i ≠ j := by omega
    simpa [put, Function.update_of_ne hij] using h.last i h1 h2
  simpa [put] using lookup_of_newest hnew

/-- An append that is not visible leaves the lookup of its own key alone. -/
theorem lookup_put_of_not_visible {log : SlotLog κ ν} {lo n j : Nat} {k : κ} {v : ν}
    (h : ¬ Visible log lo n k j) :
    lookup (put log j k v) lo k n = lookup log lo k n := by
  by_cases hin : lo < j ∧ j ≤ lo + n
  · -- Inside the window: some newer slot carries the key, and both scans stop there.
    have hshadow : ∃ i, j < i ∧ i ≤ lo + n ∧ (log i).1 = k := by
      by_contra hno
      apply h
      refine ⟨hin.1, hin.2, ?_⟩
      intro i h1 h2 h3
      exact hno ⟨i, h1, h2, h3⟩
    obtain ⟨i, hji, hin', hik⟩ := hshadow
    cases hl : lookup log lo k n with
    | none => exact absurd hik (lookup_eq_none_iff.mp hl i (by omega) hin')
    | some w =>
        obtain ⟨m, hm, hw⟩ := newest_of_lookup hl
        have him : i ≤ m := by
          by_contra hlt
          exact hm.last i (by omega) hin' hik
        have hmj : m ≠ j := by omega
        have hnew : Newest (put log j k v) lo n k m := by
          refine ⟨hm.above, hm.within, by simp [put, Function.update_of_ne hmj, hm.key], ?_⟩
          intro i' h1 h2
          have hij : i' ≠ j := by omega
          simpa [put, Function.update_of_ne hij] using hm.last i' h1 h2
        rw [lookup_of_newest hnew]
        simp [put, Function.update_of_ne hmj, hw]
  · apply lookup_congr
    intro i h1 h2 _
    have hij : i ≠ j := by omega
    simp [put, Function.update_of_ne hij]

end Lookup

/-! ## First fit -/

/-- The lowest free slot among `lo, …, lo + n - 1`. -/
def firstFree (free : Nat → Bool) (lo n : Nat) : Option Nat :=
  (List.range' lo n).find? free

/-- The number of free slots among `lo, …, lo + n - 1`. -/
def freeCount (free : Nat → Bool) (lo n : Nat) : Nat :=
  (List.range' lo n).countP free

theorem firstFree_eq_some_iff {free : Nat → Bool} {lo n j : Nat} :
    firstFree free lo n = some j ↔
      free j = true ∧ lo ≤ j ∧ j < lo + n ∧ ∀ i, lo ≤ i → i < j → free i = false := by
  simp only [firstFree, List.find?_range'_eq_some, List.mem_range'_1, Bool.not_eq_true']
  tauto

theorem firstFree_eq_none_iff {free : Nat → Bool} {lo n : Nat} :
    firstFree free lo n = none ↔ ∀ i, lo ≤ i → i < lo + n → free i = false := by
  simp only [firstFree, List.find?_range'_eq_none, Bool.not_eq_true']

theorem firstFree_succ (free : Nat → Bool) (lo n : Nat) :
    firstFree free lo (n + 1) = if free lo then some lo else firstFree free (lo + 1) n := by
  simp only [firstFree, List.range'_succ, List.find?_cons]
  cases free lo <;> rfl

theorem freeCount_eq_zero_iff {free : Nat → Bool} {lo n : Nat} :
    freeCount free lo n = 0 ↔ firstFree free lo n = none := by
  simp [freeCount, firstFree, List.countP_eq_zero, List.find?_eq_none]

theorem freeCount_eq_of_free {free : Nat → Bool} {lo n : Nat}
    (h : ∀ i, lo ≤ i → i < lo + n → free i = true) : freeCount free lo n = n := by
  rw [freeCount, List.countP_eq_length.mpr, List.length_range']
  intro i hi
  rw [List.mem_range'_1] at hi
  exact h i hi.1 hi.2

/-- Filling the first free slot uses up exactly one. -/
theorem freeCount_fill {free free' : Nat → Bool} {lo n j : Nat}
    (hj : firstFree free lo n = some j) (hused : free' j = false)
    (hrest : ∀ i, lo ≤ i → i < lo + n → i ≠ j → free' i = free i) :
    freeCount free lo n = freeCount free' lo n + 1 := by
  induction n generalizing lo with
  | zero => simp [firstFree] at hj
  | succ n ih =>
      simp only [freeCount, List.range'_succ, List.countP_cons]
      rw [firstFree_succ] at hj
      by_cases hlo : free lo = true
      · rw [if_pos hlo] at hj
        have hjlo : lo = j := by simpa using hj
        subst hjlo
        have htail : (List.range' (lo + 1) n).countP free =
            (List.range' (lo + 1) n).countP free' := by
          apply List.countP_congr
          intro i hi
          rw [List.mem_range'_1] at hi
          rw [hrest i (by omega) (by omega) (by omega)]
        simp [hlo, hused, htail]
      · rw [if_neg hlo] at hj
        have hne : lo ≠ j := by
          have := (firstFree_eq_some_iff.mp hj).2.1
          omega
        have hrec := ih hj fun i h1 h2 h3 => hrest i (by omega) (by omega) h3
        simp only [freeCount] at hrec
        rw [hrest lo (by omega) (by omega) hne, hrec]
        omega

end SlotLog

end WindradLogger.Lib
