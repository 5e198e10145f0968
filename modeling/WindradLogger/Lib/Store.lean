import Mathlib.Logic.Function.Basic
import Mathlib.Data.Option.Basic

set_option autoImplicit false

/-!
# Key-value stores

The abstract behaviour of a store with keys `κ` and values `ν`: a write replaces
the value of its key and of no other.  After any sequence of writes a key holds
the last value written to it, or what it held before if there was none.
-/

namespace WindradLogger.Lib

variable {κ ν : Type}

/-- What a store holds for every key. -/
abbrev Store (κ ν : Type) : Type := κ → Option ν

namespace Store

variable [DecidableEq κ]

/-- A write of `entry.2` to the key `entry.1`. -/
def write (s : Store κ ν) (entry : κ × ν) : Store κ ν :=
  Function.update s entry.1 (some entry.2)

@[simp] theorem write_self (s : Store κ ν) (k : κ) (v : ν) : s.write (k, v) k = some v := by
  simp [write]

theorem write_of_ne (s : Store κ ν) {k k' : κ} (v : ν) (h : k' ≠ k) :
    s.write (k, v) k' = s k' := by
  simp [write, Function.update_of_ne h]

/-- The value of the last entry for a key. -/
def lastWrite : List (κ × ν) → κ → Option ν
  | [], _ => none
  | entry :: rest, k => (lastWrite rest k).or (if entry.1 = k then some entry.2 else none)

/-- A run of writes leaves the last value written to each key. -/
theorem foldl_write (writes : List (κ × ν)) (s : Store κ ν) (k : κ) :
    writes.foldl write s k = (lastWrite writes k).or (s k) := by
  induction writes generalizing s with
  | nil => rfl
  | cons entry rest ih =>
      obtain ⟨k', v⟩ := entry
      rw [List.foldl_cons, ih, lastWrite, Option.or_assoc]
      by_cases hk : k = k'
      · subst hk
        rw [write_self, if_pos rfl, Option.some_or]
      · rw [write_of_ne s v hk, if_neg (Ne.symm hk), Option.none_or]

/-- The last write of two runs is that of the second, if it has one. -/
theorem lastWrite_append (writes writes' : List (κ × ν)) (k : κ) :
    lastWrite (writes ++ writes') k = (lastWrite writes' k).or (lastWrite writes k) := by
  induction writes with
  | nil => exact (Option.or_none).symm
  | cons entry rest ih => rw [List.cons_append, lastWrite, ih, lastWrite, Option.or_assoc]

/-- A key has a last write exactly when some entry is for it. -/
theorem lastWrite_eq_none_iff {writes : List (κ × ν)} {k : κ} :
    lastWrite writes k = none ↔ ∀ entry ∈ writes, entry.1 ≠ k := by
  induction writes with
  | nil => simp [lastWrite]
  | cons entry rest ih => simp [lastWrite, Option.or_eq_none_iff, ih, and_comm]

/-- Where every key is written once, each entry is the last write of its key. -/
theorem lastWrite_of_nodup : ∀ {writes : List (κ × ν)}, (writes.map Prod.fst).Nodup →
    ∀ {entry : κ × ν}, entry ∈ writes → lastWrite writes entry.1 = some entry.2 := by
  intro writes
  induction writes with
  | nil =>
      intro _ entry hmem
      cases hmem
  | cons first rest ih =>
      intro hnodup entry hmem
      rw [List.map_cons, List.nodup_cons] at hnodup
      rw [lastWrite]
      rcases List.mem_cons.mp hmem with rfl | hmem
      · have hnone : lastWrite rest entry.1 = none :=
          lastWrite_eq_none_iff.mpr fun other hother heq =>
            hnodup.1 (heq ▸ List.mem_map_of_mem hother)
        rw [hnone, if_pos rfl, Option.none_or]
      · rw [ih hnodup.2 hmem, Option.some_or]

end Store

end WindradLogger.Lib
