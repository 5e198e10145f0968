import Mathlib.Data.Finset.Card
import Mathlib.Data.List.Induction

set_option autoImplicit false

/-!
# A table of what has been seen

A table with a limited number of entries takes every key that it does not hold
yet.  When it is full, the new key takes the place of the last one.  So it never
holds a key twice, and it has lost one exactly when more different keys came than
it has entries.
-/

namespace WindradLogger.Lib.SeenTable

variable {α : Type} [DecidableEq α] (capacity : Nat)

/-- The table after a key. -/
def enter (table : List α) (key : α) : List α :=
  if key ∈ table then table
  else if table.length < capacity then table ++ [key]
  else table.dropLast ++ [key]

/-- The table after keys, from nothing. -/
def entered (keys : List α) : List α := keys.foldl (enter capacity) []

theorem entered_concat (keys : List α) (key : α) :
    entered capacity (keys ++ [key]) = enter capacity (entered capacity keys) key := by
  rw [entered, List.foldl_append]
  rfl

variable {capacity}

section Enter

variable {table : List α}

theorem nodup_enter (h : table.Nodup) (key : α) : (enter capacity table key).Nodup := by
  unfold enter
  split
  · exact h
  · rename_i habsent
    split
    · rw [← List.concat_eq_append]
      exact h.concat habsent
    · rw [← List.concat_eq_append]
      exact (h.sublist (List.dropLast_sublist table)).concat
        fun hmem => habsent (List.mem_of_mem_dropLast hmem)

theorem length_enter_le (hcapacity : 0 < capacity) (h : table.length ≤ capacity) (key : α) :
    (enter capacity table key).length ≤ capacity := by
  unfold enter
  split
  · exact h
  · split
    · rename_i hroom
      rw [List.length_append]
      exact hroom
    · rw [List.length_append, List.length_dropLast, List.length_singleton]
      omega

theorem mem_enter {key x : α} (h : x ∈ enter capacity table key) : x ∈ table ∨ x = key := by
  unfold enter at h
  split at h
  · exact Or.inl h
  · split at h
    · exact (List.mem_append.mp h).imp_right List.mem_singleton.mp
    · exact (List.mem_append.mp h).imp List.mem_of_mem_dropLast List.mem_singleton.mp

/-- The new key is in the table. -/
theorem self_mem_enter (key : α) : key ∈ enter capacity table key := by
  unfold enter
  split
  · assumption
  · split
    · exact List.mem_append_right _ List.mem_cons_self
    · exact List.mem_append_right _ List.mem_cons_self

/-- With room for it nothing is lost. -/
theorem mem_enter_of_mem {key x : α} (hroom : key ∈ table ∨ table.length < capacity)
    (h : x ∈ table) : x ∈ enter capacity table key := by
  unfold enter
  split
  · exact h
  · rename_i habsent
    rw [if_pos (hroom.resolve_left habsent)]
    exact List.mem_append_left _ h

end Enter

/-! ## Runs -/

variable {keys : List α}

theorem nodup_entered : (entered capacity keys).Nodup := by
  induction keys using List.reverseRecOn with
  | nil => exact List.nodup_nil
  | append_singleton past key ih =>
      rw [entered_concat]
      exact nodup_enter ih key

theorem length_entered_le (hcapacity : 0 < capacity) :
    (entered capacity keys).length ≤ capacity := by
  induction keys using List.reverseRecOn with
  | nil => exact Nat.zero_le _
  | append_singleton past key ih =>
      rw [entered_concat]
      exact length_enter_le hcapacity ih key

theorem mem_of_mem_entered {x : α} (h : x ∈ entered capacity keys) : x ∈ keys := by
  induction keys using List.reverseRecOn with
  | nil => exact h
  | append_singleton past key ih =>
      rw [entered_concat] at h
      rcases mem_enter h with hpast | rfl
      · exact List.mem_append_left _ (ih hpast)
      · exact List.mem_append_right _ List.mem_cons_self

/-- A table that holds all keys has as many entries as there were different keys. -/
theorem length_eq_card (hall : ∀ key ∈ keys, key ∈ entered capacity keys) :
    (entered capacity keys).length = keys.toFinset.card := by
  rw [← List.toFinset_card_of_nodup nodup_entered]
  congr 1
  ext x
  rw [List.mem_toFinset, List.mem_toFinset]
  exact ⟨mem_of_mem_entered, hall x⟩

/-- All keys are in the table exactly when there are no more different keys than
entries. -/
theorem forall_mem_entered_iff (hcapacity : 0 < capacity) :
    (∀ key ∈ keys, key ∈ entered capacity keys) ↔ keys.toFinset.card ≤ capacity := by
  constructor
  · intro hall
    rw [← length_eq_card hall]
    exact length_entered_le hcapacity
  · intro hcard
    induction keys using List.reverseRecOn with
    | nil => exact fun key h => h
    | append_singleton past last ih =>
        have hsubset : past.toFinset ⊆ (past ++ [last]).toFinset := by
          rw [List.toFinset_append]
          exact Finset.subset_union_left
        have hall := ih ((Finset.card_le_card hsubset).trans hcard)
        -- There is room for the last key, or it is known.
        have hroom : last ∈ entered capacity past ∨ (entered capacity past).length < capacity := by
          rw [length_eq_card hall]
          by_cases hknown : last ∈ past
          · exact Or.inl (hall last hknown)
          · have hmore : past.toFinset ⊂ (past ++ [last]).toFinset := by
              rw [Finset.ssubset_iff_of_subset hsubset]
              exact ⟨last, by simp, by simpa using hknown⟩
            exact Or.inr (Nat.lt_of_lt_of_le (Finset.card_lt_card hmore) hcard)
        rw [entered_concat]
        intro key hmem
        rcases List.mem_append.mp hmem with hpast | hlast
        · exact mem_enter_of_mem hroom (hall key hpast)
        · rw [List.mem_singleton.mp hlast]
          exact self_mem_enter last

end WindradLogger.Lib.SeenTable
