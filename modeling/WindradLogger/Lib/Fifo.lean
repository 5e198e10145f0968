import Mathlib.Data.List.Basic

set_option autoImplicit false

/-!
# Bounded queues

A queue of bounded capacity takes an item at one end, unless it is full, and hands
out the oldest one at the other.  Every operation is atomic.
-/

namespace WindradLogger.Lib

variable {α : Type} {capacity : Nat}

/-- The items in a queue, the oldest one first. -/
structure Fifo (α : Type) (capacity : Nat) where
  items : List α
  bounded : items.length ≤ capacity

namespace Fifo

def empty : Fifo α capacity := { items := [], bounded := Nat.zero_le _ }

/-- A queue that is full refuses the item. -/
def send (q : Fifo α capacity) (item : α) : Option (Fifo α capacity) :=
  if h : q.items.length < capacity then
    some
      { items := q.items ++ [item]
        bounded := by
          rw [List.length_append]
          exact h }
  else none

/-- A queue that is empty has nothing to hand out. -/
def receive (q : Fifo α capacity) : Option (α × Fifo α capacity) :=
  match q with
  | { items := [], .. } => none
  | { items := item :: rest, bounded } =>
      some (item, { items := rest, bounded := Nat.le_of_succ_le bounded })

theorem send_eq_some_iff {q q' : Fifo α capacity} {item : α} :
    q.send item = some q' ↔ q'.items = q.items ++ [item] := by
  refine ⟨?_, ?_⟩
  · intro h
    rw [send] at h
    split at h
    · cases h
      rfl
    · cases h
  · intro h
    have hroom : q.items.length < capacity := by
      have hbounded := q'.bounded
      rw [h, List.length_append, List.length_singleton] at hbounded
      exact hbounded
    obtain ⟨items, bounded⟩ := q'
    cases h
    exact dif_pos hroom

theorem send_eq_none_iff {q : Fifo α capacity} {item : α} :
    q.send item = none ↔ q.items.length = capacity := by
  have hbounded := q.bounded
  rw [send]
  split
  · simp only [reduceCtorEq, false_iff]
    omega
  · simp only [true_iff]
    omega

/-- An empty queue takes an item. -/
theorem send_of_empty (hcapacity : 0 < capacity) {q : Fifo α capacity} (h : q.items = [])
    (item : α) : ∃ q', q.send item = some q' ∧ q'.items = [item] := by
  refine ⟨{ items := [item], bounded := hcapacity }, ?_, rfl⟩
  rw [send_eq_some_iff, h]
  rfl

theorem receive_eq_some_iff {q q' : Fifo α capacity} {item : α} :
    q.receive = some (item, q') ↔ q.items = item :: q'.items := by
  obtain ⟨items, bounded⟩ := q
  obtain ⟨items', bounded'⟩ := q'
  cases items with
  | nil => simp [receive]
  | cons first rest => simp [receive]

theorem receive_eq_none_iff {q : Fifo α capacity} : q.receive = none ↔ q.items = [] := by
  obtain ⟨items, bounded⟩ := q
  cases items with
  | nil => simp [receive]
  | cons first rest => simp [receive]

end Fifo

end WindradLogger.Lib
