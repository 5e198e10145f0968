import WindradLogger.Lib.History

set_option autoImplicit false

/-!
# Hysteresis

A trigger watches a sequence of inputs, some of which fall below one threshold
and some of which rise above another.  It counts a falling input, and then no
other until an input has risen; so two crossings that it counts always have a
rising input between them.
-/

namespace WindradLogger.Lib

variable {α : Type}

/-- The thresholds, as the inputs that are beyond them. -/
structure Hysteresis (α : Type) where
  falls : α → Bool
  rises : α → Bool

namespace Hysteresis

variable (h : Hysteresis α)

/-- Behind these inputs a falling one is counted.  At the start it is. -/
def armed (past : List α) : Bool :=
  past.foldl (fun armed x => if h.falls x then false else armed || h.rises x) true

/-- The input is counted. -/
def crosses (past : List α) (x : α) : Bool := h.armed past && h.falls x

/-- The number of inputs counted among `later`, which come behind `past`. -/
def crossings (past : List α) : List α → Nat
  | [] => 0
  | x :: later => (if h.crosses past x then 1 else 0) + crossings (past ++ [x]) later

@[simp] theorem armed_nil : h.armed [] = true := rfl

theorem armed_concat (past : List α) (x : α) :
    h.armed (past ++ [x]) = if h.falls x then false else h.armed past || h.rises x := by
  rw [armed, List.foldl_append]
  rfl

/-- The trigger is armed if behind every falling input there is a rising one. -/
theorem armed_iff (past : List α) : h.armed past = true ↔
    ∀ before x after, past = before ++ x :: after → h.falls x = true →
      ∃ y ∈ after, h.rises y = true := by
  induction past using List.reverseRecOn with
  | nil =>
      refine iff_of_true rfl ?_
      intro before x after hsplit
      simp at hsplit
  | append_singleton past last ih =>
      rw [armed_concat]
      constructor
      · intro harmed before x after hsplit hfalls
        split at harmed
        · cases harmed
        · rename_i hlast
          obtain ⟨_, _, rfl⟩ | ⟨after', rfl, rfl⟩ := concat_eq_append_cons hsplit
          · exact absurd hfalls hlast
          · rw [Bool.or_eq_true] at harmed
            cases harmed with
            | inl hpast =>
                obtain ⟨y, hy, hrises⟩ := ih.mp hpast before x after' rfl hfalls
                exact ⟨y, List.mem_append_left _ hy, hrises⟩
            | inr hrises => exact ⟨last, by simp, hrises⟩
      · intro hall
        split
        · rename_i hlast
          obtain ⟨y, hy, _⟩ := hall past last [] rfl hlast
          cases hy
        · rw [Bool.or_eq_true]
          rcases Bool.eq_false_or_eq_true (h.rises last) with hrises | hnot
          · exact Or.inr hrises
          · refine Or.inl (ih.mpr ?_)
            intro before x after hsplit hfalls
            obtain ⟨y, hy, hrises⟩ := hall before x (after ++ [last]) (by simp [hsplit]) hfalls
            rw [List.mem_append, List.mem_singleton] at hy
            cases hy with
            | inl hafter => exact ⟨y, hafter, hrises⟩
            | inr heq =>
                rw [heq, hnot] at hrises
                cases hrises

/-- Between two crossings an input has risen. -/
theorem exists_rises_between {before between : List α} {first second : α}
    (hfirst : h.falls first = true)
    (hsecond : h.crosses (before ++ first :: between) second = true) :
    ∃ y ∈ between, h.rises y = true := by
  rw [crosses, Bool.and_eq_true] at hsecond
  exact (h.armed_iff _).mp hsecond.1 before first between rfl hfirst

@[simp] theorem crossings_nil (past : List α) : h.crossings past [] = 0 := rfl

theorem crossings_concat (past later : List α) (x : α) :
    h.crossings past (later ++ [x]) =
      h.crossings past later + if h.crosses (past ++ later) x then 1 else 0 := by
  induction later generalizing past with
  | nil => simp [crossings]
  | cons y later ih =>
      rw [List.cons_append, crossings, crossings, ih, List.append_assoc, List.singleton_append,
        Nat.add_assoc]

end Hysteresis

end WindradLogger.Lib
