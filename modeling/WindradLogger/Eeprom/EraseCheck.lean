import WindradLogger.Eeprom.Init

set_option autoImplicit false

/-!
# What the erase check sees

`EE_VerifyPageFullyErased` reads half-words but steps over words, and it stops at
`PAGE0_END_ADDRESS` also when it was asked for page 1.  `EE_Init` and `EE_Format`
skip the erase when it answers that the page is erased.
-/

namespace WindradLogger.Eeprom

open WindradLogger.Flash

/-- `a` is the address of a half-word between `base` and `pageEnd`. -/
def HalfWordOf (base pageEnd a : Nat) : Prop :=
  base ≤ a ∧ a + 1 ≤ pageEnd ∧ (a - base) % 2 = 0

instance (base pageEnd a : Nat) : Decidable (HalfWordOf base pageEnd a) :=
  inferInstanceAs (Decidable (_ ∧ _))

/-- Every half-word between `base` and `pageEnd` is erased. -/
def FullyErased (f : Content) (base pageEnd : Nat) : Prop :=
  ∀ a, HalfWordOf base pageEnd a → f a = erased

/-- The erase check of the page at `base` answers for all of it. -/
def ErasedExactly (f : Content) (base pageEnd : Nat) : Prop :=
  eeVerifyPageFullyErased f base = true ↔ FullyErased f base pageEnd

/-- `a` is an address the erase check started at `base` reads, unless it has found
a programmed half-word before. -/
def Probed (base a : Nat) : Prop :=
  base ≤ a ∧ a ≤ page0EndAddress ∧ (a - base) % 4 = 0

instance (base a : Nat) : Decidable (Probed base a) := inferInstanceAs (Decidable (_ ∧ _))

theorem eeVerifyPageFullyErased_iff_probed (f : Content) (base : Nat) :
    eeVerifyPageFullyErased f base = true ↔ ∀ a, Probed base a → f a = erased := by
  rw [eeVerifyPageFullyErased_iff]
  constructor
  · intro h a ha
    obtain ⟨hbase, hend, hstep⟩ := ha
    have hk : base + 4 * ((a - base) / 4) = a := by omega
    have hread := h ((a - base) / 4)
    rw [hk] at hread
    exact hread hend
  · intro h k hk
    exact h _ ⟨Nat.le_add_right _ _, hk, by omega⟩

section Exact

variable {f : Content} {base pageEnd : Nat}

/-- A page whose half-words the check all reads is judged right, and of any other
page one programmed half-word that it reads is enough. -/
theorem erasedExactly_iff_of_probed (hprobed : ∀ a, Probed base a → HalfWordOf base pageEnd a) :
    ErasedExactly f base pageEnd ↔
      (∃ a, Probed base a ∧ f a ≠ erased) ∨
        ∀ a, HalfWordOf base pageEnd a → ¬ Probed base a → f a = erased := by
  rw [ErasedExactly, eeVerifyPageFullyErased_iff_probed]
  constructor
  · intro hexact
    rcases Classical.em (∀ a, Probed base a → f a = erased) with hall | hsome
    · exact Or.inr fun a ha _ => hexact.mp hall a ha
    · obtain ⟨a, ha⟩ := not_forall.mp hsome
      exact Or.inl ⟨a, Classical.not_imp.mp ha⟩
  · intro hcases
    refine ⟨fun hall a ha => ?_, fun herased a ha => herased a (hprobed a ha)⟩
    rcases hcases with ⟨b, hb, hne⟩ | hrest
    · exact absurd (hall b hb) hne
    · rcases Classical.em (Probed base a) with hread | hunread
      · exact hall a hread
      · exact hrest a ha hunread

end Exact

theorem halfWordOf_of_probed {base pageEnd a : Nat} (heven : base % 2 = 0)
    (hend : page0EndAddress ≤ pageEnd) (ha : Probed base a) : HalfWordOf base pageEnd a := by
  obtain ⟨hbase, hle, hstep⟩ := ha
  have hodd : page0EndAddress = 0x080DFFFF := rfl
  exact ⟨hbase, by omega, by omega⟩

/-- The check of a page is exact when some half-word it reads is programmed, or
none of the others of the page is. -/
theorem erasedExactly_iff (f : Content) :
    (ErasedExactly f page0BaseAddress page0EndAddress ↔
      (∃ a, Probed page0BaseAddress a ∧ f a ≠ erased) ∨
        ∀ a, HalfWordOf page0BaseAddress page0EndAddress a → ¬ Probed page0BaseAddress a →
          f a = erased) ∧
    (ErasedExactly f page1BaseAddress page1EndAddress ↔
      (∃ a, Probed page1BaseAddress a ∧ f a ≠ erased) ∨
        ∀ a, HalfWordOf page1BaseAddress page1EndAddress a → ¬ Probed page1BaseAddress a →
          f a = erased) :=
  ⟨erasedExactly_iff_of_probed fun _ ha =>
      halfWordOf_of_probed (by decide) (Nat.le_refl _) ha,
    erasedExactly_iff_of_probed fun _ ha =>
      halfWordOf_of_probed (by decide) (by decide) ha⟩

/-- A device with a single programmed half-word. -/
def programmedAt (a : Nat) : Content := Function.update (fun _ => erased) a 0#16

/-- With one programmed half-word, the check is exact when it reads that one. -/
theorem erasedExactly_programmedAt_iff {base pageEnd a : Nat}
    (hprobed : ∀ b, Probed base b → HalfWordOf base pageEnd b)
    (ha : HalfWordOf base pageEnd a) :
    ErasedExactly (programmedAt a) base pageEnd ↔ Probed base a := by
  have hself : programmedAt a a ≠ erased := by
    rw [programmedAt, Function.update_self]
    exact validPage_ne_erased
  rw [erasedExactly_iff_of_probed hprobed]
  constructor
  · intro hcases
    rcases hcases with ⟨b, hb, hne⟩ | hrest
    · rcases eq_or_ne b a with rfl | hba
      · exact hb
      · exact absurd (Function.update_of_ne hba _ _) hne
    · by_contra hunread
      exact hself (hrest a ha hunread)
  · exact fun hread => Or.inl ⟨a, hread, hself⟩

/-- The second half-word of page 0 is not seen, and neither is the last of page 1. -/
theorem not_erasedExactly :
    ¬ ErasedExactly (programmedAt (page0BaseAddress + 2)) page0BaseAddress page0EndAddress ∧
    ¬ ErasedExactly (programmedAt (page1EndAddress - 1)) page1BaseAddress page1EndAddress := by
  constructor
  · rw [erasedExactly_programmedAt_iff
      (fun _ hb => halfWordOf_of_probed (by decide) (Nat.le_refl _) hb) (by decide)]
    decide
  · rw [erasedExactly_programmedAt_iff
      (fun _ hb => halfWordOf_of_probed (by decide) (by decide) hb) (by decide)]
    decide

end WindradLogger.Eeprom
