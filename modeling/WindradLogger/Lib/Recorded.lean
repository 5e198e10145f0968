import Mathlib.Algebra.Group.Int.Defs
import Mathlib.Algebra.Group.Nat.Defs
import Mathlib.Data.Int.Basic

set_option autoImplicit false

/-!
# Machine arithmetic with a record of its operations

A sum or a product of a machine stands for the sum or product of the integers as
long as that fits into the type, and a division needs a divisor that is not zero.
A computation that records what it did can be asked, after the fact, whether all
of this was so; if it was, each of its results is the integer it stands for.

The operations are those of any type whose values are read as integers in a range
and whose operations are exact as long as they stay in it.
-/

namespace WindradLogger.Lib

/-- What an operation did: it left a result in a type with the given range, or it
divided. -/
inductive Operation where
  | result (lower upper exact : Int)
  | division (divisor : Int)
  deriving DecidableEq, Repr

/-- The result fits, or the divisor is not zero. -/
def Operation.Sound : Operation → Prop
  | .result lower upper exact => lower ≤ exact ∧ exact < upper
  | .division divisor => divisor ≠ 0

instance : DecidablePred Operation.Sound := fun op =>
  match op with
  | .result lower upper exact => inferInstanceAs (Decidable (lower ≤ exact ∧ exact < upper))
  | .division divisor => inferInstanceAs (Decidable (divisor ≠ 0))

@[simp] theorem Operation.sound_result {lower upper exact : Int} :
    (Operation.result lower upper exact).Sound ↔ lower ≤ exact ∧ exact < upper := Iff.rfl

@[simp] theorem Operation.sound_division {divisor : Int} :
    (Operation.division divisor).Sound ↔ divisor ≠ 0 := Iff.rfl

/-! ## Computations -/

/-- A value and the operations that led to it. -/
structure Recorded (α : Type) where
  value : α
  operations : List Operation

namespace Recorded

variable {α β : Type}

instance : Monad Recorded where
  pure a := ⟨a, []⟩
  bind x f := ⟨(f x.value).value, x.operations ++ (f x.value).operations⟩

/-- All that was done was sound. -/
def Sound (x : Recorded α) : Prop := ∀ op ∈ x.operations, op.Sound

instance (x : Recorded α) : Decidable x.Sound :=
  inferInstanceAs (Decidable (∀ op ∈ x.operations, op.Sound))

@[simp] theorem sound_pure (a : α) : (pure a : Recorded α).Sound := fun _ h => by cases h

@[simp] theorem sound_bind (x : Recorded α) (f : α → Recorded β) :
    (x >>= f).Sound ↔ x.Sound ∧ (f x.value).Sound :=
  List.forall_mem_append

/-- Soundness, and what is known of the value. -/
def Computes (x : Recorded α) (P : α → Prop) : Prop := x.Sound ∧ P x.value

theorem computes_pure {a : α} {P : α → Prop} (h : P a) : (pure a : Recorded α).Computes P :=
  ⟨sound_pure a, h⟩

/-- The rule of sequencing. -/
theorem computes_bind {x : Recorded α} {f : α → Recorded β} {P : α → Prop} {Q : β → Prop}
    (hx : x.Computes P) (hf : ∀ a, P a → (f a).Computes Q) : (x >>= f).Computes Q := by
  obtain ⟨hsound, hvalue⟩ := hx
  obtain ⟨hsound', hvalue'⟩ := hf x.value hvalue
  exact ⟨(sound_bind x f).mpr ⟨hsound, hsound'⟩, hvalue'⟩

/-- The same rule for the question when a computation is sound. -/
theorem sound_bind_iff {x : Recorded α} {f : α → Recorded β} {P : α → Prop} {q : Prop}
    (hx : x.Computes P) (hf : ∀ a, P a → ((f a).Sound ↔ q)) : (x >>= f).Sound ↔ q := by
  obtain ⟨hsound, hvalue⟩ := hx
  rw [sound_bind, and_iff_right hsound]
  exact hf x.value hvalue

end Recorded

/-! ## Types -/

/-- A type of machine integers: how its values are read, and that its operations
are exact as long as the result fits. -/
class MachineInt (α : Type) extends Add α, Sub α, Mul α, Div α where
  lower : Int
  upper : Int
  read : α → Int
  read_add : ∀ a b : α, lower ≤ read a + read b → read a + read b < upper →
    read (a + b) = read a + read b
  read_sub : ∀ a b : α, lower ≤ read a - read b → read a - read b < upper →
    read (a - b) = read a - read b
  read_mul : ∀ a b : α, lower ≤ read a * read b → read a * read b < upper →
    read (a * b) = read a * read b
  read_div : ∀ a b : α, lower ≤ (read a).tdiv (read b) → (read a).tdiv (read b) < upper →
    read (a / b) = (read a).tdiv (read b)

instance : MachineInt Int64 where
  lower := -2 ^ 63
  upper := 2 ^ 63
  read := Int64.toInt
  read_add a b hlower hupper := (Int64.toInt_add a b).trans (Int.bmod_eq_of_le hlower hupper)
  read_sub a b hlower hupper := (Int64.toInt_sub a b).trans (Int.bmod_eq_of_le hlower hupper)
  read_mul a b hlower hupper := (Int64.toInt_mul a b).trans (Int.bmod_eq_of_le hlower hupper)
  read_div a b hlower hupper := (Int64.toInt_div a b).trans (Int.bmod_eq_of_le hlower hupper)

instance : MachineInt Int32 where
  lower := -2 ^ 31
  upper := 2 ^ 31
  read := Int32.toInt
  read_add a b hlower hupper := (Int32.toInt_add a b).trans (Int.bmod_eq_of_le hlower hupper)
  read_sub a b hlower hupper := (Int32.toInt_sub a b).trans (Int.bmod_eq_of_le hlower hupper)
  read_mul a b hlower hupper := (Int32.toInt_mul a b).trans (Int.bmod_eq_of_le hlower hupper)
  read_div a b hlower hupper := (Int32.toInt_div a b).trans (Int.bmod_eq_of_le hlower hupper)

instance : MachineInt UInt32 where
  lower := 0
  upper := 2 ^ 32
  read a := a.toNat
  read_add a b _ hupper := by
    rw [UInt32.toNat_add]
    omega
  read_sub a b hlower _ := by
    have := a.toNat_lt
    rw [UInt32.toNat_sub]
    omega
  read_mul a b _ hupper := by
    rw [UInt32.toNat_mul, Nat.mod_eq_of_lt (by exact_mod_cast hupper)]
    exact Int.natCast_mul _ _
  read_div a b _ _ := by
    rw [UInt32.toNat_div, Int.ofNat_tdiv]

/-! ## Operations -/

namespace Recorded

variable {α : Type} [MachineInt α]

/-- A result that is `exact` over the integers. -/
def result (value : α) (exact : Int) : Recorded α :=
  ⟨value, [.result (MachineInt.lower α) (MachineInt.upper α) exact]⟩

@[simp] theorem sound_result {value : α} {exact : Int} :
    (result value exact).Sound ↔ MachineInt.lower α ≤ exact ∧ exact < MachineInt.upper α := by
  simp [Sound, result]

def add (a b : α) : Recorded α := result (a + b) (MachineInt.read a + MachineInt.read b)

def sub (a b : α) : Recorded α := result (a - b) (MachineInt.read a - MachineInt.read b)

def mul (a b : α) : Recorded α := result (a * b) (MachineInt.read a * MachineInt.read b)

def div (a b : α) : Recorded α :=
  let quotient := result (a / b) ((MachineInt.read a).tdiv (MachineInt.read b))
  { quotient with operations := .division (MachineInt.read b) :: quotient.operations }

variable {a b : α} {m n : Int}

/-! What an operation computes, when its operands stand for `m` and `n` and its
result fits. -/

theorem computes_add (ha : MachineInt.read a = m) (hb : MachineInt.read b = n)
    (hlower : MachineInt.lower α ≤ m + n) (hupper : m + n < MachineInt.upper α) :
    (add a b).Computes fun c => MachineInt.read c = m + n := by
  subst ha hb
  exact ⟨sound_result.mpr ⟨hlower, hupper⟩, MachineInt.read_add a b hlower hupper⟩

theorem computes_sub (ha : MachineInt.read a = m) (hb : MachineInt.read b = n)
    (hlower : MachineInt.lower α ≤ m - n) (hupper : m - n < MachineInt.upper α) :
    (sub a b).Computes fun c => MachineInt.read c = m - n := by
  subst ha hb
  exact ⟨sound_result.mpr ⟨hlower, hupper⟩, MachineInt.read_sub a b hlower hupper⟩

theorem computes_mul (ha : MachineInt.read a = m) (hb : MachineInt.read b = n)
    (hlower : MachineInt.lower α ≤ m * n) (hupper : m * n < MachineInt.upper α) :
    (mul a b).Computes fun c => MachineInt.read c = m * n := by
  subst ha hb
  exact ⟨sound_result.mpr ⟨hlower, hupper⟩, MachineInt.read_mul a b hlower hupper⟩

theorem sound_div : (div a b).Sound ↔ MachineInt.read b ≠ 0 ∧
    MachineInt.lower α ≤ (MachineInt.read a).tdiv (MachineInt.read b) ∧
      (MachineInt.read a).tdiv (MachineInt.read b) < MachineInt.upper α := by
  simp [Sound, div, result]

theorem computes_div (ha : MachineInt.read a = m) (hb : MachineInt.read b = n) (hn : n ≠ 0)
    (hlower : MachineInt.lower α ≤ m.tdiv n) (hupper : m.tdiv n < MachineInt.upper α) :
    (div a b).Computes fun c => MachineInt.read c = m.tdiv n := by
  subst ha hb
  exact ⟨sound_div.mpr ⟨hn, hlower, hupper⟩, MachineInt.read_div a b hlower hupper⟩

/-! What is sound for unsigned operands. -/

theorem sound_mul_uint32 {a b : UInt32} :
    (mul a b).Sound ↔ a.toNat * b.toNat < 2 ^ 32 := by
  have hiff : (mul a b).Sound ↔
      (0 : Int) ≤ (a.toNat : Int) * b.toNat ∧ (a.toNat : Int) * b.toNat < 2 ^ 32 := sound_result
  have hcast : (a.toNat : Int) * b.toNat = (a.toNat * b.toNat : Nat) :=
    (Int.natCast_mul _ _).symm
  rw [hiff, hcast]
  omega

theorem sound_div_uint32 {a b : UInt32} : (div a b).Sound ↔ b.toNat ≠ 0 := by
  have hiff : (div a b).Sound ↔ (b.toNat : Int) ≠ 0 ∧
      (0 : Int) ≤ (a.toNat : Int).tdiv b.toNat ∧ (a.toNat : Int).tdiv b.toNat < 2 ^ 32 := sound_div
  have hlt := a.toNat_lt
  have hle := Nat.div_le_self a.toNat b.toNat
  rw [hiff, ← Int.ofNat_tdiv]
  generalize a.toNat / b.toNat = quotient at *
  omega

end Recorded

end WindradLogger.Lib
