import Mathlib.Logic.Function.Basic
import Mathlib.Order.Basic

set_option autoImplicit false

/-!
# The flash memory and the two HAL calls that change it

The HAL itself is not part of the repository.  Its two flash calls are modelled
by what they do to memory: `HAL_FLASH_Program` with `TYPEPROGRAM_HALFWORD` ANDs
a half-word into the addressed half-word, `HAL_FLASHEx_Erase` of one sector sets
exactly that STM32F407 sector to ones.  Either call may also fail, in which case
memory keeps its content; which calls fail is a parameter of the `World`.

Memory is a total map from byte addresses to half-words.  The program reads and
writes even addresses only.  Nothing here stops an access past the end of flash,
where the device has no memory and would fault: the map says what the code does with a
half-word it finds there, not that it gets one.  `Eeprom.Safety` says which writes stay
below `flashEnd`, `Eeprom.Extent` which reads.
-/

namespace WindradLogger.Flash

/-- A flash half-word (`uint16_t`). -/
abbrev HalfWord : Type := BitVec 16

/-- Flash content: the half-word stored at every address. -/
abbrev Content : Type := Nat → HalfWord

/-- A blank device: every half-word erased. -/
def blank : Content := fun _ => 0xFFFF#16

/-- `*(__IO uint32_t *)a`: two half-words, the lower address in the low half. -/
def readWord (f : Content) (a : Nat) : BitVec 32 := f (a + 2) ++ f a

/-- The upper half of a word read at `a` is the half-word at `a + 2`. -/
theorem readWord_high (f : Content) (a : Nat) :
    (readWord f a >>> 16).setWidth 16 = f (a + 2) := by
  ext i hi
  have hbit : (f (a + 2) ++ f a).getLsbD (16 + i) = (f (a + 2)).getLsbD i := by
    rw [BitVec.getLsbD_append, if_neg (by omega)]
    congr 1
    omega
  rw [BitVec.getElem_setWidth, BitVec.getLsbD_ushiftRight, ← BitVec.getLsbD_eq_getElem]
  exact hbit

/-- The lower half of a word read at `a` is the half-word at `a`. -/
theorem readWord_low (f : Content) (a : Nat) :
    (readWord f a &&& 0xFFFF#32).setWidth 16 = f a := by
  have hmask : (0xFFFF#32) = (0#16 ++ BitVec.allOnes 16 : BitVec (16 + 16)) := by decide
  have hand : (f (a + 2) ++ f a) &&& (0#16 ++ BitVec.allOnes 16) = 0#16 ++ f a := by
    rw [BitVec.and_append, BitVec.and_zero, BitVec.and_allOnes]
  rw [readWord, hmask]
  exact (congrArg (BitVec.setWidth 16) hand).trans BitVec.setWidth_append_eq_right

/-- A word reads as `0xFFFFFFFF` when both of its half-words are erased. -/
theorem readWord_eq_ones_iff (f : Content) (a : Nat) :
    readWord f a = 0xFFFFFFFF#32 ↔ f a = 0xFFFF#16 ∧ f (a + 2) = 0xFFFF#16 := by
  have hones : (0xFFFFFFFF#32) = (0xFFFF#16 ++ 0xFFFF#16 : BitVec 32) := by decide
  constructor
  · intro h
    have hlow := readWord_low f a
    have hhigh := readWord_high f a
    rw [h] at hlow hhigh
    exact ⟨hlow.symm.trans (by decide), hhigh.symm.trans (by decide)⟩
  · rintro ⟨h1, h2⟩
    rw [readWord, h1, h2, hones]

/-! ## Sectors of the STM32F407 -/

/-- First address of `FLASH_SECTOR_n`: sectors 0-3 are 16 KB, sector 4 is 64 KB
and sectors 5-11 are 128 KB. -/
def sectorStart (n : Nat) : Nat :=
  if n ≤ 4 then 0x08000000 + n * 0x4000
  else 0x08020000 + (n - 5) * 0x20000

/-- First address after `FLASH_SECTOR_n`. -/
def sectorEnd (n : Nat) : Nat := sectorStart (n + 1)

/-- First address after the device's 1024 KB of flash. -/
def flashEnd : Nat := 0x08100000

/-! ## Flash operations -/

/-- A call that changes flash: a half-word program or a sector erase. -/
inductive Op where
  /-- `HAL_FLASH_Program(TYPEPROGRAM_HALFWORD, address, data)` -/
  | program (address : Nat) (data : HalfWord)
  /-- `HAL_FLASHEx_Erase` of the one sector `sector` -/
  | erase (sector : Nat)
  deriving DecidableEq, Repr

/-- What a successful operation does to flash. -/
def Op.apply : Op → Content → Content
  | .program a v, f => Function.update f a (f a &&& v)
  | .erase n, f => fun a => if sectorStart n ≤ a ∧ a < sectorEnd n then 0xFFFF#16 else f a

/-- A sequence of successful operations, oldest first. -/
def applyOps (ops : List Op) (f : Content) : Content :=
  ops.foldl (fun g op => op.apply g) f

@[simp] theorem applyOps_nil (f : Content) : applyOps [] f = f := rfl

@[simp] theorem applyOps_cons (op : Op) (ops : List Op) (f : Content) :
    applyOps (op :: ops) f = applyOps ops (op.apply f) := rfl

theorem applyOps_append (ops ops' : List Op) (f : Content) :
    applyOps (ops ++ ops') f = applyOps ops' (applyOps ops f) := by
  simp [applyOps]

/-- The bytes an operation touches lie in `[lo, hi)`. -/
def Op.Inside (lo hi : Nat) : Op → Prop
  | .program a _ => lo ≤ a ∧ a + 2 ≤ hi
  | .erase n => lo ≤ sectorStart n ∧ sectorEnd n ≤ hi

instance (lo hi : Nat) (op : Op) : Decidable (op.Inside lo hi) := by
  cases op <;> exact inferInstanceAs (Decidable (_ ∧ _))

/-! ## The machine state -/

/-- `HAL_StatusTypeDef`. -/
inductive HalStatus where
  | ok
  | error
  | busy
  | timeout
  deriving DecidableEq, Repr, Inhabited

/-- The enumeration's value, as functions returning `uint16_t` hand it on. -/
def HalStatus.toU16 : HalStatus → HalfWord
  | .ok => 0#16
  | .error => 1#16
  | .busy => 2#16
  | .timeout => 3#16

/-- Only `HAL_OK` is handed on as `HAL_OK`. -/
theorem HalStatus.toU16_ne_ok {status : HalStatus} (h : status ≠ .ok) :
    status.toU16 ≠ HalStatus.ok.toU16 := by
  cases status with
  | ok => exact absurd rfl h
  | error => decide
  | busy => decide
  | timeout => decide

/-- Why the program stops: a failed `assert`. -/
inductive Halt where
  | assertFailed
  deriving DecidableEq, Repr, Inhabited

/-- Flash, the operations issued so far (oldest first), and the status the HAL
gives to the `n`-th operation. -/
structure World where
  flash : Content
  ops : List Op
  hal : Nat → HalStatus

/-- A device that starts with content `f` and whose HAL calls all succeed. -/
def World.boot (f : Content) : World := { flash := f, ops := [], hal := fun _ => .ok }

/-- Every HAL call succeeds. -/
def World.HalOk (w : World) : Prop := ∀ n, w.hal n = .ok

@[simp] theorem World.boot_halOk (f : Content) : (World.boot f).HalOk := fun _ => rfl
@[simp] theorem World.boot_flash (f : Content) : (World.boot f).flash = f := rfl
@[simp] theorem World.boot_ops (f : Content) : (World.boot f).ops = [] := rfl

/-- Issue one flash operation.  It takes effect when the HAL returns `HAL_OK`. -/
def World.issue (w : World) (op : Op) : World :=
  { w with
    flash := if w.hal w.ops.length = .ok then op.apply w.flash else w.flash
    ops := w.ops ++ [op] }

/-- Program code: it runs on the world and returns or stops. -/
abbrev Mcu (α : Type) : Type := EStateM Halt World α

/-- `HAL_FLASH_Program(TYPEPROGRAM_HALFWORD, address, data)`. -/
def halFlashProgram (address : Nat) (data : HalfWord) : Mcu HalStatus := fun w =>
  .ok (w.hal w.ops.length) (w.issue (.program address data))

/-- `HAL_FLASHEx_Erase` with `TYPEERASE_SECTORS`, `NbSectors = 1`. -/
def halFlashExErase (sector : Nat) : Mcu HalStatus := fun w =>
  .ok (w.hal w.ops.length) (w.issue (.erase sector))

/-- `assert(condition)`. -/
def assert (condition : Bool) : Mcu Unit :=
  if condition then pure () else throw .assertFailed

/-- The content of flash as the program reads it. -/
def readFlash : Mcu Content := do return (← get).flash

@[simp] theorem World.issue_ops (w : World) (op : Op) : (w.issue op).ops = w.ops ++ [op] := rfl
@[simp] theorem World.issue_hal (w : World) (op : Op) : (w.issue op).hal = w.hal := rfl

theorem World.issue_flash {w : World} (h : w.HalOk) (op : Op) :
    (w.issue op).flash = op.apply w.flash := by
  simp [World.issue, h w.ops.length]

theorem World.HalOk.issue {w : World} (h : w.HalOk) (op : Op) : (w.issue op).HalOk := h

theorem World.issue_flash_of_ok {w : World} (h : w.hal w.ops.length = .ok) (op : Op) :
    (w.issue op).flash = op.apply w.flash := if_pos h

/-- A call that fails leaves memory as it was. -/
theorem World.issue_flash_of_ne_ok {w : World} (h : w.hal w.ops.length ≠ .ok) (op : Op) :
    (w.issue op).flash = w.flash := if_neg h

/-- The next `n` HAL calls succeed. -/
def World.HalOkFor (w : World) (n : Nat) : Prop := ∀ i, i < n → w.hal (w.ops.length + i) = .ok

instance (w : World) (n : Nat) : Decidable (w.HalOkFor n) :=
  inferInstanceAs (Decidable (∀ i, i < n → w.hal (w.ops.length + i) = .ok))

theorem World.HalOk.halOkFor {w : World} (h : w.HalOk) (n : Nat) : w.HalOkFor n :=
  fun _ _ => h _

theorem World.halOkFor_zero (w : World) : w.HalOkFor 0 :=
  fun i hi => absurd hi (Nat.not_lt_zero i)

/-- The calls before `v` was reached from `w`, and the calls after. -/
theorem World.halOkFor_add {w v : World} {m n : Nat} (hhal : v.hal = w.hal)
    (hlen : v.ops.length = w.ops.length + m) :
    w.HalOkFor (m + n) ↔ w.HalOkFor m ∧ v.HalOkFor n := by
  constructor
  · intro h
    refine ⟨fun i hi => h i (Nat.lt_add_right n hi), fun i hi => ?_⟩
    rw [hhal, hlen, Nat.add_assoc]
    exact h (m + i) (Nat.add_lt_add_left hi m)
  · rintro ⟨hbefore, hafter⟩ i hi
    rcases Nat.lt_or_ge i m with hlt | hge
    · exact hbefore i hlt
    · obtain ⟨k, rfl⟩ := Nat.exists_eq_add_of_le hge
      have hnext := hafter k (Nat.lt_of_add_lt_add_left hi)
      rwa [hhal, hlen, Nat.add_assoc] at hnext

/-- One call, and then the others. -/
theorem World.halOkFor_succ {w : World} (op : Op) {n : Nat} :
    w.HalOkFor (n + 1) ↔ w.hal w.ops.length = .ok ∧ (w.issue op).HalOkFor n := by
  have hlen : (w.issue op).ops.length = w.ops.length + 1 := by
    rw [issue_ops, List.length_append, List.length_singleton]
  have hone : w.HalOkFor 1 ↔ w.hal w.ops.length = .ok :=
    ⟨fun h => h 0 Nat.one_pos, fun h i hi => by rwa [Nat.lt_one_iff.mp hi]⟩
  rw [Nat.add_comm, World.halOkFor_add (issue_hal w op) hlen, hone]

theorem World.HalOkFor.mono {w : World} {m n : Nat} (h : w.HalOkFor n) (hle : m ≤ n) :
    w.HalOkFor m :=
  fun i hi => h i (Nat.lt_of_lt_of_le hi hle)

theorem run_halFlashProgram_any (w : World) (a : Nat) (v : HalfWord) :
    (halFlashProgram a v).run w = .ok (w.hal w.ops.length) (w.issue (.program a v)) := rfl

theorem run_halFlashExErase_any (w : World) (n : Nat) :
    (halFlashExErase n).run w = .ok (w.hal w.ops.length) (w.issue (.erase n)) := rfl

theorem run_halFlashProgram {w : World} (h : w.HalOk) (a : Nat) (v : HalfWord) :
    (halFlashProgram a v).run w = .ok .ok (w.issue (.program a v)) := by
  simp [halFlashProgram, EStateM.run, h w.ops.length]

theorem run_halFlashExErase {w : World} (h : w.HalOk) (n : Nat) :
    (halFlashExErase n).run w = .ok .ok (w.issue (.erase n)) := by
  simp [halFlashExErase, EStateM.run, h w.ops.length]

@[simp] theorem run_assert_true (w : World) : (assert true).run w = .ok () w := rfl

@[simp] theorem run_assert_false (w : World) :
    (assert false).run w = .error .assertFailed w := rfl

@[simp] theorem run_readFlash (w : World) : readFlash.run w = .ok w.flash w := rfl

end WindradLogger.Flash
