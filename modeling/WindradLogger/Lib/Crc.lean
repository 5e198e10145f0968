import Mathlib.Data.List.OfFn

set_option autoImplicit false

/-!
# Cyclic redundancy checks as shift registers

A CRC of width `w` is a register of `w` bits through which a message is shifted
bit by bit; whenever the bit that leaves the register differs from the bit that
comes in, the polynomial is added.  Everything is additive in the pair of
register and message, so the question whether two messages are told apart is the
question whether their difference leaves a register that is not zero.

The polynomial is given without its leading term.  Its constant term being set
is what makes the step injective in the register, and a difference that fits
into the register is never lost.
-/

namespace WindradLogger.Lib.Crc

variable {w : Nat}

/-- The register after one more bit. -/
def shiftIn (poly register : BitVec w) (bit : Bool) : BitVec w :=
  if register.msb ^^ bit then register <<< 1 ^^^ poly else register <<< 1

/-- The register after a message. -/
def shiftAll (poly register : BitVec w) (message : List Bool) : BitVec w :=
  message.foldl (shiftIn poly) register

/-- The bits of a word, the most significant first. -/
def msbFirst {n : Nat} (x : BitVec n) : List Bool := List.ofFn fun i : Fin n => x.getMsbD i

/-- The bits of a string of words. -/
def bitsOf {n : Nat} (words : List (BitVec n)) : List Bool := words.flatMap msbFirst

variable {poly register register' : BitVec w}

@[simp] theorem shiftAll_nil : shiftAll poly register [] = register := rfl

@[simp] theorem shiftAll_cons (bit : Bool) (message : List Bool) :
    shiftAll poly register (bit :: message) = shiftAll poly (shiftIn poly register bit) message :=
  rfl

theorem shiftAll_append (message message' : List Bool) :
    shiftAll poly register (message ++ message') =
      shiftAll poly (shiftAll poly register message) message' :=
  List.foldl_append

/-! ## Differences -/

theorem shiftIn_xor (bit bit' : Bool) :
    shiftIn poly register bit ^^^ shiftIn poly register' bit' =
      shiftIn poly (register ^^^ register') (bit ^^ bit') := by
  have hcancel : ∀ a b : BitVec w, a ^^^ poly ^^^ (b ^^^ poly) = a ^^^ b := by
    intro a b
    rw [BitVec.xor_assoc a, ← BitVec.xor_assoc poly, BitVec.xor_comm poly b, BitVec.xor_assoc b,
      BitVec.xor_self, BitVec.xor_zero]
  unfold shiftIn
  rw [BitVec.msb_xor, BitVec.shiftLeft_xor_distrib]
  cases register.msb <;> cases register'.msb <;> cases bit <;> cases bit' <;>
    simp [hcancel, BitVec.xor_assoc, BitVec.xor_comm poly]

/-- The registers of two messages of one length differ by the register of their
difference. -/
theorem shiftAll_xor : ∀ (message message' : List Bool) {register register' : BitVec w},
    message.length = message'.length →
    shiftAll poly register message ^^^ shiftAll poly register' message' =
      shiftAll poly (register ^^^ register') (List.zipWith (· ^^ ·) message message') := by
  intro message
  induction message with
  | nil =>
      intro message' register register' hlen
      cases message' with
      | nil => rfl
      | cons bit' rest' => cases hlen
  | cons bit rest ih =>
      intro message' register register' hlen
      cases message' with
      | nil => cases hlen
      | cons bit' rest' =>
          rw [shiftAll_cons, shiftAll_cons, ih rest' (Nat.succ.inj hlen), shiftIn_xor]
          rfl

/-- A message of the bits that leave the register only shifts it. -/
theorem shiftAll_of_leaving : ∀ (message : List Bool) {register : BitVec w},
    (∀ i (hi : i < message.length), message[i] = register.getMsbD i) →
    shiftAll poly register message = register <<< message.length := by
  intro message
  induction message with
  | nil =>
      intro register _
      rw [shiftAll_nil, List.length_nil, BitVec.shiftLeft_zero]
  | cons bit rest ih =>
      intro register h
      have hbit : bit = register.msb := h 0 (Nat.succ_pos _)
      have hstep : shiftIn poly register bit = register <<< 1 := by
        rw [shiftIn, hbit, Bool.xor_self, if_neg Bool.false_ne_true]
      rw [shiftAll_cons, hstep, ih, ← BitVec.shiftLeft_add, List.length_cons, Nat.add_comm]
      intro i hi
      have hnext := h (i + 1) (Nat.succ_lt_succ hi)
      rw [List.getElem_cons_succ] at hnext
      rw [hnext, BitVec.getMsbD_shiftLeft]

/-! ## What a register keeps -/

/-- The lowest `n` bits are clear. -/
def LowClear (n : Nat) (x : BitVec w) : Prop := ∀ i < n, x.getLsbD i = false

theorem lowClear_zero (n : Nat) : LowClear n (0#w) := fun i _ => by simp

/-- A step that ends with the lowest bit clear has not added the polynomial. -/
theorem shiftIn_of_lowClear (hpoly : poly.getLsbD 0 = true) {n : Nat} (hn : 0 < n) {bit : Bool}
    (h : LowClear n (shiftIn poly register bit)) :
    register.msb = bit ∧ shiftIn poly register bit = register <<< 1 := by
  have hlow := h 0 hn
  unfold shiftIn at hlow ⊢
  cases hbit : register.msb ^^ bit with
  | true =>
      rw [hbit, if_pos rfl, BitVec.getLsbD_xor, hpoly, BitVec.getLsbD_shiftLeft] at hlow
      simp at hlow
  | false =>
      refine ⟨?_, by rw [if_neg Bool.false_ne_true]⟩
      cases hmsb : register.msb <;> cases bit <;> simp [hmsb] at hbit ⊢

/-- A register whose low bits are clear after a message had even more of them
clear before, and when it was empty before, so was the message. -/
theorem lowClear_of_shiftAll (hpoly : poly.getLsbD 0 = true) :
    ∀ (message : List Bool) {register : BitVec w} {n : Nat}, n ≤ w → message.length ≤ n →
      LowClear n (shiftAll poly register message) →
      LowClear (n - message.length) register ∧
        (register = 0#w → ∀ bit ∈ message, bit = false) := by
  intro message
  induction message with
  | nil =>
      intro register n _ _ h
      exact ⟨h, fun _ bit hmem => by cases hmem⟩
  | cons bit rest ih =>
      intro register n hn hlen h
      rw [List.length_cons] at hlen ⊢
      obtain ⟨hclear, hzero⟩ := ih hn (Nat.le_of_succ_le hlen) h
      obtain ⟨hmsb, hstep⟩ := shiftIn_of_lowClear hpoly (Nat.sub_pos_of_lt hlen) hclear
      refine ⟨?_, ?_⟩
      · intro i hi
        have hnext := hclear (i + 1) (by omega)
        rw [hstep, BitVec.getLsbD_shiftLeft] at hnext
        have hw : i + 1 < w := by omega
        simpa [hw] using hnext
      · intro hregister
        subst hregister
        have hbit : bit = false := by rw [← hmsb, BitVec.msb_zero]
        have hrest := hzero (by rw [hstep, BitVec.zero_shiftLeft])
        intro b hmem
        rcases List.mem_cons.mp hmem with rfl | hmem
        · exact hbit
        · exact hrest b hmem

/-- A message that fits into the register leaves it empty only when it is empty. -/
theorem eq_false_of_shiftAll_eq_zero (hpoly : poly.getLsbD 0 = true) {message : List Bool}
    (hlen : message.length ≤ w) (h : shiftAll poly 0#w message = 0#w) :
    ∀ bit ∈ message, bit = false := by
  refine (lowClear_of_shiftAll hpoly message (Nat.le_refl w) hlen ?_).2 rfl
  rw [h]
  exact lowClear_zero w

theorem shiftIn_injective (hpoly : poly.getLsbD 0 = true) {bit : Bool}
    (h : shiftIn poly register bit = shiftIn poly register' bit) : register = register' := by
  rw [← BitVec.xor_eq_zero_iff, shiftIn_xor, Bool.xor_self] at h
  rw [← BitVec.xor_eq_zero_iff]
  cases w with
  | zero => exact BitVec.eq_of_zero_length rfl
  | succ w =>
      obtain ⟨hmsb, hstep⟩ := shiftIn_of_lowClear hpoly (Nat.succ_pos w)
        (by rw [h]; exact lowClear_zero (w + 1))
      rw [h] at hstep
      refine BitVec.eq_of_getLsbD_eq fun i hi => ?_
      rcases Nat.lt_or_ge (i + 1) (w + 1) with hlow | hhigh
      · have hbit := congrArg (fun x => BitVec.getLsbD x (i + 1)) hstep
        simp only [BitVec.getLsbD_zero, BitVec.getLsbD_shiftLeft] at hbit
        have hpos : ¬ i + 1 < 1 := by omega
        simpa [hlow] using hbit.symm
      · have hlast : i = w + 1 - 1 := by omega
        rw [hlast, ← BitVec.msb_eq_getLsbD_last, hmsb, BitVec.getLsbD_zero]

/-- Different registers stay different. -/
theorem shiftAll_injective (hpoly : poly.getLsbD 0 = true) :
    ∀ (message : List Bool) {register register' : BitVec w},
      shiftAll poly register message = shiftAll poly register' message → register = register' := by
  intro message
  induction message with
  | nil => exact fun h => h
  | cons bit rest ih =>
      intro register register' h
      exact shiftIn_injective hpoly (ih h)

/-- Two messages that differ only inside one window no longer than the register
leave different registers. -/
theorem shiftAll_ne_of_burst (hpoly : poly.getLsbD 0 = true) (register : BitVec w)
    (before window window' after : List Bool) (hlen : window.length = window'.length)
    (hw : window.length ≤ w) (hne : window ≠ window') :
    shiftAll poly register (before ++ (window ++ after)) ≠
      shiftAll poly register (before ++ (window' ++ after)) := by
  intro h
  simp only [shiftAll_append] at h
  have hwindow := shiftAll_injective hpoly after h
  rw [← BitVec.xor_eq_zero_iff, shiftAll_xor window window' hlen, BitVec.xor_self] at hwindow
  have hdifference := eq_false_of_shiftAll_eq_zero hpoly
    (by rw [List.length_zipWith, ← hlen, Nat.min_self]; exact hw) hwindow
  apply hne
  refine List.ext_getElem hlen fun i hi hi' => ?_
  have hbit := hdifference _ (List.getElem_mem
    (by rw [List.length_zipWith]; omega : i < (List.zipWith (· ^^ ·) window window').length))
  rw [List.getElem_zipWith] at hbit
  simpa using hbit

/-- Two different messages that agree outside one window no longer than the register,
wherever it starts, leave different registers. -/
theorem shiftAll_ne_of_window (hpoly : poly.getLsbD 0 = true) (register : BitVec w)
    {message message' : List Bool} (hlen : message.length = message'.length) {start width : Nat}
    (hwidth : width ≤ w)
    (hagree : ∀ i, i < start ∨ start + width ≤ i → message[i]? = message'[i]?)
    (hne : message ≠ message') :
    shiftAll poly register message ≠ shiftAll poly register message' := by
  have hsplit : ∀ m : List Bool,
      m = m.take start ++ ((m.drop start).take width ++ m.drop (start + width)) := by
    intro m
    rw [← List.drop_drop, List.take_append_drop, List.take_append_drop]
  have hbefore : message.take start = message'.take start := by
    refine List.ext_getElem? fun i => ?_
    rw [List.getElem?_take, List.getElem?_take]
    split
    · rename_i hi
      exact hagree i (Or.inl hi)
    · rfl
  have hafter : message.drop (start + width) = message'.drop (start + width) := by
    refine List.ext_getElem? fun i => ?_
    rw [List.getElem?_drop, List.getElem?_drop]
    exact hagree _ (Or.inr (Nat.le_add_right _ _))
  have hwindow : (message.drop start).take width ≠ (message'.drop start).take width := by
    intro hsame
    apply hne
    rw [hsplit message, hsplit message', hbefore, hsame, hafter]
  rw [hsplit message, hsplit message', hbefore, hafter]
  refine shiftAll_ne_of_burst hpoly register _ _ _ _ ?_ ?_ hwindow
  · rw [List.length_take, List.length_take, List.length_drop, List.length_drop, hlen]
  · rw [List.length_take]
    exact Nat.le_trans (Nat.min_le_left _ _) hwidth

/-! ## Words -/

@[simp] theorem msbFirst_length {n : Nat} (x : BitVec n) : (msbFirst x).length = n :=
  List.length_ofFn

theorem msbFirst_injective {n : Nat} {x y : BitVec n} (h : msbFirst x = msbFirst y) : x = y := by
  refine BitVec.eq_of_getMsbD_eq fun i hi => ?_
  exact congrFun (List.ofFn_injective h) ⟨i, hi⟩

theorem zipWith_msbFirst {n : Nat} (x y : BitVec n) :
    List.zipWith (· ^^ ·) (msbFirst x) (msbFirst y) = msbFirst (x ^^^ y) := by
  refine List.ext_getElem (by simp) fun i _ _ => ?_
  rw [List.getElem_zipWith]
  simp only [msbFirst, List.getElem_ofFn, BitVec.getMsbD_xor]

/-- A word through the register, when the part of the register that leaves on the
way is `top`. -/
theorem shiftAll_msbFirst {n : Nat} (word top : BitVec n)
    (htop : ∀ i < n, top.getMsbD i = register.getMsbD i) :
    shiftAll poly register (msbFirst word) =
      shiftAll poly 0#w (msbFirst (top ^^^ word)) ^^^ register <<< n := by
  have hleaving : shiftAll poly register (msbFirst top) = register <<< n := by
    rw [shiftAll_of_leaving, msbFirst_length]
    intro i hi
    rw [msbFirst_length] at hi
    simp only [msbFirst, List.getElem_ofFn]
    exact htop i hi
  have hdifference : shiftAll poly register (msbFirst top) ^^^
      shiftAll poly register (msbFirst word) = _ :=
    shiftAll_xor (msbFirst top) (msbFirst word) (by simp)
  rw [hleaving, BitVec.xor_self, zipWith_msbFirst] at hdifference
  rw [← hdifference, BitVec.xor_comm, ← BitVec.xor_assoc, BitVec.xor_self, BitVec.zero_xor]

theorem bitsOf_append {n : Nat} (words words' : List (BitVec n)) :
    bitsOf (words ++ words') = bitsOf words ++ bitsOf words' :=
  List.flatMap_append

theorem bitsOf_length {n : Nat} (words : List (BitVec n)) :
    (bitsOf words).length = n * words.length := by
  induction words with
  | nil => rfl
  | cons word rest ih =>
      rw [bitsOf, List.flatMap_cons, List.length_append, msbFirst_length, List.length_cons]
      rw [bitsOf] at ih
      rw [ih, Nat.mul_succ, Nat.add_comm]

theorem bitsOf_injective {n : Nat} : ∀ {words words' : List (BitVec n)},
    words.length = words'.length → bitsOf words = bitsOf words' → words = words' := by
  intro words
  induction words with
  | nil =>
      intro words' hlen _
      exact (List.length_eq_zero_iff.mp hlen.symm).symm
  | cons word rest ih =>
      intro words' hlen h
      cases words' with
      | nil => cases hlen
      | cons word' rest' =>
          obtain ⟨hword, hrest⟩ := List.append_inj h (by simp)
          rw [msbFirst_injective hword, ih (Nat.succ.inj hlen) hrest]

end WindradLogger.Lib.Crc
