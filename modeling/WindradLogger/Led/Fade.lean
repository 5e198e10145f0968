import WindradLogger.Lib.Bits
import Mathlib.Algebra.GroupWithZero.Nat
import WindradLogger.Led.Blink

set_option autoImplicit false

/-!
# The waveform of a fading LED

The counter of actions of a pattern that fades holds a ramp above its lowest four
bits, the direction of the ramp in its highest bit, and in its lowest two bits which
bit of the brightness is shown.  An action shows one bit of the brightness for as
many ticks as the bit is worth, so that four actions in a row light the LED for
as many of their fifteen ticks as the brightness says.
-/

namespace WindradLogger.Led

open WindradLogger.Lib

/-! ## The ramp -/

/-- The ramp after `n` actions.  It goes up to 256, and from then on down to 15 and up
again. -/
def fadeRamp (n : Nat) : Nat :=
  if n < 256 then n
  else if (n - 256) % 482 ≤ 240 then 256 - (n - 256) % 482
  else (n - 256) % 482 - 226

/-- Whether the ramp goes up. -/
def fadeRising (n : Nat) : Bool := n < 256 ∨ 240 < (n - 256) % 482

/-- How often the ramp has been at its top. -/
def fadeTops (n : Nat) : Nat := (n + 226) / 482

/-- The brightness after `n` actions. -/
def fadeLevel (n : Nat) : Nat := fadeRamp n / 16

/-- The three stretches of the ramp. -/
theorem fadeRamp_cases (n : Nat) :
    (n < 256 ∧ fadeRamp n = n) ∨
      (256 ≤ n ∧ (n - 256) % 482 ≤ 240 ∧ fadeRamp n = 256 - (n - 256) % 482) ∨
      (256 ≤ n ∧ 240 < (n - 256) % 482 ∧ fadeRamp n = (n - 256) % 482 - 226) := by
  unfold fadeRamp
  rcases Nat.lt_or_ge n 256 with hfirst | hlater
  · exact Or.inl ⟨hfirst, if_pos hfirst⟩
  · rw [if_neg (Nat.not_lt.mpr hlater)]
    rcases Nat.lt_or_ge 240 ((n - 256) % 482) with hup | hdown
    · exact Or.inr (Or.inr ⟨hlater, hup, if_neg (Nat.not_le.mpr hup)⟩)
    · exact Or.inr (Or.inl ⟨hlater, hdown, if_pos hdown⟩)

theorem fadeRamp_le (n : Nat) : fadeRamp n ≤ 256 := by
  have hcases := fadeRamp_cases n
  omega

/-- One action up. -/
theorem fade_up {n : Nat} (h : fadeRising n = true) :
    fadeRamp n < 256 ∧ fadeRamp (n + 1) = fadeRamp n + 1 ∧
      (fadeRising (n + 1) = true ↔ fadeRamp n + 1 < 256) ∧
      (fadeRamp n + 1 < 256 → fadeTops (n + 1) = fadeTops n) ∧
      (¬ fadeRamp n + 1 < 256 → fadeTops (n + 1) = fadeTops n + 1) := by
  have hcases := fadeRamp_cases n
  have hnext := fadeRamp_cases (n + 1)
  simp only [fadeRising, fadeTops, decide_eq_true_iff] at h ⊢
  omega

/-- One action down. -/
theorem fade_down {n : Nat} (h : fadeRising n = false) :
    16 ≤ fadeRamp n ∧ fadeRamp (n + 1) = fadeRamp n - 1 ∧
      (fadeRising (n + 1) = true ↔ fadeRamp n - 1 < 16) ∧ fadeTops (n + 1) = fadeTops n := by
  have hcases := fadeRamp_cases n
  have hnext := fadeRamp_cases (n + 1)
  simp only [fadeRising, fadeTops, decide_eq_true_iff, decide_eq_false_iff_not] at h ⊢
  omega

/-! ## Actions -/

/-- The counter of actions after `n` of them. -/
def fadeCounter (n : Nat) : Nat :=
  16 * fadeRamp n + (if fadeRising n then 0 else 0x8000) + n % 4

/-- The pattern `p` after `n` actions, with the timer at `timer`. -/
def faded (p : LedBlinkPattern) (n : Nat) (timer : UInt16) : LedBlinkPattern :=
  { p with
    actionCounter := UInt16.ofNat (fadeCounter n)
    nextActionTime := timer
    patternCounter := p.patternCounter + UInt8.ofNat (fadeTops n) }

/-- The state of the LED after `n` actions: the bit of the brightness that is shown. -/
def fadeState (n : Nat) : LedState := if (fadeLevel n).testBit (n % 4) then .on else .off

/-- The ticks for which it is shown. -/
def fadeTime (n : Nat) : Nat := 2 ^ (n % 4)

/-- The ramp that `fadeAction` takes from the counter, and the counter of patterns. -/
def fadeStep (actionCounter : UInt16) (patternCounter : UInt8) : UInt16 × UInt8 :=
  if actionCounter &&& 0x8000 = 0 then
    let actionCounter := actionCounter + 0x10
    if actionCounter &&& 0x7F00 > 0x0F00 then (actionCounter ||| 0x8000, patternCounter + 1)
    else (actionCounter, patternCounter)
  else
    let actionCounter := (actionCounter - 0x10) ||| 0x8000
    if actionCounter &&& 0x7F00 = 0 then (actionCounter &&& 0x7FFF, patternCounter)
    else (actionCounter, patternCounter)

/-- The bit of the brightness that is shown next. -/
def fadeBit (actionCounter : UInt16) : UInt16 := ((actionCounter &&& 0x03) + 1) &&& 0x03

theorem fadeAction_eq (p : LedBlinkPattern) (b : Board) :
    fadeAction p b =
      let ramp := fadeStep p.actionCounter p.patternCounter
      let action := fadeBit ramp.1
      let actionCounter := (ramp.1 &&& 0xFFFC) ||| action
      let nextActionTime : UInt16 := 1 <<< action
      ({ p with
          actionCounter := actionCounter
          nextActionTime := nextActionTime
          patternCounter := ramp.2 },
        boardSetLED p.ledID
          (if ((actionCounter >>> 8) &&& 0xFF) &&& nextActionTime ≠ 0 then .on else .off) b) := rfl

section Words

theorem and_high (x : UInt16) : x &&& 0x8000 = 0 ↔ x.toNat < 0x8000 := by
  have hbound := x.toNat_lt
  have hmask : (x &&& 0x8000).toNat = x.toNat / 2 ^ 15 % 2 ^ 1 * 2 ^ 15 := and_mask x.toNat 1 15
  rw [← UInt16.toNat_inj, hmask, UInt16.toNat_zero]
  omega

theorem toNat_and_ramp (x : UInt16) : (x &&& 0x7F00).toNat = x.toNat / 2 ^ 8 % 2 ^ 7 * 2 ^ 8 :=
  and_mask x.toNat 7 8

theorem toNat_or_high (x : UInt16) : (x ||| 0x8000).toNat = x.toNat % 2 ^ 15 + 2 ^ 15 :=
  or_two_pow x.toNat_lt

theorem toNat_and_low (x : UInt16) : (x &&& 0x7FFF).toNat = x.toNat % 2 ^ 15 :=
  Nat.and_two_pow_sub_one_eq_mod x.toNat 15

theorem toNat_fadeBit (x : UInt16) : (fadeBit x).toNat = (x.toNat + 1) % 4 := by
  have hlow : (x &&& 0x03).toNat = x.toNat % 2 ^ 2 := Nat.and_two_pow_sub_one_eq_mod x.toNat 2
  have hagain : (fadeBit x).toNat = ((x &&& 0x03) + 1).toNat % 2 ^ 2 :=
    Nat.and_two_pow_sub_one_eq_mod _ 2
  have hone : (1 : UInt16).toNat = 1 := rfl
  rw [hagain, UInt16.toNat_add, hlow, hone]
  omega

/-- The lowest two bits are replaced. -/
theorem toNat_replace (x : UInt16) {action : UInt16} (h : action.toNat < 4) :
    ((x &&& 0xFFFC) ||| action).toNat = x.toNat / 4 * 4 + action.toNat := by
  have hbound := x.toNat_lt
  have hmask : (x &&& 0xFFFC).toNat = x.toNat / 2 ^ 2 % 2 ^ 14 * 2 ^ 2 := and_mask x.toNat 14 2
  have hquotient : x.toNat / 2 ^ 2 % 2 ^ 14 = x.toNat / 4 := by omega
  have hor := Nat.two_pow_add_eq_or_of_lt (i := 2) h (x.toNat / 4)
  rw [UInt16.toNat_or, hmask, hquotient, Nat.mul_comm, ← hor]
  omega

theorem toNat_shiftLeft_one {action : UInt16} (h : action.toNat < 4) :
    ((1 : UInt16) <<< action).toNat = 2 ^ action.toNat := by
  have hone : (1 : UInt16).toNat = 1 := rfl
  have hpow : 2 ^ action.toNat < 2 ^ 16 :=
    Nat.pow_lt_pow_right Nat.one_lt_two (Nat.lt_trans h (by omega))
  rw [UInt16.toNat_shiftLeft, hone, Nat.mod_eq_of_lt (Nat.lt_trans h (by omega)), Nat.one_shiftLeft,
    Nat.mod_eq_of_lt hpow]

/-- The bit of the brightness decides, whatever the direction of the ramp. -/
theorem shown_iff {x action : UInt16} {ramp rest : Nat} (hx : x.toNat = 16 * ramp + rest)
    (hrest : rest % 0x8000 < 16) (haction : action.toNat < 4) :
    ((x >>> 8) &&& 0xFF) &&& ((1 : UInt16) <<< action) ≠ 0 ↔
      (ramp / 16).testBit action.toNat = true := by
  have hbound := x.toNat_lt
  have hvalue : ((x >>> 8) &&& 0xFF).toNat = x.toNat / 256 % 2 ^ 8 := by
    have hshift : (x >>> 8).toNat = x.toNat / 256 := Nat.shiftRight_eq_div_pow x.toNat 8
    rw [← hshift]
    exact Nat.and_two_pow_sub_one_eq_mod _ 8
  have hbits : x.toNat / 256 % 2 ^ 8 % 2 ^ 4 = ramp / 16 % 2 ^ 4 := by omega
  rw [ne_eq, ← UInt16.toNat_inj, UInt16.toNat_and, hvalue, toNat_shiftLeft_one haction,
    UInt16.toNat_zero, ← ne_eq, and_two_pow_ne_zero_iff, testBit_of_mod_eq haction hbits]

end Words

theorem toNat_fadeCounter (n : Nat) : (UInt16.ofNat (fadeCounter n)).toNat = fadeCounter n := by
  have hramp := fadeRamp_le n
  have hsize : UInt16.size = 65536 := rfl
  refine UInt16.toNat_ofNat_of_lt' ?_
  unfold fadeCounter
  split <;> omega

/-- The ramp and the counter of patterns go on by one action. -/
theorem fadeStep_counter (n : Nat) (patternCounter : UInt8) :
    let ramp := fadeStep (UInt16.ofNat (fadeCounter n)) patternCounter
    ramp.1.toNat = 16 * fadeRamp (n + 1) + (if fadeRising (n + 1) then 0 else 0x8000) + n % 4 ∧
      ramp.2 = patternCounter + UInt8.ofNat (fadeTops (n + 1) - fadeTops n) := by
  have hsixteen : (0x10 : UInt16).toNat = 16 := rfl
  have hlimit : (0x0F00 : UInt16).toNat = 0x0F00 := rfl
  have hcounter := toNat_fadeCounter n
  have hhigh := and_high (UInt16.ofNat (fadeCounter n))
  cases hrising : fadeRising n with
  | true =>
      obtain ⟨hbelow, hup, hmore, hsame, htop⟩ := fade_up hrising
      have hvalue : fadeCounter n = 16 * fadeRamp n + n % 4 := by
        rw [fadeCounter, if_pos hrising, Nat.add_zero]
      have hnext : (UInt16.ofNat (fadeCounter n) + 0x10).toNat = 16 * fadeRamp (n + 1) + n % 4 := by
        rw [UInt16.toNat_add, hcounter, hsixteen, hvalue, hup]
        omega
      have hover : UInt16.ofNat (fadeCounter n) + 0x10 &&& 0x7F00 > 0x0F00 ↔
          ¬ fadeRamp n + 1 < 256 := by
        rw [gt_iff_lt, UInt16.lt_iff_toNat_lt, toNat_and_ramp, hnext, hlimit, hup]
        omega
      intro ramp
      have hramp : ramp = if UInt16.ofNat (fadeCounter n) + 0x10 &&& 0x7F00 > 0x0F00 then
          (UInt16.ofNat (fadeCounter n) + 0x10 ||| 0x8000, patternCounter + 1)
          else (UInt16.ofNat (fadeCounter n) + 0x10, patternCounter) :=
        if_pos (hhigh.mpr (by omega))
      rcases Nat.lt_or_ge (fadeRamp n + 1) 256 with hlow | hfull
      · rw [hramp, if_neg (mt hover.mp (not_not_intro hlow)), hsame hlow, Nat.sub_self,
          if_pos (hmore.mpr hlow)]
        exact ⟨hnext, (UInt8.add_zero _).symm⟩
      · have hturn : ¬ fadeRising (n + 1) = true := mt hmore.mp (Nat.not_lt.mpr hfull)
        rw [hramp, if_pos (hover.mpr (Nat.not_lt.mpr hfull)), htop (Nat.not_lt.mpr hfull),
          Nat.add_sub_cancel_left, if_neg hturn]
        refine ⟨?_, rfl⟩
        rw [toNat_or_high, hnext]
        omega
  | false =>
      obtain ⟨habove, hdown, hmore, hsame⟩ := fade_down hrising
      have htop := fadeRamp_le n
      have hvalue : fadeCounter n = 16 * fadeRamp n + 0x8000 + n % 4 := by
        rw [fadeCounter, hrising]
        rfl
      have hnext : ((UInt16.ofNat (fadeCounter n) - 0x10) ||| 0x8000).toNat =
          16 * fadeRamp (n + 1) + 0x8000 + n % 4 := by
        rw [toNat_or_high, UInt16.toNat_sub_of_le, hcounter, hsixteen, hvalue, hdown]
        · omega
        · rw [UInt16.le_iff_toNat_le, hcounter, hsixteen, hvalue]
          omega
      have hempty : ((UInt16.ofNat (fadeCounter n) - 0x10) ||| 0x8000) &&& 0x7F00 = 0 ↔
          fadeRamp n - 1 < 16 := by
        rw [← UInt16.toNat_inj, toNat_and_ramp, hnext, UInt16.toNat_zero, hdown]
        omega
      intro ramp
      have hramp : ramp = if ((UInt16.ofNat (fadeCounter n) - 0x10) ||| 0x8000) &&& 0x7F00 = 0 then
          (((UInt16.ofNat (fadeCounter n) - 0x10) ||| 0x8000) &&& 0x7FFF, patternCounter)
          else ((UInt16.ofNat (fadeCounter n) - 0x10) ||| 0x8000, patternCounter) :=
        if_neg (mt hhigh.mp (by omega))
      rw [hsame, Nat.sub_self]
      rcases Nat.lt_or_ge (fadeRamp n - 1) 16 with hlow | hmid
      · rw [hramp, if_pos (hempty.mpr hlow), if_pos (hmore.mpr hlow)]
        refine ⟨?_, (UInt8.add_zero _).symm⟩
        rw [toNat_and_low, hnext]
        omega
      · have hdark : ¬ fadeRising (n + 1) = true := mt hmore.mp (Nat.not_lt.mpr hmid)
        rw [hramp, if_neg (mt hempty.mp (Nat.not_lt.mpr hmid)), if_neg hdark]
        exact ⟨hnext, (UInt8.add_zero _).symm⟩

theorem fadeTops_le_succ (n : Nat) : fadeTops n ≤ fadeTops (n + 1) :=
  Nat.div_le_div_right (Nat.le_succ _)

/-- An action brings the pattern and the LED to the next place of the ramp. -/
theorem fadeAction_faded (p : LedBlinkPattern) (b : Board) (n : Nat) (timer : UInt16) :
    fadeAction (faded p n timer) b =
      (faded p (n + 1) (UInt16.ofNat (fadeTime (n + 1))),
        boardSetLED p.ledID (fadeState (n + 1)) b) := by
  obtain ⟨hramp, hcounter⟩ :=
    fadeStep_counter n (p.patternCounter + UInt8.ofNat (fadeTops n))
  have hstart : (faded p n timer).actionCounter = UInt16.ofNat (fadeCounter n) := rfl
  have hpatterns : (faded p n timer).patternCounter =
      p.patternCounter + UInt8.ofNat (fadeTops n) := rfl
  have htops : UInt8.ofNat (fadeTops n) + UInt8.ofNat (fadeTops (n + 1) - fadeTops n) =
      UInt8.ofNat (fadeTops (n + 1)) := by
    rw [← UInt8.ofNat_add, Nat.add_sub_cancel' (fadeTops_le_succ n)]
  rw [fadeAction_eq, hstart, hpatterns]
  generalize fadeStep (UInt16.ofNat (fadeCounter n)) (p.patternCounter + UInt8.ofNat (fadeTops n))
    = ramp at hramp hcounter ⊢
  have hbit : (fadeBit ramp.1).toNat = (n + 1) % 4 := by
    rw [toNat_fadeBit, hramp]
    split <;> omega
  have hfour : (fadeBit ramp.1).toNat < 4 := by
    rw [hbit]
    exact Nat.mod_lt _ (by omega)
  have hvalue : ((ramp.1 &&& 0xFFFC) ||| fadeBit ramp.1).toNat = fadeCounter (n + 1) := by
    rw [toNat_replace _ hfour, hbit, hramp, fadeCounter]
    split <;> omega
  have hword : (ramp.1 &&& 0xFFFC) ||| fadeBit ramp.1 = UInt16.ofNat (fadeCounter (n + 1)) := by
    rw [← UInt16.toNat_inj, hvalue, toNat_fadeCounter]
  have htime : (1 : UInt16) <<< fadeBit ramp.1 = UInt16.ofNat (fadeTime (n + 1)) := by
    have hplace : (n + 1) % 4 < 16 := by omega
    have hlt : fadeTime (n + 1) < UInt16.size := Nat.pow_lt_pow_right Nat.one_lt_two hplace
    rw [← UInt16.toNat_inj, toNat_shiftLeft_one hfour, hbit, UInt16.toNat_ofNat_of_lt' hlt,
      fadeTime]
  have hrest : ((if fadeRising (n + 1) then 0 else 0x8000) + (n + 1) % 4) % 0x8000 < 16 := by
    split <;> omega
  have hshown := shown_iff (hvalue.trans (Nat.add_assoc _ _ _)) hrest hfour
  rw [hbit, hword, htime] at hshown
  simp only [hword, htime, hcounter, UInt8.add_assoc, htops, hshown]
  rfl

/-! ## Runs -/

/-- What is shown by the first `n` actions. -/
def fadeWave {α : Type} (shown : Nat → α) (n : Nat) : List α :=
  (List.range n).flatMap fun i => List.replicate (fadeTime (i + 1)) (shown (i + 1))

/-- The ticks of the first `n` actions. -/
def fadeTicks (n : Nat) : Nat := ((List.range n).map fun i => fadeTime (i + 1)).sum

theorem length_fadeWave {α : Type} (shown : Nat → α) (n : Nat) :
    (fadeWave shown n).length = fadeTicks n := by
  simp only [fadeWave, fadeTicks, List.length_flatMap, List.length_replicate]

theorem fadeTicks_succ (n : Nat) : fadeTicks (n + 1) = fadeTicks n + fadeTime (n + 1) := by
  rw [fadeTicks, List.range_succ, List.map_append, List.sum_append, List.map_singleton,
    List.sum_singleton]
  rfl

theorem le_fadeTicks (n : Nat) : n ≤ fadeTicks n := by
  induction n with
  | zero => exact Nat.zero_le _
  | succ n ih =>
      have hpos : 0 < fadeTime (n + 1) := Nat.two_pow_pos _
      rw [fadeTicks_succ]
      exact Nat.add_le_add ih hpos

section Runs

variable {p : LedBlinkPattern} (h : p.patternStyle = ledBlinkPatternStyleFade) (b : Board)

/-- What is seen after `n` actions. -/
def seenFade (p : LedBlinkPattern) (b : Board) (n : Nat) : Board × UInt8 :=
  (boardSetLED p.ledID (fadeState n) b, p.patternCounter + UInt8.ofNat (fadeTops n))

/-- The state after `n` actions. -/
def afterFade (p : LedBlinkPattern) (b : Board) (n : Nat) : LedBlinkPattern × Board :=
  (faded p n (UInt16.ofNat (fadeTime n)), boardSetLED p.ledID (fadeState n) b)

include h

theorem action_of_fades : action p b = fadeAction p b := by
  rw [action, h]
  rfl

/-- A bit of the brightness is shown for its time. -/
theorem plays_fadeAction (n : Nat) :
    Plays ledTick seen (afterFade p b n) (List.replicate (fadeTime n) (seenFade p b n))
      (afterFade p b (n + 1)) := by
  have hpos : 0 < fadeTime n := Nat.two_pow_pos _
  have hplace : n % 4 < 16 := by omega
  have hlt : fadeTime n < UInt16.size := Nat.pow_lt_pow_right Nat.one_lt_two hplace
  have htimer : max 1 (UInt16.ofNat (fadeTime n)).toNat = fadeTime n := by
    rw [UInt16.toNat_ofNat_of_lt' hlt, Nat.max_eq_right hpos]
  have hfades : (faded p n 0).patternStyle = ledBlinkPatternStyleFade := h
  have hplays := plays_untilAction (afterFade p b n).1 (afterFade p b n).2
  have hnext : action { (afterFade p b n).1 with nextActionTime := 0 } (afterFade p b n).2 =
      afterFade p b (n + 1) := by
    have haction := fadeAction_faded p (boardSetLED p.ledID (fadeState n) b) n 0
    rw [boardSetLED_boardSetLED, ← action_of_fades hfades] at haction
    exact haction
  have hlength : max 1 (afterFade p b n).1.nextActionTime.toNat = fadeTime n := htimer
  rw [hlength, hnext] at hplays
  exact hplays

/-- Up to its first action a pattern changes nothing. -/
theorem plays_untilFade (hfresh : p.actionCounter = 0) :
    Plays ledTick seen (p, b)
      (List.replicate (max 1 p.nextActionTime.toNat) (b, p.patternCounter)) (afterFade p b 1) := by
  have hstart : faded p 0 0 = { p with nextActionTime := 0 } := by
    have hcounter : UInt16.ofNat (fadeCounter 0) = p.actionCounter := hfresh.symm
    have hpatterns : p.patternCounter + UInt8.ofNat (fadeTops 0) = p.patternCounter :=
      UInt8.add_zero _
    rw [faded, hcounter, hpatterns]
  have hfades : { p with nextActionTime := 0 }.patternStyle = ledBlinkPatternStyleFade := h
  have hplays := plays_untilAction p b
  rwa [action_of_fades hfades, ← hstart, fadeAction_faded] at hplays

theorem plays_fade (n : Nat) :
    Plays ledTick seen (afterFade p b 1) (fadeWave (seenFade p b) n) (afterFade p b (n + 1)) := by
  have hsteps : ∀ i x, (List.range n)[i]? = some x →
      Plays ledTick seen (afterFade p b (i + 1))
        (List.replicate (fadeTime (x + 1)) (seenFade p b (x + 1))) (afterFade p b (i + 1 + 1)) := by
    intro i x hx
    obtain ⟨hi, rfl⟩ := List.getElem?_eq_some_iff.mp hx
    rw [List.getElem_range]
    exact plays_fadeAction h b (i + 1)
  have hplays := Plays.items (fun x => List.replicate (fadeTime (x + 1)) (seenFade p b (x + 1)))
    (fun i => afterFade p b (i + 1)) hsteps
  rw [List.length_range] at hplays
  exact hplays

/-- The samples from one action to another. -/
theorem seen_afterFade (hfresh : p.actionCounter = 0) (t : Nat) :
    (fadeWave (seenFade p b) (t + 1))[t]? =
      some (seen (ledTick^[max 1 p.nextActionTime.toNat + t] (p, b))) := by
  have hwaiting := (plays_untilFade h b hfresh).iterate
  have ht : t < (fadeWave (seenFade p b) (t + 1)).length := by
    rw [length_fadeWave]
    exact le_fadeTicks (t + 1)
  rw [List.length_replicate] at hwaiting
  rw [(plays_fade h b (t + 1)).sample ht, ← hwaiting, ← Function.iterate_add_apply,
    Nat.add_comm t]

end Runs

/-- What `ledPatternSetToFade` leaves behind. -/
theorem setToFade_start (s : Leds) {ledID : Nat} (priority : Nat) (hledID : ledID < lidLedCount) :
    let set := ledPatternSetToFade ledID priority s
    (set.pattern ledID priority, set.board) =
      ((s.pattern ledID priority).setToFade ledID, s.board) := by
  intro set
  have hset : set = s.modify ledID priority (.setToFade ledID) := if_pos hledID
  rw [Prod.mk.injEq, hset, Leds.pattern_modify, Leds.board_modify]
  exact ⟨rfl, rfl⟩

/-- After `ledPatternSetToFade` nothing changes until the first action, which comes when
the timer that was running has ended.  From then on the LED shows one bit of the
brightness after the other, each for as many ticks as it is worth, and the counter of
patterns goes up when the brightness is at its top. -/
theorem fade_waveform (s : Leds) {ledID : Nat} (priority : Nat) (hledID : ledID < lidLedCount) :
    let set := ledPatternSetToFade ledID priority s
    let start := (set.pattern ledID priority, set.board)
    let first := max 1 start.1.nextActionTime.toNat
    (∀ k < first, seen (ledTick^[k] start) = (s.board, start.1.patternCounter)) ∧
    ∀ t, (fadeWave (fun n => (boardSetLED ledID (fadeState n) s.board,
        start.1.patternCounter + UInt8.ofNat (fadeTops n))) (t + 1))[t]? =
      some (seen (ledTick^[first + t] start)) := by
  intro set start first
  have hstart : start = ((s.pattern ledID priority).setToFade ledID, s.board) :=
    setToFade_start s priority hledID
  have hfades : start.1.patternStyle = ledBlinkPatternStyleFade := by rw [hstart]; rfl
  have hfresh : start.1.actionCounter = 0 := by rw [hstart]; rfl
  have hpair : (start.1, s.board) = start := by rw [hstart]
  have hid : start.1.ledID = ledID := by rw [hstart]; rfl
  refine ⟨?_, ?_⟩
  · intro k hk
    have hsample := (plays_untilFade hfades s.board hfresh).sample
      (Nat.lt_of_lt_of_eq hk List.length_replicate.symm)
    rw [List.getElem?_replicate, if_pos hk, hpair] at hsample
    exact (Option.some.inj hsample).symm
  · intro t
    have hafter := seen_afterFade hfades s.board hfresh t
    rw [hpair] at hafter
    rw [← hafter, ← hid]
    rfl

/-- The yellow LED at the first brightness that is not dark: it is lit at the 60th tick,
the one tick that the lowest bit is worth, and dark at the next. -/
theorem fade_waveform_lit :
    let set := ledPatternSetToFade lidYellow lppPriority1 darkLeds
    let start := (set.pattern lidYellow lppPriority1, set.board)
    seen (ledTick^[1 + 59] start) = (boardSetLED lidYellow .on darkLeds.board, 0) ∧
      seen (ledTick^[1 + 60] start) = (boardSetLED lidYellow .off darkLeds.board, 0) := by
  intro set start
  have hafter := (@fade_waveform darkLeds lidYellow lppPriority1 (by decide)).2
  have hlit := hafter 59
  have hdark := hafter 60
  exact ⟨(Option.some.inj hlit).symm, (Option.some.inj hdark).symm⟩

/-! ## Brightness -/

/-- What a bit of a brightness is worth. -/
def bitTicks (level bit : Nat) : Nat := if level.testBit bit then 2 ^ bit else 0

/-- A brightness below 16 is the sum of what its bits are worth. -/
theorem level_eq_bits : ∀ level < 16,
    bitTicks level 0 + bitTicks level 1 + bitTicks level 2 + bitTicks level 3 = level := by
  decide

/-- A sum over four actions in a row is one over the four bits. -/
theorem sum_four (f : Nat → Nat) (n : Nat) :
    f (n % 4) + f ((n + 1) % 4) + f ((n + 2) % 4) + f ((n + 3) % 4) = f 0 + f 1 + f 2 + f 3 := by
  have hplace : n % 4 = 0 ∨ n % 4 = 1 ∨ n % 4 = 2 ∨ n % 4 = 3 := by omega
  rw [Nat.add_mod n 1, Nat.add_mod n 2, Nat.add_mod n 3]
  rcases hplace with h | h | h | h
  · rw [h]
  · rw [h]
    simp only [Nat.reduceMod, Nat.reduceAdd]
    omega
  · rw [h]
    simp only [Nat.reduceMod, Nat.reduceAdd]
    omega
  · rw [h]
    simp only [Nat.reduceMod, Nat.reduceAdd]
    omega

/-- Four actions in a row take fifteen ticks. -/
theorem fadeTime_four (n : Nat) :
    fadeTime n + (fadeTime (n + 1) + (fadeTime (n + 2) + fadeTime (n + 3))) = 15 := by
  have hsum := sum_four (fun bit => 2 ^ bit) n
  simp only [fadeTime, Nat.add_assoc] at hsum ⊢
  exact hsum

theorem fadeTicks_add_four (n : Nat) : fadeTicks (n + 4) = fadeTicks n + 15 := by
  rw [fadeTicks_succ, fadeTicks_succ, fadeTicks_succ, fadeTicks_succ, Nat.add_assoc, Nat.add_assoc,
    Nat.add_assoc, fadeTime_four (n + 1)]

/-- At its top the brightness does not stay. -/
theorem fadeLevel_lt {n : Nat} (h : fadeLevel (n + 1) = fadeLevel n) : fadeLevel n < 16 := by
  have hcases := fadeRamp_cases n
  have hnext := fadeRamp_cases (n + 1)
  unfold fadeLevel at h ⊢
  omega

/-- The ticks of an action in which the LED is on. -/
theorem count_fadeState (n : Nat) :
    (List.replicate (fadeTime n) (fadeState n)).count .on = bitTicks (fadeLevel n) (n % 4) := by
  rw [List.count_replicate, fadeState, bitTicks, fadeTime]
  split
  · rfl
  · rfl

section Runs

variable {p : LedBlinkPattern} (h : p.patternStyle = ledBlinkPatternStyleFade) (b : Board)

include h

/-- The states of the LED during four actions. -/
theorem states_of_four (hfresh : p.actionCounter = 0) (n : Nat) :
    (List.range 15).map (fun k =>
        (ledTick^[max 1 p.nextActionTime.toNat + (fadeTicks n + k)] (p, b)).2.given p.ledID) =
      List.replicate (fadeTime (n + 1)) (fadeState (n + 1)) ++
        (List.replicate (fadeTime (n + 2)) (fadeState (n + 2)) ++
          (List.replicate (fadeTime (n + 3)) (fadeState (n + 3)) ++
            List.replicate (fadeTime (n + 4)) (fadeState (n + 4)))) := by
  have hfour := (plays_fadeAction h b (n + 1)).append ((plays_fadeAction h b (n + 2)).append
    ((plays_fadeAction h b (n + 3)).append (plays_fadeAction h b (n + 4))))
  have hlength := fadeTime_four (n + 1)
  have hsamples := congrArg (List.map fun sample => sample.1.given p.ledID) hfour.samples
  have hfirst := (plays_untilFade h b hfresh).iterate
  have hramp := (plays_fade h b n).iterate
  rw [List.length_replicate] at hfirst
  rw [length_fadeWave] at hramp
  simp only [List.length_append, List.length_replicate, hlength, List.map_append,
    List.map_replicate, List.map_map, seenFade, boardSetLED_given] at hsamples
  rw [← hsamples]
  refine List.map_congr_left fun k _ => ?_
  have htime : max 1 p.nextActionTime.toNat + (fadeTicks n + k) =
      k + fadeTicks n + max 1 p.nextActionTime.toNat := by omega
  rw [htime, Function.iterate_add_apply, Function.iterate_add_apply, hfirst, hramp]
  rfl

end Runs

/-- The brightness is what the LED shows: four actions take fifteen ticks, and over four
actions at one brightness the LED is on for as many ticks as the brightness says. -/
theorem fade_brightness (s : Leds) {ledID : Nat} (priority : Nat) (hledID : ledID < lidLedCount)
    {n : Nat} (hlevel : ∀ i < 4, fadeLevel (n + 1 + i) = fadeLevel (n + 1)) :
    let set := ledPatternSetToFade ledID priority s
    let start := (set.pattern ledID priority, set.board)
    let first := max 1 start.1.nextActionTime.toNat
    fadeTicks (n + 4) = fadeTicks n + 15 ∧
      ((List.range 15).map fun k =>
          (ledTick^[first + (fadeTicks n + k)] start).2.given ledID).count .on =
        fadeLevel (n + 1) := by
  intro set start first
  refine ⟨fadeTicks_add_four n, ?_⟩
  have hstart : start = ((s.pattern ledID priority).setToFade ledID, s.board) :=
    setToFade_start s priority hledID
  have hfades : start.1.patternStyle = ledBlinkPatternStyleFade := by rw [hstart]; rfl
  have hfresh : start.1.actionCounter = 0 := by rw [hstart]; rfl
  have hpair : (start.1, s.board) = start := by rw [hstart]
  have hid : start.1.ledID = ledID := by rw [hstart]; rfl
  have hstates := states_of_four hfades s.board hfresh n
  rw [hpair, hid] at hstates
  have hone := hlevel 1 (by omega)
  have htwo := hlevel 2 (by omega)
  have hthree := hlevel 3 (by omega)
  have hbits := level_eq_bits (fadeLevel (n + 1)) (fadeLevel_lt hone)
  have hsum := sum_four (bitTicks (fadeLevel (n + 1))) (n + 1)
  rw [hstates, List.count_append, List.count_append, List.count_append, count_fadeState,
    count_fadeState, count_fadeState, count_fadeState, hone, htwo, hthree, ← Nat.add_assoc,
    ← Nat.add_assoc]
  exact hsum.trans hbits

/-- The first brightness that is not dark. -/
theorem fade_brightness_one :
    let set := ledPatternSetToFade lidYellow lppPriority1 darkLeds
    ((List.range 15).map fun k =>
        (ledTick^[1 + (fadeTicks 15 + k)] (set.pattern lidYellow lppPriority1, set.board)).2.given
          lidYellow).count .on = 1 :=
  (@fade_brightness darkLeds lidYellow lppPriority1 (by decide) 15 (by decide)).2

end WindradLogger.Led
