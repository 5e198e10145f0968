import Mathlib.Algebra.GroupWithZero.Nat
import WindradLogger.Led.Blink

set_option autoImplicit false

/-!
# The waveform of a morse code

`ledPatternSetToMorse` asks for a code of up to eight bits.  A period begins with
three long flashes, goes on with a flash for each bit, a short one for 1 and a
sixteen times longer one for 0, with equal gaps after all of them, and ends with a
pause.  The counter of actions is even before a flash and odd before a gap.
-/

namespace WindradLogger.Led

open WindradLogger.Lib

/-! ## The waveform asked for -/

/-- Which flashes of a period are long: three to begin with, then the bits that
are 0. -/
def morseMarks (morsePattern length : Nat) : List Bool :=
  List.replicate 3 true ++ (List.range length).map fun bit => !morsePattern.testBit bit

theorem length_morseMarks (morsePattern length : Nat) :
    (morseMarks morsePattern length).length = 3 + length := by
  rw [morseMarks, List.length_append, List.length_replicate, List.length_map, List.length_range]

/-- The ticks of a flash. -/
def markTime (timeOn : Nat) (long : Bool) : Nat := if long then timeOn * 16 else timeOn

/-- The flashes with their gaps, and the pause. -/
def morsePeriod {α : Type} (on off paused : α) (timeOn timeOff timePause : Nat)
    (marks : List Bool) : List α :=
  (marks.flatMap fun long => List.replicate (max 1 (markTime timeOn long)) on ++
      List.replicate (max 1 timeOff) off) ++
    List.replicate (max 1 timePause) paused

/-- The ticks of a period. -/
def morseLength (timeOn timeOff timePause : Nat) (marks : List Bool) : Nat :=
  (marks.map fun long => max 1 (markTime timeOn long) + max 1 timeOff).sum + max 1 timePause

theorem length_morsePeriod {α : Type} (on off paused : α) (timeOn timeOff timePause : Nat)
    (marks : List Bool) :
    (morsePeriod on off paused timeOn timeOff timePause marks).length =
      morseLength timeOn timeOff timePause marks := by
  simp only [morsePeriod, morseLength, List.length_append, List.length_flatMap,
    List.length_replicate]

theorem morseLength_pos (timeOn timeOff timePause : Nat) (marks : List Bool) :
    0 < morseLength timeOn timeOff timePause marks :=
  Nat.lt_of_lt_of_le Nat.one_pos (Nat.le_trans (Nat.le_max_left 1 _) (Nat.le_add_left _ _))

/-! ## Phases -/

/-- A pattern that shows a morse code. -/
def Codes (p : LedBlinkPattern) : Prop := 1 ≤ p.patternStyle ∧ p.patternStyle ≤ 8

/-- The flashes of a pattern. -/
def marksOf (p : LedBlinkPattern) : List Bool :=
  morseMarks p.morsePattern.toNat p.patternStyle.toNat

/-- The choice between a short and a long flash. -/
theorem marksOf_getElem? (p : LedBlinkPattern) {bit : Nat}
    (hbit : bit < 3 + p.patternStyle.toNat) :
    (marksOf p)[bit]? =
      some (if bit < 3 then true else !p.morsePattern.toNat.testBit (bit - 3)) := by
  rcases Nat.lt_or_ge bit 3 with hfirst | hlater
  · have hstart : bit < (List.replicate 3 true).length := hfirst
    rw [marksOf, morseMarks, List.getElem?_append_left hstart, List.getElem?_replicate,
      if_pos hfirst, if_pos hfirst]
  · have hstart : (List.replicate 3 true).length ≤ bit := hlater
    rw [marksOf, morseMarks, List.getElem?_append_right hstart, List.getElem?_map,
      List.length_replicate, List.getElem?_range (by omega), Option.map_some,
      if_neg (Nat.not_lt.mpr hlater)]

/-- The time for which a pattern lights a flash. -/
def markTimer (p : LedBlinkPattern) (long : Bool) : UInt16 :=
  if long then p.timeOn50ms.toUInt16 * 16 else p.timeOn50ms.toUInt16

theorem toNat_markTimer (p : LedBlinkPattern) (long : Bool) :
    (markTimer p long).toNat = markTime p.timeOn50ms.toNat long := by
  have hbound := p.timeOn50ms.toNat_lt
  cases long with
  | false => exact UInt8.toNat_toUInt16 p.timeOn50ms
  | true =>
      have hsixteen : (16 : UInt16).toNat = 16 := rfl
      simp only [markTimer, markTime, if_true]
      rw [UInt16.toNat_mul, UInt8.toNat_toUInt16, hsixteen]
      exact Nat.mod_eq_of_lt (by omega)

/-- What follows upon a number of actions of a period: the next flash, the gap after
it, or the pause. -/
def nextMark (p : LedBlinkPattern) (b : Board) (actions : Nat) (patternCounter : UInt8) :
    LedBlinkPattern × Board :=
  match (marksOf p)[actions / 2]? with
  | none => phase p b .off 0 p.timePause50ms (patternCounter + 1)
  | some long =>
      if actions % 2 = 0 then phase p b .on (actions + 1) (markTimer p long) patternCounter
      else phase p b .off (actions + 1) p.timeOff50ms.toUInt16 patternCounter

theorem nextMark_boardSetLED (p : LedBlinkPattern) (b : Board) (ledState : LedState)
    (actions : Nat) (patternCounter : UInt8) :
    nextMark p (boardSetLED p.ledID ledState b) actions patternCounter =
      nextMark p b actions patternCounter := by
  simp only [nextMark, phase, boardSetLED_boardSetLED]

theorem action_of_codes {p : LedBlinkPattern} (h : Codes p) (b : Board) :
    action p b = morseAction p b := if_pos h

/-! ## Actions -/

section Actions

variable {p : LedBlinkPattern} (h : Codes p) (b : Board)

include h

theorem style_bounds : 1 ≤ p.patternStyle.toNat ∧ p.patternStyle.toNat ≤ 8 :=
  ⟨UInt8.le_iff_toNat_le.mp h.1, UInt8.le_iff_toNat_le.mp h.2⟩

theorem length_marksOf_le : (marksOf p).length ≤ 11 := by
  have hstyle := style_bounds h
  rw [marksOf, length_morseMarks]
  omega

theorem morseAction_counted {actions : Nat} (hactions : actions ≤ 2 * (marksOf p).length)
    (timer : UInt16) (counter : UInt8) :
    morseAction (counted p actions timer counter) b = nextMark p b actions counter := by
  have hmarks := length_marksOf_le h
  have hlength : (marksOf p).length = 3 + p.patternStyle.toNat := length_morseMarks _ _
  have hsize : UInt16.size = 65536 := rfl
  have hnow : (UInt16.ofNat actions).toNat = actions := UInt16.toNat_ofNat_of_lt' (by omega)
  have hnext : UInt16.ofNat actions + 1 = UInt16.ofNat (actions + 1) :=
    (UInt16.ofNat_add actions 1).symm
  have hvalue : (UInt16.ofNat (actions + 1)).toNat = actions + 1 :=
    UInt16.toNat_ofNat_of_lt' (by omega)
  have heven : UInt16.ofNat (actions + 1) &&& 1 = 0 ↔ ¬ actions % 2 = 0 := by
    rw [uint16_and_one_eq_zero_iff, hvalue]
    omega
  simp only [morseAction, counted, hnow, hnext, nextMark]
  rcases Nat.lt_or_ge (actions / 2) (3 + p.patternStyle.toNat) with hmark | hpause
  · rw [marksOf_getElem? p hmark]
    -- a flash or the gap after it, by the parity of the counter
    rcases Nat.lt_or_ge (actions / 2) 3 with hfirst | hbit
    · simp only [if_pos hfirst, heven]
      rcases eq_or_ne (actions % 2) 0 with hflash | hgap
      · simp only [hflash, not_true_eq_false, false_and, if_false, phase,
          counted, markTimer, if_true]
      · simp only [hgap, not_false_eq_true, ne_eq, Nat.reduceEqDiff, and_self, if_true, phase,
          counted, if_false]
    · have hbit' : ¬ actions / 2 < 3 := Nat.not_lt.mpr hbit
      have hmore : ¬ actions / 2 - 3 ≥ p.patternStyle.toNat := by omega
      simp only [if_neg hbit', if_neg hmore, heven]
      rcases eq_or_ne (actions % 2) 0 with hflash | hgap
      · cases hset : p.morsePattern.toNat.testBit (actions / 2 - 3) with
        | false =>
            simp only [hflash, not_true_eq_false, false_and, if_false, if_true, Bool.false_eq_true,
              phase, counted, markTimer, Bool.not_false]
        | true =>
            simp only [hflash, not_true_eq_false, false_and, if_false, if_true, phase, counted,
              markTimer, Bool.not_true, Bool.false_eq_true]
      · have hdark : (if p.morsePattern.toNat.testBit (actions / 2 - 3) then 0 else 1) ≠ 3 := by
          split <;> omega
        simp only [hgap, not_false_eq_true, hdark, ne_eq, and_self, if_true, if_false, phase,
          counted]
  · rw [List.getElem?_eq_none (Nat.le_trans (Nat.le_of_eq hlength) hpause)]
    have hbit' : ¬ actions / 2 < 3 := by omega
    have hover : actions / 2 - 3 ≥ p.patternStyle.toNat := by omega
    simp only [if_neg hbit', if_pos hover, ne_eq, not_true_eq_false, and_false, if_false, phase,
      counted]
    rfl

/-- A phase lasts as long as its timer says, and at least one tick. -/
theorem plays_mark (ledState : LedState) {actions : Nat}
    (hactions : actions ≤ 2 * (marksOf p).length) (timer : UInt16) (counter : UInt8) :
    Plays ledTick seen (phase p b ledState actions timer counter)
      (List.replicate (max 1 timer.toNat) (boardSetLED p.ledID ledState b, counter))
      (nextMark p b actions counter) := by
  have hplays := plays_untilAction (counted p actions timer counter)
    (boardSetLED p.ledID ledState b)
  have hcodes : Codes { counted p actions timer counter with nextActionTime := 0 } := h
  have hnext := morseAction_counted h (boardSetLED p.ledID ledState b) hactions 0 counter
  rw [action_of_codes hcodes] at hplays
  rw [nextMark_boardSetLED] at hnext
  rw [← hnext]
  exact hplays

/-- A flash and the gap after it. -/
theorem plays_flashAndGap {i : Nat} {long : Bool} (hlong : (marksOf p)[i]? = some long)
    (counter : UInt8) :
    Plays ledTick seen (nextMark p b (2 * i) counter)
      (List.replicate (max 1 (markTime p.timeOn50ms.toNat long))
          (boardSetLED p.ledID .on b, counter) ++
        List.replicate (max 1 p.timeOff50ms.toNat) (boardSetLED p.ledID .off b, counter))
      (nextMark p b (2 * (i + 1)) counter) := by
  obtain ⟨hi, -⟩ := List.getElem?_eq_some_iff.mp hlong
  have hflash : nextMark p b (2 * i) counter =
      phase p b .on (2 * i + 1) (markTimer p long) counter := by
    rw [nextMark, Nat.mul_div_cancel_left i Nat.two_pos, hlong]
    exact if_pos (Nat.mul_mod_right 2 i)
  have hgap : nextMark p b (2 * i + 1) counter =
      phase p b .off (2 * (i + 1)) p.timeOff50ms.toUInt16 counter := by
    have hhalf : (2 * i + 1) / 2 = i := by omega
    rw [nextMark, hhalf, hlong]
    exact if_neg (by omega)
  have hlit : 2 * i + 1 ≤ 2 * (marksOf p).length := by omega
  have hdark : 2 * (i + 1) ≤ 2 * (marksOf p).length := by omega
  have hon := plays_mark h b .on hlit (markTimer p long) counter
  have hoff := plays_mark h b .off hdark p.timeOff50ms.toUInt16 counter
  rw [toNat_markTimer, hgap] at hon
  rw [UInt8.toNat_toUInt16] at hoff
  rw [hflash]
  exact hon.append hoff

/-- What is seen of a pattern in one period. -/
def seenMarks (p : LedBlinkPattern) (b : Board) (counter : UInt8) : List (Board × UInt8) :=
  morsePeriod (boardSetLED p.ledID .on b, counter) (boardSetLED p.ledID .off b, counter)
    (boardSetLED p.ledID .off b, counter + 1) p.timeOn50ms.toNat p.timeOff50ms.toNat
    p.timePause50ms.toNat (marksOf p)

theorem plays_code (counter : UInt8) :
    Plays ledTick seen (nextMark p b 0 counter) (seenMarks p b counter)
      (nextMark p b 0 (counter + 1)) := by
  have hflashes := Plays.items _ (fun i => nextMark p b (2 * i) counter)
    fun i long hlong => plays_flashAndGap h b hlong counter
  have hend : nextMark p b (2 * (marksOf p).length) counter =
      phase p b .off 0 p.timePause50ms (counter + 1) := by
    rw [nextMark, Nat.mul_div_cancel_left _ Nat.two_pos, List.getElem?_eq_none (Nat.le_refl _)]
  have hpause := plays_mark h b .off (Nat.zero_le _) p.timePause50ms (counter + 1)
  rw [← hend] at hpause
  exact hflashes.append hpause

end Actions

/-! ## Runs -/

section Runs

variable {p : LedBlinkPattern} (h : Codes p) (hfresh : p.actionCounter = 0) (b : Board)

include h hfresh

/-- Up to its first action a pattern changes nothing, and then it is in the first
flash of a period. -/
theorem plays_untilCode :
    Plays ledTick seen (p, b)
      (List.replicate (max 1 p.nextActionTime.toNat) (b, p.patternCounter))
      (nextMark p b 0 p.patternCounter) := by
  have hstart : counted p 0 0 p.patternCounter = { p with nextActionTime := 0 } := by
    have hzero : UInt16.ofNat 0 = p.actionCounter := hfresh.symm
    rw [counted, hzero]
  have hcodes : Codes { p with nextActionTime := 0 } := h
  have hplays := plays_untilAction p b
  rwa [action_of_codes hcodes, ← hstart, morseAction_counted h b (Nat.zero_le _)] at hplays

theorem iterate_afterCode (t : Nat) :
    ledTick^[max 1 p.nextActionTime.toNat + t] (p, b) =
      ledTick^[t] (nextMark p b 0 (p.patternCounter + UInt8.ofNat 0)) := by
  have hzero : p.patternCounter + UInt8.ofNat 0 = p.patternCounter := UInt8.add_zero _
  have hwaiting := (plays_untilCode h hfresh b).iterate
  rw [List.length_replicate] at hwaiting
  rw [hzero, ← hwaiting, ← Function.iterate_add_apply, Nat.add_comm t]

omit hfresh in
/-- The periods follow one another. -/
theorem plays_codes (q : Nat) :
    Plays ledTick seen (nextMark p b 0 (p.patternCounter + UInt8.ofNat q))
      (seenMarks p b (p.patternCounter + UInt8.ofNat q))
      (nextMark p b 0 (p.patternCounter + UInt8.ofNat (q + 1))) := by
  have hone : UInt8.ofNat 1 = 1 := rfl
  rw [UInt8.ofNat_add, ← UInt8.add_assoc, hone]
  exact plays_code h b _

/-- From the first action on a pattern goes through one period after the other. -/
theorem seen_afterCode (t : Nat) :
    let len := morseLength p.timeOn50ms.toNat p.timeOff50ms.toNat p.timePause50ms.toNat (marksOf p)
    (seenMarks p b (p.patternCounter + UInt8.ofNat (t / len)))[t % len]? =
      some (seen (ledTick^[max 1 p.nextActionTime.toNat + t] (p, b))) := by
  intro len
  have hlen : ∀ q, (seenMarks p b (p.patternCounter + UInt8.ofNat q)).length = len :=
    fun q => length_morsePeriod _ _ _ _ _ _ _
  rw [Plays.sample_periods (plays_codes h b) hlen (morseLength_pos _ _ _ _) t,
    iterate_afterCode h hfresh b]

/-- The samples of a whole period. -/
theorem samples_afterCode (q : Nat) :
    let len := morseLength p.timeOn50ms.toNat p.timeOff50ms.toNat p.timePause50ms.toNat (marksOf p)
    (List.range len).map
        (fun k => seen (ledTick^[max 1 p.nextActionTime.toNat + (q * len + k)] (p, b))) =
      seenMarks p b (p.patternCounter + UInt8.ofNat q) := by
  intro len
  have hlen : ∀ q, (seenMarks p b (p.patternCounter + UInt8.ofNat q)).length = len :=
    fun q => length_morsePeriod _ _ _ _ _ _ _
  have hsamples := (plays_codes h b q).samples
  rw [hlen] at hsamples
  rw [← hsamples]
  refine List.map_congr_left fun k _ => ?_
  rw [iterate_afterCode h hfresh b, Nat.add_comm (q * len), Function.iterate_add_apply,
    Plays.iterate_periods (plays_codes h b) hlen]

end Runs

/-- What is set as a code of one to eight bits shows it. -/
theorem codes_setToMorse (p : LedBlinkPattern) (ledID : Nat) (morsePattern : UInt8)
    {morsePatternLength : UInt8} (hpos : 0 < morsePatternLength)
    (hlength : morsePatternLength < 9) :
    Codes (p.setToMorse ledID morsePattern morsePatternLength) := by
  rw [UInt8.lt_iff_toNat_lt] at hpos hlength
  exact ⟨UInt8.le_iff_toNat_le.mpr hpos, UInt8.le_iff_toNat_le.mpr (Nat.le_of_lt_succ hlength)⟩

/-- What `ledPatternSetToMorse` leaves behind. -/
theorem setToMorse_start (s : Leds) {ledID : Nat} (priority : Nat) (morsePattern : UInt8)
    {morsePatternLength : UInt8} (hledID : ledID < lidLedCount) (hpos : 0 < morsePatternLength)
    (hlength : morsePatternLength < 9) :
    let set := ledPatternSetToMorse ledID priority morsePattern morsePatternLength s
    (set.pattern ledID priority, set.board) =
      ((s.pattern ledID priority).setToMorse ledID morsePattern morsePatternLength, s.board) := by
  intro set
  have hset : set = s.modify ledID priority (.setToMorse ledID morsePattern morsePatternLength) :=
    if_pos ⟨hledID, hlength, hpos⟩
  rw [Prod.mk.injEq, hset, Leds.pattern_modify, Leds.board_modify]
  exact ⟨rfl, rfl⟩

/-- After `ledPatternSetToMorse` nothing changes until the first action, which comes
when the timer that was running has ended.  From then on the LED and the counter of
patterns go through one period of the code after the other: flashes of 32 or 2
ticks with gaps of 2, and a pause of 50, in which the counter goes up. -/
theorem morse_waveform (s : Leds) {ledID : Nat} (priority : Nat) (morsePattern : UInt8)
    {morsePatternLength : UInt8} (hledID : ledID < lidLedCount) (hpos : 0 < morsePatternLength)
    (hlength : morsePatternLength < 9) :
    let set := ledPatternSetToMorse ledID priority morsePattern morsePatternLength s
    let start := (set.pattern ledID priority, set.board)
    let first := max 1 start.1.nextActionTime.toNat
    let marks := morseMarks morsePattern.toNat morsePatternLength.toNat
    let len := morseLength 2 2 50 marks
    (∀ k < first, seen (ledTick^[k] start) = (s.board, start.1.patternCounter)) ∧
    ∀ t,
      let counter := start.1.patternCounter + UInt8.ofNat (t / len)
      (morsePeriod (boardSetLED ledID .on s.board, counter)
          (boardSetLED ledID .off s.board, counter) (boardSetLED ledID .off s.board, counter + 1)
          2 2 50 marks)[t % len]? =
        some (seen (ledTick^[first + t] start)) := by
  intro set start first marks len
  have hstart : start = ((s.pattern ledID priority).setToMorse ledID morsePattern
      morsePatternLength, s.board) := setToMorse_start s priority morsePattern hledID hpos hlength
  have hcodes : Codes start.1 := by
    rw [hstart]
    exact codes_setToMorse _ ledID morsePattern hpos hlength
  have hfresh : start.1.actionCounter = 0 := by rw [hstart]; rfl
  have hpair : (start.1, s.board) = start := by rw [hstart]
  refine ⟨?_, ?_⟩
  · intro k hk
    have hsample := (plays_untilCode hcodes hfresh s.board).sample
      (Nat.lt_of_lt_of_eq hk List.length_replicate.symm)
    rw [List.getElem?_replicate, if_pos hk, hpair] at hsample
    exact (Option.some.inj hsample).symm
  · intro t counter
    have hafter := seen_afterCode hcodes hfresh s.board t
    have hid : start.1.ledID = ledID := by rw [hstart]; rfl
    have htimeOn : start.1.timeOn50ms.toNat = 2 := by rw [hstart]; rfl
    have htimeOff : start.1.timeOff50ms.toNat = 2 := by rw [hstart]; rfl
    have hpause : start.1.timePause50ms.toNat = 50 := by rw [hstart]; rfl
    have hmarks : marksOf start.1 = marks := by rw [hstart]; rfl
    simp only [seenMarks, htimeOn, htimeOff, hpause, hmarks, hid, hpair] at hafter
    exact hafter

/-- The code 101 of three bits on the red LED: the short flash of the first bit ends
after two ticks. -/
theorem morse_waveform_bit :
    let set := ledPatternSetToMorse lidRed lppPriority1 5 3 darkLeds
    seen (ledTick^[1 + 104] (set.pattern lidRed lppPriority1, set.board)) =
      (boardSetLED lidRed .off darkLeds.board, 0) := by
  have hshown := (@morse_waveform darkLeds lidRed lppPriority1 5 3 (by decide) (by decide)
    (by decide)).2 104
  exact (Option.some.inj hshown).symm

/-! ## Reading a code -/

/-- The flashes in a list of samples of an LED, the long ones marked: `lit` says for
how many ticks it has been on. -/
def readMarks (lit : Nat) : List LedState → List Bool
  | [] => []
  | .on :: rest => readMarks (lit + 1) rest
  | .off :: rest => if lit = 0 then readMarks 0 rest else decide (2 < lit) :: readMarks 0 rest

theorem readMarks_on (lit n : Nat) (rest : List LedState) :
    readMarks lit (List.replicate n .on ++ rest) = readMarks (lit + n) rest := by
  induction n generalizing lit with
  | zero => rfl
  | succ n ih =>
      rw [List.replicate_succ, List.cons_append, readMarks, ih, Nat.add_right_comm]
      rfl

theorem readMarks_off (n : Nat) (rest : List LedState) :
    readMarks 0 (List.replicate n .off ++ rest) = readMarks 0 rest := by
  induction n with
  | zero => rfl
  | succ n ih =>
      rw [List.replicate_succ, List.cons_append, readMarks, if_pos rfl]
      exact ih

/-- A flash and its gap, with anything behind them. -/
theorem readMarks_mark (long : Bool) (rest : List LedState) :
    readMarks 0 (List.replicate (max 1 (markTime 2 long)) .on ++
      (List.replicate (max 1 2) .off ++ rest)) = long :: readMarks 0 rest := by
  have hgap : List.replicate (max 1 2) LedState.off ++ rest =
      .off :: (List.replicate 1 .off ++ rest) := rfl
  have hlit : 0 + max 1 (markTime 2 long) ≠ 0 := by omega
  have hmeasured : decide (2 < 0 + max 1 (markTime 2 long)) = long := by cases long <;> rfl
  rw [readMarks_on, hgap, readMarks, if_neg hlit, hmeasured, readMarks_off]

theorem readMarks_period (marks : List Bool) (timePause : Nat) :
    readMarks 0 (morsePeriod .on .off .off 2 2 timePause marks) = marks := by
  unfold morsePeriod
  induction marks with
  | nil =>
      have hdark := readMarks_off (max 1 timePause) []
      rw [List.append_nil] at hdark
      exact hdark
  | cons long rest ih =>
      rw [List.flatMap_cons, List.append_assoc, List.append_assoc, readMarks_mark, ih]

theorem map_morsePeriod {α β : Type} (f : α → β) (on off paused : α)
    (timeOn timeOff timePause : Nat) (marks : List Bool) :
    (morsePeriod on off paused timeOn timeOff timePause marks).map f =
      morsePeriod (f on) (f off) (f paused) timeOn timeOff timePause marks := by
  simp only [morsePeriod, List.map_append, List.map_flatMap, List.map_replicate]

/-- Who measures how long the LED is lit, in any period after `ledPatternSetToMorse`,
reads three long flashes and then the bits of the code, the lowest first. -/
theorem morse_read_back (s : Leds) {ledID : Nat} (priority : Nat) (morsePattern : UInt8)
    {morsePatternLength : UInt8} (hledID : ledID < lidLedCount) (hpos : 0 < morsePatternLength)
    (hlength : morsePatternLength < 9) (q : Nat) :
    let set := ledPatternSetToMorse ledID priority morsePattern morsePatternLength s
    let start := (set.pattern ledID priority, set.board)
    let len := morseLength 2 2 50 (morseMarks morsePattern.toNat morsePatternLength.toNat)
    readMarks 0 ((List.range len).map fun k =>
        (ledTick^[max 1 start.1.nextActionTime.toNat + (q * len + k)] start).2.given ledID) =
      List.replicate 3 true ++
        (List.range morsePatternLength.toNat).map fun bit => !morsePattern.toNat.testBit bit := by
  intro set start len
  have hstart : start = ((s.pattern ledID priority).setToMorse ledID morsePattern
      morsePatternLength, s.board) := setToMorse_start s priority morsePattern hledID hpos hlength
  have hcodes : Codes start.1 := by
    rw [hstart]
    exact codes_setToMorse _ ledID morsePattern hpos hlength
  have hfresh : start.1.actionCounter = 0 := by rw [hstart]; rfl
  have hpair : (start.1, s.board) = start := by rw [hstart]
  have hid : start.1.ledID = ledID := by rw [hstart]; rfl
  have htimeOn : start.1.timeOn50ms.toNat = 2 := by rw [hstart]; rfl
  have htimeOff : start.1.timeOff50ms.toNat = 2 := by rw [hstart]; rfl
  have hpause : start.1.timePause50ms.toNat = 50 := by rw [hstart]; rfl
  have hmarks : marksOf start.1 = morseMarks morsePattern.toNat morsePatternLength.toNat := by
    rw [hstart]; rfl
  have hsamples := congrArg (List.map fun sample => sample.1.given ledID)
    (samples_afterCode hcodes hfresh s.board q)
  simp only [seenMarks, htimeOn, htimeOff, hpause, hmarks, hid, hpair, map_morsePeriod,
    boardSetLED_given, List.map_map] at hsamples
  have hread := readMarks_period (morseMarks morsePattern.toNat morsePatternLength.toNat) 50
  rw [← hsamples] at hread
  exact hread

/-- The same code is read in every period. -/
theorem morse_read_back_bits :
    let set := ledPatternSetToMorse lidRed lppPriority1 5 3 darkLeds
    let len := morseLength 2 2 50 (morseMarks 5 3)
    readMarks 0 ((List.range len).map fun k =>
        (ledTick^[1 + (7 * len + k)] (set.pattern lidRed lppPriority1, set.board)).2.given
          lidRed) = [true, true, true, false, true, false] :=
  @morse_read_back darkLeds lidRed lppPriority1 5 3 (by decide) (by decide) (by decide) 7

end WindradLogger.Led
