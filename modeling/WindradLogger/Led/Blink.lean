import WindradLogger.Lib.Waveform
import WindradLogger.Led.Table

set_option autoImplicit false

/-!
# The waveform of a blinking LED

`ledPatternSetToBlink` asks for bursts of flashes: `repeat` times on, with pauses
of their own between them, and a longer pause after each burst.  The counter of
actions says in which phase a pattern is, and the timer for how long still.  A
phase of no ticks takes one tick, since the timer is tested after it has been
counted down.
-/

namespace WindradLogger.Led

open WindradLogger.Lib

/-! ## The waveform asked for -/

/-- A burst of `repeats` flashes and the pause after it. -/
def blinkPeriod {α : Type} (on off paused : α) (timeOn timeOff timePause repeats : Nat) : List α :=
  (List.replicate (max 1 timeOff) off).intercalate
      (List.replicate repeats (List.replicate timeOn on)) ++
    List.replicate (max 1 timePause) paused

/-- The ticks of a period. -/
def blinkLength (timeOn timeOff timePause repeats : Nat) : Nat :=
  repeats * timeOn + (repeats - 1) * max 1 timeOff + max 1 timePause

theorem blinkPeriod_succ {α : Type} (on off paused : α) (timeOn timeOff timePause repeats : Nat) :
    blinkPeriod on off paused timeOn timeOff timePause (repeats + 1) =
      (List.replicate repeats
          (List.replicate timeOn on ++ List.replicate (max 1 timeOff) off)).flatten ++
        (List.replicate timeOn on ++ List.replicate (max 1 timePause) paused) := by
  rw [blinkPeriod, intercalate_replicate, List.append_assoc]

theorem length_blinkPeriod {α : Type} (on off paused : α) {timeOn timeOff timePause repeats : Nat}
    (hrepeats : 0 < repeats) :
    (blinkPeriod on off paused timeOn timeOff timePause repeats).length =
      blinkLength timeOn timeOff timePause repeats := by
  obtain ⟨n, rfl⟩ := Nat.exists_eq_succ_of_ne_zero (Nat.ne_of_gt hrepeats)
  rw [Nat.succ_eq_add_one, blinkPeriod_succ, blinkLength, Nat.add_sub_cancel]
  simp only [List.length_append, List.length_flatten, List.map_replicate, List.length_replicate,
    List.sum_replicate_nat]
  rw [Nat.mul_add, Nat.succ_mul]
  omega

/-! ## Phases -/

/-- A pattern that blinks. -/
structure Blinks (p : LedBlinkPattern) : Prop where
  style : p.patternStyle = ledBlinkPatternStyleBlink
  timeOn : p.timeOn50ms ≠ 0
  repeats : p.repeats ≠ 0

theorem Blinks.repeats_toNat {p : LedBlinkPattern} (h : Blinks p) : p.repeats.toNat ≠ 0 :=
  fun hzero => h.repeats (UInt8.toNat_inj.mp hzero)

theorem Blinks.max_timeOn {p : LedBlinkPattern} (h : Blinks p) :
    max 1 p.timeOn50ms.toNat = p.timeOn50ms.toNat :=
  Nat.max_eq_right (Nat.pos_of_ne_zero fun hzero => h.timeOn (UInt8.toNat_inj.mp hzero))

/-- The pattern `p` after `actions` actions of a burst, with the timer at `timer`. -/
def counted (p : LedBlinkPattern) (actions : Nat) (timer : UInt16) (patternCounter : UInt8) :
    LedBlinkPattern :=
  { p with
    actionCounter := UInt16.ofNat actions
    nextActionTime := timer
    patternCounter := patternCounter }

/-- The same with the LED in a state. -/
def phase (p : LedBlinkPattern) (b : Board) (ledState : LedState) (actions : Nat) (timer : UInt16)
    (patternCounter : UInt8) : LedBlinkPattern × Board :=
  (counted p actions timer patternCounter, boardSetLED p.ledID ledState b)

/-- What follows upon a number of actions of a burst: the pause when it was the
last but one, otherwise a flash or the end of it. -/
def nextPhase (p : LedBlinkPattern) (b : Board) (actions : Nat) (patternCounter : UInt8) :
    LedBlinkPattern × Board :=
  if actions + 1 = 2 * p.repeats.toNat then
    phase p b .off 0 p.timePause50ms (patternCounter + 1)
  else if actions % 2 = 0 then
    phase p b .on (actions + 1) p.timeOn50ms.toUInt16 patternCounter
  else phase p b .off (actions + 1) p.timeOff50ms.toUInt16 patternCounter

theorem nextPhase_boardSetLED (p : LedBlinkPattern) (b : Board) (ledState : LedState)
    (actions : Nat) (patternCounter : UInt8) :
    nextPhase p (boardSetLED p.ledID ledState b) actions patternCounter =
      nextPhase p b actions patternCounter := by
  simp only [nextPhase, phase, boardSetLED_boardSetLED]

/-- What is seen of a pattern. -/
def seen (s : LedBlinkPattern × Board) : Board × UInt8 := (s.2, s.1.patternCounter)

theorem uint16_and_one_eq_zero_iff (x : UInt16) : x &&& 1 = 0 ↔ x.toNat % 2 = 0 := by
  rw [← UInt16.toNat_inj, UInt16.toNat_and]
  exact (Nat.and_one_is_mod x.toNat).symm ▸ Iff.rfl

theorem action_of_blinks {p : LedBlinkPattern} (h : p.patternStyle = ledBlinkPatternStyleBlink)
    (b : Board) : action p b = blinkAction p b := by
  rw [action, h]
  rfl

/-- The timer is counted down. -/
theorem ledTick_of_waiting {p : LedBlinkPattern} {b : Board} (h : 1 < p.nextActionTime.toNat) :
    ledTick (p, b) = ({ p with nextActionTime := p.nextActionTime - 1 }, b) := by
  have hne : p.nextActionTime ≠ 0 := by
    intro hzero
    rw [hzero] at h
    exact absurd h (by decide)
  have hne' : p.nextActionTime - 1 ≠ 0 := by
    intro hzero
    have hone : p.nextActionTime = 1 := by
      rw [← UInt16.sub_add_cancel p.nextActionTime 1, hzero]
      rfl
    rw [hone] at h
    exact absurd h (by decide)
  simp only [ledTick, if_pos hne, if_neg hne']

/-- At zero there is an action. -/
theorem ledTick_eq_action {p : LedBlinkPattern} {b : Board} (h : p.nextActionTime.toNat ≤ 1) :
    ledTick (p, b) = action { p with nextActionTime := 0 } b := by
  rcases Nat.le_one_iff_eq_zero_or_eq_one.mp h with hzero | hone
  · have hvalue : p.nextActionTime = 0 := UInt16.toNat_inj.mp hzero
    have hsame : { p with nextActionTime := 0 } = p := by rw [← hvalue]
    simp only [ledTick, hvalue, ne_eq, not_true_eq_false, if_false, if_true, hsame]
  · have hvalue : p.nextActionTime = 1 := UInt16.toNat_inj.mp hone
    have hne : p.nextActionTime ≠ 0 := by
      rw [hvalue]
      nofun
    have hlast : p.nextActionTime - 1 = 0 := by
      rw [hvalue]
      rfl
    simp only [ledTick, if_pos hne, hlast, if_true]

/-- Until its next action a pattern of any style waits, for at least one tick. -/
theorem plays_untilAction (p : LedBlinkPattern) (b : Board) :
    Plays ledTick seen (p, b) (List.replicate (max 1 p.nextActionTime.toNat) (b, p.patternCounter))
      (action { p with nextActionTime := 0 } b) := by
  have hout : ∀ m, seen ({ p with nextActionTime := UInt16.ofNat m }, b) =
      (b, p.patternCounter) := fun _ => rfl
  have hact : ∀ m, m ≤ 1 → ledTick ({ p with nextActionTime := UInt16.ofNat m }, b) =
      action { p with nextActionTime := 0 } b := by
    intro m hm
    refine ledTick_eq_action ?_
    rw [UInt16.toNat_ofNat_of_lt' (Nat.lt_of_le_of_lt hm (by decide))]
    exact hm
  have hstep : ∀ m, 1 < m → m ≤ p.nextActionTime.toNat →
      ledTick ({ p with nextActionTime := UInt16.ofNat m }, b) =
        ({ p with nextActionTime := UInt16.ofNat (m - 1) }, b) := by
    intro m hm hle
    have hvalue : (UInt16.ofNat m).toNat = m :=
      UInt16.toNat_ofNat_of_lt' (Nat.lt_of_le_of_lt hle p.nextActionTime.toNat_lt)
    rw [ledTick_of_waiting (Nat.lt_of_lt_of_eq hm hvalue.symm), UInt16.ofNat_sub (Nat.le_of_lt hm)]
    rfl
  have hplays := Plays.countdown hout hact hstep
  rwa [UInt16.ofNat_toNat] at hplays

/-! ## Actions -/

section Actions

variable {p : LedBlinkPattern} (h : Blinks p) (b : Board)

include h

theorem blinkAction_counted {actions : Nat} (hactions : actions < 2 * p.repeats.toNat)
    (timer : UInt16) (counter : UInt8) :
    blinkAction (counted p actions timer counter) b = nextPhase p b actions counter := by
  have hrepeats := p.repeats.toNat_lt
  have hcounter : UInt16.ofNat actions + 1 = UInt16.ofNat (actions + 1) :=
    (UInt16.ofNat_add actions 1).symm
  have hvalue : (UInt16.ofNat (actions + 1)).toNat = actions + 1 :=
    UInt16.toNat_ofNat_of_lt' (by rw [UInt16.size]; omega)
  have heven : UInt16.ofNat (actions + 1) &&& 1 = 0 ↔ ¬ actions % 2 = 0 := by
    rw [uint16_and_one_eq_zero_iff, hvalue]
    omega
  have htwice : p.repeats.toNat * 2 = 2 * p.repeats.toNat := Nat.mul_comm _ _
  simp only [blinkAction, nextPhase, phase, counted, hcounter, hvalue, heven, htwice,
    if_neg h.repeats]
  rcases eq_or_ne (actions + 1) (2 * p.repeats.toNat) with hlast | hmore
  · simp only [if_pos hlast]
    rfl
  · simp only [if_neg hmore]
    rcases eq_or_ne (actions % 2) 0 with hon | hoff
    · simp only [hon, not_true_eq_false, if_false, h.timeOn, if_true]
    · simp only [hoff, not_false_eq_true, if_true, if_false]

/-- Until the next action the timer runs down, for at least one tick. -/
theorem plays_counted {actions : Nat} (hactions : actions < 2 * p.repeats.toNat) (timer : UInt16)
    (counter : UInt8) :
    Plays ledTick seen (counted p actions timer counter, b)
      (List.replicate (max 1 timer.toNat) (b, counter)) (nextPhase p b actions counter) := by
  have hplays := plays_untilAction (counted p actions timer counter) b
  have hblinks : (counted p actions 0 counter).patternStyle = ledBlinkPatternStyleBlink := h.style
  have hnext : action { counted p actions timer counter with nextActionTime := 0 } b =
      nextPhase p b actions counter :=
    (action_of_blinks hblinks b).trans (blinkAction_counted h b hactions 0 counter)
  rwa [hnext] at hplays

theorem plays_phase (ledState : LedState) {actions : Nat}
    (hactions : actions < 2 * p.repeats.toNat) (timer : UInt16) (counter : UInt8) :
    Plays ledTick seen (phase p b ledState actions timer counter)
      (List.replicate (max 1 timer.toNat) (boardSetLED p.ledID ledState b, counter))
      (nextPhase p b actions counter) := by
  rw [← nextPhase_boardSetLED p b ledState]
  exact plays_counted h _ hactions timer counter

/-- A flash and the time to the next one. -/
theorem plays_flash {i : Nat} (hi : i + 1 < p.repeats.toNat) (counter : UInt8) :
    Plays ledTick seen (phase p b .on (2 * i + 1) p.timeOn50ms.toUInt16 counter)
      (List.replicate p.timeOn50ms.toNat (boardSetLED p.ledID .on b, counter) ++
        List.replicate (max 1 p.timeOff50ms.toNat) (boardSetLED p.ledID .off b, counter))
      (phase p b .on (2 * (i + 1) + 1) p.timeOn50ms.toUInt16 counter) := by
  have hlit : 2 * i + 1 < 2 * p.repeats.toNat := by omega
  have hdark : 2 * i + 2 < 2 * p.repeats.toNat := by omega
  have hon := plays_phase h b .on hlit p.timeOn50ms.toUInt16 counter
  have hoff := plays_phase h b .off hdark p.timeOff50ms.toUInt16 counter
  rw [nextPhase, if_neg (by omega), if_neg (by omega), UInt8.toNat_toUInt16, h.max_timeOn] at hon
  rw [nextPhase, if_neg (by omega), if_pos (by omega), UInt8.toNat_toUInt16] at hoff
  exact hon.append hoff

/-- The last flash of a burst and the pause. -/
theorem plays_lastFlash {n : Nat} (hn : n + 1 = p.repeats.toNat) (counter : UInt8) :
    Plays ledTick seen (phase p b .on (2 * n + 1) p.timeOn50ms.toUInt16 counter)
      (List.replicate p.timeOn50ms.toNat (boardSetLED p.ledID .on b, counter) ++
        List.replicate (max 1 p.timePause50ms.toNat) (boardSetLED p.ledID .off b, counter + 1))
      (phase p b .on 1 p.timeOn50ms.toUInt16 (counter + 1)) := by
  have hlast : 2 * n + 1 < 2 * p.repeats.toNat := by omega
  have hfirst : 0 < 2 * p.repeats.toNat := by omega
  have hon := plays_phase h b .on hlast p.timeOn50ms.toUInt16 counter
  have hpause := plays_phase h b .off hfirst p.timePause50ms (counter + 1)
  rw [nextPhase, if_pos (by omega), UInt8.toNat_toUInt16, h.max_timeOn] at hon
  rw [nextPhase, if_neg (by omega), if_pos rfl] at hpause
  exact hon.append hpause

/-- What is seen of a pattern in one period. -/
def seenPeriod (p : LedBlinkPattern) (b : Board) (counter : UInt8) : List (Board × UInt8) :=
  blinkPeriod (boardSetLED p.ledID .on b, counter) (boardSetLED p.ledID .off b, counter)
    (boardSetLED p.ledID .off b, counter + 1) p.timeOn50ms.toNat p.timeOff50ms.toNat
    p.timePause50ms.toNat p.repeats.toNat

theorem plays_period (counter : UInt8) :
    Plays ledTick seen (phase p b .on 1 p.timeOn50ms.toUInt16 counter) (seenPeriod p b counter)
      (phase p b .on 1 p.timeOn50ms.toUInt16 (counter + 1)) := by
  obtain ⟨n, hn⟩ := Nat.exists_eq_succ_of_ne_zero h.repeats_toNat
  rw [seenPeriod, hn, Nat.succ_eq_add_one, blinkPeriod_succ]
  have hflashes := Plays.replicate
    (fun i => phase p b .on (2 * i + 1) p.timeOn50ms.toUInt16 counter)
    fun i (hi : i < n) => plays_flash h b (by omega) counter
  exact hflashes.append (plays_lastFlash h b hn.symm counter)

end Actions

/-! ## Runs -/

section Runs

variable {p : LedBlinkPattern} (h : Blinks p) (hfresh : p.actionCounter = 0) (b : Board)

include h hfresh

/-- Up to its first action a pattern changes nothing, and then it is in the first
phase of a burst. -/
theorem plays_waiting :
    Plays ledTick seen (p, b)
      (List.replicate (max 1 p.nextActionTime.toNat) (b, p.patternCounter))
      (phase p b .on 1 p.timeOn50ms.toUInt16 p.patternCounter) := by
  have hpos : 0 < 2 * p.repeats.toNat :=
    Nat.mul_pos (by decide) (Nat.pos_of_ne_zero h.repeats_toNat)
  have hstart : counted p 0 p.nextActionTime p.patternCounter = p := by
    have hzero : UInt16.ofNat 0 = p.actionCounter := hfresh.symm
    rw [counted, hzero]
  have hplays := plays_counted h b hpos p.nextActionTime p.patternCounter
  have hlater : ¬ 0 + 1 = 2 * p.repeats.toNat := by omega
  rwa [hstart, nextPhase, if_neg hlater, if_pos rfl] at hplays

/-- From then on it goes through one period after the other. -/
theorem seen_after (t : Nat) :
    let len := blinkLength p.timeOn50ms.toNat p.timeOff50ms.toNat p.timePause50ms.toNat
      p.repeats.toNat
    (seenPeriod p b (p.patternCounter + UInt8.ofNat (t / len)))[t % len]? =
      some (seen (ledTick^[max 1 p.nextActionTime.toNat + t] (p, b))) := by
  intro len
  have hrepeats := Nat.pos_of_ne_zero h.repeats_toNat
  have hlen : ∀ q, (seenPeriod p b (p.patternCounter + UInt8.ofNat q)).length = len :=
    fun q => length_blinkPeriod _ _ _ hrepeats
  have hpos : 0 < len := Nat.lt_of_lt_of_le (by decide) (Nat.le_trans (Nat.le_max_left 1 _)
    (Nat.le_add_left _ _))
  have hperiods : ∀ q, Plays ledTick seen
      (phase p b .on 1 p.timeOn50ms.toUInt16 (p.patternCounter + UInt8.ofNat q))
      (seenPeriod p b (p.patternCounter + UInt8.ofNat q))
      (phase p b .on 1 p.timeOn50ms.toUInt16 (p.patternCounter + UInt8.ofNat (q + 1))) := by
    intro q
    have hcounter : p.patternCounter + UInt8.ofNat (q + 1) =
        p.patternCounter + UInt8.ofNat q + 1 := by
      rw [UInt8.ofNat_add, ← UInt8.add_assoc]
      rfl
    rw [hcounter]
    exact plays_period h b _
  have hsample := Plays.sample_periods hperiods hlen hpos t
  have hwaiting := (plays_waiting h hfresh b).iterate
  rw [List.length_replicate] at hwaiting
  have hzero : p.patternCounter + UInt8.ofNat 0 = p.patternCounter := UInt8.add_zero _
  rw [hsample, hzero, ← hwaiting, ← Function.iterate_add_apply, Nat.add_comm t]

end Runs

/-- What is set with a time and a number of repeats that are not 0 blinks. -/
theorem blinks_setToBlink (p : LedBlinkPattern) (ledID : Nat) {timeOn timeOff timePause : UInt8}
    {repeats : UInt8} (hon : 1 ≤ timeOn) (hrepeats : 1 ≤ repeats) :
    Blinks (p.setToBlink ledID timeOn timeOff timePause repeats) := by
  refine ⟨rfl, fun hzero => ?_, fun hzero => ?_⟩
  · rw [show timeOn = 0 from hzero] at hon
    exact absurd hon (by decide)
  · rw [show repeats = 0 from hzero] at hrepeats
    exact absurd hrepeats (by decide)

/-- After `ledPatternSetToBlink` nothing changes until the first action, which
comes when the timer that was running has ended.  From then on the LED and the
counter of patterns go through one period after the other. -/
theorem blink_waveform (s : Leds) {ledID : Nat} (priority : Nat)
    {timeOn timeOff timePause repeats : UInt8} (hledID : ledID < lidLedCount) (hon : 1 ≤ timeOn)
    (hrepeats : 1 ≤ repeats) :
    let set := ledPatternSetToBlink ledID priority timeOn timeOff timePause repeats s
    let start := (set.pattern ledID priority, set.board)
    let first := max 1 start.1.nextActionTime.toNat
    let len := blinkLength timeOn.toNat timeOff.toNat timePause.toNat repeats.toNat
    (∀ k < first, seen (ledTick^[k] start) = (s.board, start.1.patternCounter)) ∧
    ∀ t,
      let counter := start.1.patternCounter + UInt8.ofNat (t / len)
      (blinkPeriod (boardSetLED ledID .on s.board, counter)
          (boardSetLED ledID .off s.board, counter) (boardSetLED ledID .off s.board, counter + 1)
          timeOn.toNat timeOff.toNat timePause.toNat repeats.toNat)[t % len]? =
        some (seen (ledTick^[first + t] start)) := by
  intro set start first len
  have hset : set =
      s.modify ledID priority (.setToBlink ledID timeOn timeOff timePause repeats) :=
    if_pos hledID
  have hstart : start = ((s.pattern ledID priority).setToBlink ledID timeOn timeOff timePause
      repeats, s.board) := by
    rw [Prod.mk.injEq, hset, Leds.pattern_modify, Leds.board_modify]
    exact ⟨rfl, rfl⟩
  have hblinks : Blinks start.1 := by
    rw [hstart]
    exact blinks_setToBlink _ ledID hon hrepeats
  have hfresh : start.1.actionCounter = 0 := by rw [hstart]; rfl
  have hboard : start.2 = s.board := by rw [hstart]
  constructor
  · intro k hk
    have hsample := (plays_waiting hblinks hfresh start.2).sample
      (Nat.lt_of_lt_of_eq hk (List.length_replicate).symm)
    rw [List.getElem?_replicate, if_pos hk] at hsample
    rw [← hboard]
    exact (Option.some.inj hsample).symm
  · intro t counter
    have hafter := seen_after hblinks hfresh start.2 t
    have hid : start.1.ledID = ledID := by rw [hstart]; rfl
    have htimeOn : start.1.timeOn50ms = timeOn := by rw [hstart]; rfl
    have htimeOff : start.1.timeOff50ms = timeOff := by rw [hstart]; rfl
    have hrepeat : start.1.repeats = repeats := by rw [hstart]; rfl
    have hpause : start.1.timePause50ms.toNat = timePause.toNat := by
      rw [hstart]
      exact UInt8.toNat_toUInt16 timePause
    have hperiod : seenPeriod start.1 start.2 counter =
        blinkPeriod (boardSetLED ledID .on s.board, counter)
          (boardSetLED ledID .off s.board, counter) (boardSetLED ledID .off s.board, counter + 1)
          timeOn.toNat timeOff.toNat timePause.toNat repeats.toNat := by
      rw [seenPeriod, hid, htimeOn, htimeOff, hrepeat, hpause, hboard]
    simp only [htimeOn, htimeOff, hrepeat, hpause] at hafter
    rw [← hperiod]
    exact hafter

/-- The table at start, with all LEDs off. -/
def darkLeds : Leds := (ledPowerOn (fun _ => zeroPattern) ⟨fun _ => .off, .off, .off⟩).leds

/-- Two flashes of two ticks, with pauses of one and three ticks: the red LED is lit with
the first tick, and at the 10th, when the period has begun again. -/
theorem blink_waveform_red :
    let set := ledPatternSetToBlink lidRed lppPriority1 2 1 3 2 darkLeds
    let start := (set.pattern lidRed lppPriority1, set.board)
    blinkLength 2 1 3 2 = 8 ∧
      seen (ledTick^[1 + 0] start) = (boardSetLED lidRed .on darkLeds.board, 0) ∧
      seen (ledTick^[1 + 2] start) = (boardSetLED lidRed .off darkLeds.board, 0) ∧
      seen (ledTick^[1 + 9] start) = (boardSetLED lidRed .on darkLeds.board, 1) := by
  intro set start
  have hshown := (@blink_waveform darkLeds lidRed lppPriority1 2 1 3 2 (by decide) (by decide)
    (by decide)).2
  refine ⟨rfl, ?_, ?_, ?_⟩
  · exact (Option.some.inj (hshown 0)).symm
  · exact (Option.some.inj (hshown 2)).symm
  · exact (Option.some.inj (hshown 9)).symm

end WindradLogger.Led
