import Mathlib.Logic.Function.Basic

set_option autoImplicit false

/-!
# Patterns of the LEDs (`task_led.c`, `board.c`)

A pattern says how an LED blinks.  `ledTick` is called for it at regular intervals;
it counts a timer down and acts when the timer is at zero.  What an action does
depends on the style of the pattern: a burst of flashes, a morse code, or a fade.
-/

namespace WindradLogger.Led

/-! ## The LEDs -/

/-- `lid_red` -/
def lidRed : Nat := 1
/-- `lid_yellow` -/
def lidYellow : Nat := 3
/-- `lid_LEDCOUNT` -/
def lidLedCount : Nat := 4

/-- `led_state_t` -/
inductive LedState where
  | off | on
  deriving DecidableEq, Repr

/-- The LEDs as the board has them. -/
structure Board where
  /-- what `boardSetLED` was last given for each LED -/
  given : Nat → LedState
  /-- the pin of the red LED -/
  redPin : LedState
  /-- the pin of the yellow LED -/
  yellowPin : LedState

/-- `boardSetLED`; the lines for the green LED are not compiled. -/
def boardSetLED (ledID : Nat) (ledState : LedState) (b : Board) : Board :=
  { given := Function.update b.given ledID ledState
    redPin := if ledID = lidRed then ledState else b.redPin
    yellowPin := if ledID = lidYellow then ledState else b.yellowPin }

@[simp] theorem boardSetLED_given (ledID : Nat) (ledState : LedState) (b : Board) :
    (boardSetLED ledID ledState b).given ledID = ledState := Function.update_self _ _ _

/-- The last state given to an LED counts. -/
@[simp] theorem boardSetLED_boardSetLED (ledID : Nat) (ledState ledState' : LedState)
    (b : Board) :
    boardSetLED ledID ledState (boardSetLED ledID ledState' b) = boardSetLED ledID ledState b := by
  simp only [boardSetLED, Function.update_idem]
  congr 1
  · split <;> rfl
  · split <;> rfl

/-! ## Patterns -/

/-- `LED_BLINK_PATTERNSTYLE_BLINK` -/
def ledBlinkPatternStyleBlink : UInt8 := 0
/-- `LED_BLINK_PATTERNSTYLE_FADE` -/
def ledBlinkPatternStyleFade : UInt8 := 9

/-- `ledBlinkPattern_t` -/
structure LedBlinkPattern where
  active : Bool
  ledID : Nat
  patternStyle : UInt8
  morsePattern : UInt8
  timeOn50ms : UInt8
  timeOff50ms : UInt8
  timePause50ms : UInt16
  /-- `repeat` -/
  repeats : UInt8
  actionCounter : UInt16
  nextActionTime : UInt16
  patternCounter : UInt8
  deriving DecidableEq, Repr

/-- A pattern of zeros. -/
def zeroPattern : LedBlinkPattern :=
  { active := false
    ledID := 0
    patternStyle := 0
    morsePattern := 0
    timeOn50ms := 0
    timeOff50ms := 0
    timePause50ms := 0
    repeats := 0
    actionCounter := 0
    nextActionTime := 0
    patternCounter := 0 }

/-! ## Actions -/

/-- The action of a morse code, for `patternStyle` 1 to 8. -/
def morseAction (p : LedBlinkPattern) (b : Board) : LedBlinkPattern × Board :=
  let bitIndex := p.actionCounter.toNat / 2
  let actionCounter := p.actionCounter + 1
  let (action, actionCounter) : Nat × UInt16 :=
    if bitIndex < 3 then (1, actionCounter)
    else
      let bitIndex := bitIndex - 3
      let action := if p.morsePattern.toNat.testBit bitIndex then 0 else 1
      if bitIndex ≥ p.patternStyle.toNat then (3, 0) else (action, actionCounter)
  let action := if actionCounter &&& 1 = 0 ∧ action ≠ 3 then 2 else action
  let p := { p with actionCounter := actionCounter }
  match action with
  | 0 => ({ p with nextActionTime := p.timeOn50ms.toUInt16 }, boardSetLED p.ledID .on b)
  | 1 => ({ p with nextActionTime := p.timeOn50ms.toUInt16 * 16 }, boardSetLED p.ledID .on b)
  | 2 => ({ p with nextActionTime := p.timeOff50ms.toUInt16 }, boardSetLED p.ledID .off b)
  | _ =>
      ({ p with nextActionTime := p.timePause50ms, patternCounter := p.patternCounter + 1 },
        boardSetLED p.ledID .off b)

/-- The action of a blinking LED. -/
def blinkAction (p : LedBlinkPattern) (b : Board) : LedBlinkPattern × Board :=
  let actionCounter := p.actionCounter + 1
  let action : Nat :=
    if actionCounter &&& 1 = 0 then 1
    else if p.timeOn50ms = 0 then 1 else 2
  let (action, actionCounter) : Nat × UInt16 :=
    if actionCounter.toNat = p.repeats.toNat * 2 then (0, 0) else (action, actionCounter)
  let action := if p.repeats = 0 then 1 else action
  let p := { p with actionCounter := actionCounter }
  match action with
  | 0 =>
      ({ p with nextActionTime := p.timePause50ms, patternCounter := p.patternCounter + 1 },
        boardSetLED p.ledID .off b)
  | 1 => ({ p with nextActionTime := p.timeOff50ms.toUInt16 }, boardSetLED p.ledID .off b)
  | _ => ({ p with nextActionTime := p.timeOn50ms.toUInt16 }, boardSetLED p.ledID .on b)

/-- The action of a fading LED. -/
def fadeAction (p : LedBlinkPattern) (b : Board) : LedBlinkPattern × Board :=
  let (actionCounter, patternCounter) : UInt16 × UInt8 :=
    if p.actionCounter &&& 0x8000 = 0 then
      let actionCounter := p.actionCounter + 0x10
      if actionCounter &&& 0x7F00 > 0x0F00 then (actionCounter ||| 0x8000, p.patternCounter + 1)
      else (actionCounter, p.patternCounter)
    else
      let actionCounter := (p.actionCounter - 0x10) ||| 0x8000
      if actionCounter &&& 0x7F00 = 0 then (actionCounter &&& 0x7FFF, p.patternCounter)
      else (actionCounter, p.patternCounter)
  let action := ((actionCounter &&& 0x03) + 1) &&& 0x03
  let actionCounter := (actionCounter &&& 0xFFFC) ||| action
  let nextActionTime : UInt16 := 1 <<< action
  let ledValue := (actionCounter >>> 8) &&& 0xFF
  ({ p with
      actionCounter := actionCounter
      nextActionTime := nextActionTime
      patternCounter := patternCounter },
    boardSetLED p.ledID (if ledValue &&& nextActionTime ≠ 0 then .on else .off) b)

/-- What a pattern does when its timer is at zero. -/
def action (p : LedBlinkPattern) (b : Board) : LedBlinkPattern × Board :=
  if 1 ≤ p.patternStyle ∧ p.patternStyle ≤ 8 then morseAction p b
  else if p.patternStyle = ledBlinkPatternStyleBlink then blinkAction p b
  else if p.patternStyle = ledBlinkPatternStyleFade then fadeAction p b
  else (p, b)

/-- `ledTick` -/
def ledTick (s : LedBlinkPattern × Board) : LedBlinkPattern × Board :=
  let (p, b) := s
  let p := if p.nextActionTime ≠ 0 then { p with nextActionTime := p.nextActionTime - 1 } else p
  if p.nextActionTime = 0 then action p b else (p, b)

end WindradLogger.Led
