import WindradLogger.Led.Pattern
import Mathlib.Data.Int.Notation

set_option autoImplicit false

/-!
# The table of patterns and the LED task (`task_led.c`)

There is a pattern for each priority and LED.  Other code sets patterns, and the
LED task shows for each LED the pattern of the highest priority that is active.
The functions that set a pattern check the LED but not the priority.

The table is seen as part of the memory around it: patterns are found at the
address that indexing computes, whether there is one or not.  Every access is
recorded.  The task runs in steps between which other code can run.
-/

namespace WindradLogger.Led

/-! ## The table -/

/-- `lpp_priority_1` -/
def lppPriority1 : Nat := 2
/-- `lpp_priority_COUNT` -/
def lppPriorityCount : Nat := 3

/-- The indices with which `ledPatterns` is accessed. -/
abbrev Cell : Type := Int × Int

/-- `[priority - 1][ledID - 1]` -/
def cellOf (ledID priority : Nat) : Cell := (priority - 1, ledID - 1)

/-- The indices are those of the declaration of `ledPatterns`. -/
def InTable (cell : Cell) : Prop :=
  (0 ≤ cell.1 ∧ cell.1 < lppPriorityCount - 1) ∧ (0 ≤ cell.2 ∧ cell.2 < lidLedCount - 1)

instance : DecidablePred InTable := fun cell =>
  inferInstanceAs (Decidable ((0 ≤ cell.1 ∧ _) ∧ _))

/-- Where a pattern lies behind the start of `ledPatterns`, in patterns. -/
def addressOf (cell : Cell) : Int := cell.1 * (lidLedCount - 1) + cell.2

/-- `ledPatterns` and the memory around it, the LEDs, and the accesses so far. -/
structure Leds where
  memory : Int → LedBlinkPattern
  board : Board
  accesses : List Cell

/-- `ledPatterns[priority - 1][ledID - 1]` -/
def Leds.pattern (s : Leds) (ledID priority : Nat) : LedBlinkPattern :=
  s.memory (addressOf (cellOf ledID priority))

/-- An access that only reads. -/
def Leds.access (s : Leds) (ledID priority : Nat) : Leds :=
  { s with accesses := s.accesses ++ [cellOf ledID priority] }

/-- An access that changes the pattern. -/
def Leds.modify (s : Leds) (ledID priority : Nat) (change : LedBlinkPattern → LedBlinkPattern) :
    Leds :=
  { s with
    memory := Function.update s.memory (addressOf (cellOf ledID priority))
      (change (s.pattern ledID priority))
    accesses := s.accesses ++ [cellOf ledID priority] }

@[simp] theorem Leds.pattern_modify (s : Leds) (ledID priority : Nat)
    (change : LedBlinkPattern → LedBlinkPattern) :
    (s.modify ledID priority change).pattern ledID priority = change (s.pattern ledID priority) :=
  Function.update_self _ _ _

@[simp] theorem Leds.board_modify (s : Leds) (ledID priority : Nat)
    (change : LedBlinkPattern → LedBlinkPattern) :
    (s.modify ledID priority change).board = s.board := rfl

/-! ## Setting patterns -/

/-- What `ledPatternSetToFade` writes to a pattern. -/
def LedBlinkPattern.setToFade (ledID : Nat) (p : LedBlinkPattern) : LedBlinkPattern :=
  { p with
    active := true
    patternStyle := ledBlinkPatternStyleFade
    ledID := ledID
    actionCounter := 0 }

/-- `ledPatternSetToFade` -/
def ledPatternSetToFade (ledID priority : Nat) (s : Leds) : Leds :=
  if ledID < lidLedCount then s.modify ledID priority (.setToFade ledID) else s

/-- What `ledPatternSetToMorse` writes to a pattern. -/
def LedBlinkPattern.setToMorse (ledID : Nat) (morsePattern morsePatternLength : UInt8)
    (p : LedBlinkPattern) : LedBlinkPattern :=
  { p with
    ledID := ledID
    active := true
    patternStyle := morsePatternLength
    morsePattern := morsePattern
    timeOff50ms := 2
    timeOn50ms := 2
    timePause50ms := 50
    actionCounter := 0 }

/-- `ledPatternSetToMorse` -/
def ledPatternSetToMorse (ledID priority : Nat) (morsePattern morsePatternLength : UInt8)
    (s : Leds) : Leds :=
  if ledID < lidLedCount ∧ 9 > morsePatternLength ∧ morsePatternLength > 0 then
    s.modify ledID priority (.setToMorse ledID morsePattern morsePatternLength)
  else s

/-- What `ledPatternSetToBlink` writes to a pattern. -/
def LedBlinkPattern.setToBlink (ledID : Nat) (timeOn timeOff timePause repeats : UInt8)
    (p : LedBlinkPattern) : LedBlinkPattern :=
  { p with
    ledID := ledID
    active := true
    patternStyle := ledBlinkPatternStyleBlink
    timeOff50ms := timeOff
    timeOn50ms := timeOn
    timePause50ms := timePause.toUInt16
    repeats := repeats
    actionCounter := 0 }

/-- `ledPatternSetToBlink` -/
def ledPatternSetToBlink (ledID priority : Nat) (timeOn timeOff timePause repeats : UInt8)
    (s : Leds) : Leds :=
  if ledID < lidLedCount then
    s.modify ledID priority (.setToBlink ledID timeOn timeOff timePause repeats)
  else s

/-- What `ledPatternSetToOff` and `ledPatternDeactivate` have in common: the
pattern is cleared and the LED switched off. -/
def clearPattern (active : Bool) (ledID priority : Nat) (s : Leds) : Leds :=
  if ledID < lidLedCount then
    let s := s.modify ledID priority fun _ =>
      { zeroPattern with
        active := active
        patternStyle := ledBlinkPatternStyleBlink
        ledID := ledID }
    { s with board := boardSetLED ledID .off s.board }
  else s

/-- `ledPatternSetToOff` -/
def ledPatternSetToOff (ledID priority : Nat) (s : Leds) : Leds :=
  clearPattern true ledID priority s

/-- `ledPatternDeactivate` -/
def ledPatternDeactivate (ledID priority : Nat) (s : Leds) : Leds :=
  clearPattern false ledID priority s

/-- A call of one of these functions. -/
inductive PatternCall where
  | setToFade (ledID priority : Nat)
  | setToMorse (ledID priority : Nat) (morsePattern morsePatternLength : UInt8)
  | setToBlink (ledID priority : Nat) (timeOn timeOff timePause repeats : UInt8)
  | setToOff (ledID priority : Nat)
  | deactivate (ledID priority : Nat)
  deriving DecidableEq

namespace PatternCall

def ledID : PatternCall → Nat
  | setToFade ledID _ | setToMorse ledID _ _ _ | setToBlink ledID _ _ _ _ _
  | setToOff ledID _ | deactivate ledID _ => ledID

def priority : PatternCall → Nat
  | setToFade _ priority | setToMorse _ priority _ _ | setToBlink _ priority _ _ _ _
  | setToOff _ priority | deactivate _ priority => priority

/-- The pattern that the call is about. -/
def cell (call : PatternCall) : Cell := cellOf call.ledID call.priority

def apply : PatternCall → Leds → Leds
  | setToFade ledID priority => ledPatternSetToFade ledID priority
  | setToMorse ledID priority morsePattern morsePatternLength =>
      ledPatternSetToMorse ledID priority morsePattern morsePatternLength
  | setToBlink ledID priority timeOn timeOff timePause repeats =>
      ledPatternSetToBlink ledID priority timeOn timeOff timePause repeats
  | setToOff ledID priority => ledPatternSetToOff ledID priority
  | deactivate ledID priority => ledPatternDeactivate ledID priority

end PatternCall

/-! ## Looking for a pattern -/

/-- The loop of `getMaxPatternPriority` over the remaining priorities. -/
def firstActive (ledID : Nat) : List Nat → Leds → Nat × Leds
  | [], s => (lppPriority1, s)
  | prio :: rest, s =>
      let s' := s.access ledID prio
      if (s.pattern ledID prio).active then (prio, s') else firstActive ledID rest s'

/-- `getMaxPatternPriority` -/
def getMaxPatternPriority (ledID : Nat) (s : Leds) : Nat × Leds :=
  firstActive ledID (List.range' 1 (lppPriorityCount - 1)) s

/-- `ledTick(&ledPatterns[maxPrio - 1][i - 1])` -/
def tickPattern (ledID maxPrio : Nat) (s : Leds) : Leds :=
  let (p, board) := ledTick (s.pattern ledID maxPrio, s.board)
  { s.modify ledID maxPrio fun _ => p with board := board }

/-! ## The task -/

/-- When a pass over the LEDs calls `ledTick`: for a pattern that fades, for one
that does not, or for any. -/
inductive TickWhen where
  | fade | notFade | always
  deriving DecidableEq

/-- A step of the LED task. -/
inductive TaskStep where
  /-- a call of the initialisation -/
  | call (call : PatternCall)
  /-- `maxPrio = getMaxPatternPriority(i)` -/
  | find (ledID : Nat)
  /-- the look at the style that decides about `containsFadePatterns` -/
  | look (ledID : Nat)
  /-- the decision on `containsFadePatterns` -/
  | choose
  /-- the call of `ledTick` -/
  | tick (tickWhen : TickWhen) (ledID : Nat)
  deriving DecidableEq

/-- `for (int i = 1; i < lid_LEDCOUNT; i++)` -/
def ledIndices : List Nat := List.range' 1 (lidLedCount - 1)

/-- `for (int prio = 1; prio < lpp_priority_COUNT; prio++)` -/
def priorities : List Nat := List.range' 1 (lppPriorityCount - 1)

/-- The initialisation of `taskLED`. -/
def initCalls : List PatternCall :=
  (priorities.flatMap fun prio => ledIndices.flatMap fun ledindex =>
      [.setToOff prio ledindex, .deactivate prio ledindex]) ++
    [.setToBlink lidRed lppPriority1 10 10 10 10]

/-- The first part of a round of `taskLEDPatternLoop`. -/
def lookSteps : List TaskStep :=
  (ledIndices.flatMap fun i => [.find i, .look i]) ++ [.choose]

/-- A pass over the LEDs. -/
def tickSteps (tickWhen : TickWhen) : List TaskStep :=
  ledIndices.flatMap fun i => [.find i, .tick tickWhen i]

/-- The second part of a round. -/
def roundSteps (containsFadePatterns : Bool) : List TaskStep :=
  if containsFadePatterns then
    (List.replicate 50 (tickSteps .fade)).flatten ++ tickSteps .notFade
  else tickSteps .always

/-- The task, its local variables, and what it has to do next. -/
structure LedTask where
  leds : Leds
  maxPrio : Nat
  containsFadePatterns : Bool
  pending : List TaskStep

/-- `patternStyle == LED_BLINK_PATTERNSTYLE_FADE`, with the access. -/
def LedTask.fades (s : LedTask) (ledID : Nat) : Bool × Leds :=
  ((s.leds.pattern ledID s.maxPrio).patternStyle = ledBlinkPatternStyleFade,
    s.leds.access ledID s.maxPrio)

/-- What a step of the task does. -/
def perform (s : LedTask) : TaskStep → LedTask
  | .call call => { s with leds := call.apply s.leds }
  | .find ledID =>
      let (maxPrio, leds) := getMaxPatternPriority ledID s.leds
      { s with maxPrio := maxPrio, leds := leds }
  | .look ledID =>
      let (fades, leds) := s.fades ledID
      { s with containsFadePatterns := s.containsFadePatterns || fades, leds := leds }
  | .choose => { s with pending := roundSteps s.containsFadePatterns }
  | .tick .always ledID => { s with leds := tickPattern ledID s.maxPrio s.leds }
  | .tick .fade ledID =>
      let (fades, leds) := s.fades ledID
      { s with leds := if fades then tickPattern ledID s.maxPrio leds else leds }
  | .tick .notFade ledID =>
      let (fades, leds) := s.fades ledID
      { s with leds := if fades then leds else tickPattern ledID s.maxPrio leds }

/-- The next step of the task; a round follows upon the other. -/
def taskStep (s : LedTask) : LedTask :=
  match s.pending with
  | [] => { s with containsFadePatterns := false, pending := lookSteps }
  | next :: rest => perform { s with pending := rest } next

/-- A call by other code, with an LED and a priority that exist. -/
structure OtherCall where
  call : PatternCall
  ledID : 1 ≤ call.ledID ∧ call.ledID < lidLedCount
  priority : 1 ≤ call.priority ∧ call.priority < lppPriorityCount

/-- The task goes on, or other code makes a call. -/
inductive LedEvent where
  | task
  | other (call : OtherCall)

def ledStep (s : LedTask) : LedEvent → LedTask
  | .task => taskStep s
  | .other other => { s with leds := other.call.apply s.leds }

/-- The table is static, hence zero, and the task is at its first call. -/
def ledPowerOn (behind : Int → LedBlinkPattern) (board : Board) : LedTask :=
  { leds :=
      { memory := fun address =>
          if 0 ≤ address ∧ address < (lppPriorityCount - 1) * (lidLedCount - 1) then zeroPattern
          else behind address
        board := board
        accesses := [] }
    maxPrio := lppPriority1
    containsFadePatterns := false
    pending := initCalls.map .call }

end WindradLogger.Led
