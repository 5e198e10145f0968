import Mathlib.Logic.Function.Basic

set_option autoImplicit false

/-!
# The pins of the board (`board.h`, `board.c`)

The data lines of the display are set together through the register `BSRR` of their
port: a write sets the pins of its lower half, resets those of its upper half and
leaves all others alone.  Every other output pin is set by `HAL_GPIO_WritePin`, which is
a parameter here; all that is used of it is that it sets the pin it is given and no other.
-/

namespace WindradLogger.Pins

/-- A GPIO port -/
inductive Port where
  | a | b | c | d | e
  deriving DecidableEq, Repr

/-- The output pins that the program sets. -/
inductive Pin where
  | dispD4 | dispD5 | dispD6 | dispD7 | dispRs | dispE
  | gpio0 | gpio1 | gpio2 | gpio3 | gpio4 | ws2812
  | ledRed | ledGreen | ledYellow
  | ledComTopYellow | ledComTopGreen | ledComBotYellow | ledComBotGreen
  | shutdown | raspIrq
  deriving DecidableEq, Repr

namespace Pin

/-- The port of a pin. -/
def port : Pin → Port
  | dispD4 | dispD5 | dispD6 | dispD7 => .d
  | dispRs | dispE => .e
  | gpio0 | gpio1 | gpio2 | ws2812 => .d
  | gpio3 => .a
  | gpio4 => .e
  | ledRed | ledGreen | ledYellow => .e
  | ledComTopYellow => .c
  | ledComBotYellow => .d
  | ledComTopGreen | ledComBotGreen => .a
  | shutdown => .e
  | raspIrq => .b

/-- The number of a pin at its port. -/
def number : Pin → Nat
  | dispD4 => 0
  | dispD5 => 1
  | dispD6 => 2
  | dispD7 => 3
  | dispRs => 14
  | dispE => 15
  | gpio0 => 10
  | gpio1 => 11
  | gpio2 => 13
  | gpio3 => 5
  | gpio4 => 4
  | ws2812 => 12
  | ledRed => 13
  | ledGreen => 12
  | ledYellow => 11
  | ledComTopYellow => 13
  | ledComTopGreen => 8
  | ledComBotYellow => 14
  | ledComBotGreen => 6
  | shutdown => 10
  | raspIrq => 0

theorem number_lt (pin : Pin) : pin.number < 16 := by
  cases pin <;> decide

/-- The pin with a number at a port. -/
def at? : Port → Nat → Option Pin
  | .a, 5 => some gpio3
  | .a, 6 => some ledComBotGreen
  | .a, 8 => some ledComTopGreen
  | .b, 0 => some raspIrq
  | .c, 13 => some ledComTopYellow
  | .d, 0 => some dispD4
  | .d, 1 => some dispD5
  | .d, 2 => some dispD6
  | .d, 3 => some dispD7
  | .d, 10 => some gpio0
  | .d, 11 => some gpio1
  | .d, 12 => some ws2812
  | .d, 13 => some gpio2
  | .d, 14 => some ledComBotYellow
  | .e, 4 => some gpio4
  | .e, 10 => some shutdown
  | .e, 11 => some ledYellow
  | .e, 12 => some ledGreen
  | .e, 13 => some ledRed
  | .e, 14 => some dispRs
  | .e, 15 => some dispE
  | _, _ => none

theorem at?_place (pin : Pin) : at? pin.port pin.number = some pin := by
  cases pin <;> rfl

/-- No two of them are the same pin of a port. -/
theorem eq_of_place {pin pin' : Pin} (hport : pin.port = pin'.port)
    (hnumber : pin.number = pin'.number) : pin = pin' := by
  have hplace := at?_place pin
  rw [hport, hnumber, at?_place] at hplace
  exact (Option.some.inj hplace).symm

end Pin

/-! ## Registers -/

/-- The output registers `ODR` of the ports. -/
abbrev Outputs : Type := Port → BitVec 16

/-- Whether a pin is high. -/
def Outputs.level (outputs : Outputs) (pin : Pin) : Bool :=
  (outputs pin.port).getLsbD pin.number

/-- A write of `BSRR`. -/
structure PinWrite where
  port : Port
  bsrr : BitVec 32
  deriving DecidableEq

/-- What a write of `BSRR` does; a pin that it sets and resets is set. -/
def PinWrite.apply (write : PinWrite) (outputs : Outputs) : Outputs :=
  Function.update outputs write.port
    ((outputs write.port &&& ~~~(write.bsrr.extractLsb' 16 16)) ||| write.bsrr.extractLsb' 0 16)

/-- A pin after a write. -/
theorem level_apply (write : PinWrite) (outputs : Outputs) (pin : Pin) :
    (write.apply outputs).level pin =
      if pin.port = write.port then
        (outputs.level pin && !write.bsrr.getLsbD (16 + pin.number)) ||
          write.bsrr.getLsbD pin.number
      else outputs.level pin := by
  have hnumber := pin.number_lt
  unfold Outputs.level PinWrite.apply
  split
  · rename_i hport
    rw [hport, Function.update_self]
    simp [hnumber]
  · rename_i hport
    rw [Function.update_of_ne hport]

/-- `boardDisplayWriteData` -/
def boardDisplayWriteData (data : BitVec 8) : PinWrite :=
  let data := data &&& 0x0F#8
  let sets := data.setWidth 32
  let clears := ~~~(data.setWidth 32)
  let sets := sets &&& 0x0F#32
  let clears := clears &&& 0x0F#32
  { port := .d, bsrr := (clears <<< 16) ||| sets }

/-- The data lines follow the lower half of the byte, and no other pin is set. -/
theorem level_boardDisplayWriteData (data : BitVec 8) (outputs : Outputs) (pin : Pin) :
    ((boardDisplayWriteData data).apply outputs).level pin =
      match pin with
      | .dispD4 => data.getLsbD 0
      | .dispD5 => data.getLsbD 1
      | .dispD6 => data.getLsbD 2
      | .dispD7 => data.getLsbD 3
      | other => outputs.level other := by
  rw [level_apply]
  cases pin <;> simp [boardDisplayWriteData, Pin.port, Pin.number]

/-! ## The HAL -/

/-- What is documented of `HAL_GPIO_WritePin`: the pin gets the state that is passed, and
no other pin of the port is touched. -/
def SetsOwnPin (halGpioWritePin : Pin → Bool → Outputs → Outputs) : Prop :=
  ∀ pin state outputs other,
    (halGpioWritePin pin state outputs).level other =
      if other = pin then state else outputs.level other

theorem SetsOwnPin.level {halGpioWritePin : Pin → Bool → Outputs → Outputs}
    (h : SetsOwnPin halGpioWritePin) (pin : Pin) (state : Bool) (outputs : Outputs) (other : Pin) :
    (halGpioWritePin pin state outputs).level other =
      if other = pin then state else outputs.level other := h pin state outputs other

/-- A HAL that sets or resets the pin with one write of `BSRR`. -/
def bsrrWritePin (pin : Pin) (state : Bool) : Outputs → Outputs :=
  PinWrite.apply
    { port := pin.port
      bsrr := if state then BitVec.twoPow 32 pin.number else BitVec.twoPow 32 (16 + pin.number) }

/-- The bits of a word with one bit. -/
theorem bit_twoPow {i : Nat} (hi : i < 32) (k : Nat) :
    (BitVec.twoPow 32 k).getLsbD i = decide (k = i) := by
  rw [BitVec.getLsbD_twoPow]
  rcases eq_or_ne k i with rfl | hne
  · rw [decide_eq_true hi, Bool.true_and]
  · rw [decide_eq_false hne, Bool.and_false]

theorem setsOwnPin_bsrrWritePin : SetsOwnPin bsrrWritePin := by
  intro pin state outputs other
  have hnumber := pin.number_lt
  have hother := other.number_lt
  rw [bsrrWritePin, level_apply]
  rcases eq_or_ne other.port pin.port with hport | hport
  · have hlow := bit_twoPow (Nat.lt_trans hother (by omega : 16 < 32))
    have hhigh := bit_twoPow (Nat.add_lt_add_left hother 16)
    rw [if_pos hport]
    rcases eq_or_ne other pin with rfl | hne
    · cases state with
      | true => rw [if_pos rfl, if_pos rfl, hlow, decide_eq_true rfl, Bool.or_true]
      | false =>
          rw [if_neg Bool.false_ne_true, if_pos rfl, hlow, hhigh, decide_eq_true rfl,
            decide_eq_false (by omega)]
          simp
    · have hnumbers : pin.number ≠ other.number := fun h => hne (Pin.eq_of_place hport h.symm)
      rw [if_neg hne]
      cases state with
      | true =>
          rw [if_pos rfl, hlow, hhigh, decide_eq_false hnumbers, decide_eq_false (by omega)]
          simp
      | false =>
          rw [if_neg Bool.false_ne_true, hlow, hhigh, decide_eq_false (by omega),
            decide_eq_false (by omega)]
          simp
  · have hne : other ≠ pin := fun h => hport (congrArg Pin.port h)
    rw [if_neg hport, if_neg hne]

/-! ## The pins of the other tasks -/

/-- A pin that is not one of the display. -/
def Pin.OfOthers (pin : Pin) : Prop :=
  pin ≠ .dispD4 ∧ pin ≠ .dispD5 ∧ pin ≠ .dispD6 ∧ pin ≠ .dispD7 ∧ pin ≠ .dispRs ∧ pin ≠ .dispE

instance (pin : Pin) : Decidable pin.OfOthers := inferInstanceAs (Decidable (_ ∧ _))

/-- A call of `HAL_GPIO_WritePin` by another task or an interrupt. -/
structure OtherWrite where
  pin : Pin
  state : Bool
  ofOthers : pin.OfOthers

/-- The pin of an index, in the `switch` of `gpio_set_state`. -/
def gpioPin (gpioIndex : BitVec 8) : Option Pin :=
  match gpioIndex.toNat with
  | 0 => some .gpio0
  | 1 => some .gpio1
  | 2 => some .gpio2
  | 3 => some .gpio3
  | 4 => some .gpio4
  | 5 => some .ws2812
  | _ => none

theorem ofOthers_gpioPin {gpioIndex : BitVec 8} {pin : Pin} (h : gpioPin gpioIndex = some pin) :
    pin.OfOthers := by
  unfold gpioPin at h
  split at h <;> cases h <;> decide

/-- No two indices set the same pin. -/
theorem gpioPin_inj {i j : BitVec 8} {pin : Pin} (hi : gpioPin i = some pin)
    (hj : gpioPin j = some pin) : i = j := by
  unfold gpioPin at hi hj
  refine BitVec.eq_of_toNat_eq ?_
  split at hi <;> cases hi <;> split at hj <;> first | contradiction | simp only [*]

/-- `gpio_set_state`; an index without a pin sets none. -/
def gpioSetState (gpioIndex state : BitVec 8) : Option OtherWrite :=
  match h : gpioPin gpioIndex with
  | some pin => some { pin := pin, state := state ≠ 0#8, ofOthers := ofOthers_gpioPin h }
  | none => none

theorem gpioSetState_none {gpioIndex : BitVec 8} (h : gpioPin gpioIndex = none)
    (state : BitVec 8) : gpioSetState gpioIndex state = none := by
  unfold gpioSetState
  split
  · rename_i hsome
    rw [h] at hsome
    contradiction
  · rfl

theorem gpioSetState_some {gpioIndex : BitVec 8} {pin : Pin} (h : gpioPin gpioIndex = some pin)
    (state : BitVec 8) : gpioSetState gpioIndex state =
      some { pin := pin, state := state ≠ 0#8, ofOthers := ofOthers_gpioPin h } := by
  unfold gpioSetState
  split
  · rename_i pin' hsome
    cases Option.some.inj (hsome.symm.trans h)
    rfl
  · rename_i hnone
    rw [h] at hnone
    contradiction

/-- What another task or an interrupt does: a call of `gpio_set_state` that the client
asked for, or a write to a pin that `gpio_set_state` does not set. -/
inductive Activity where
  | gpioSetState (gpioIndex state : BitVec 8)
  | other (write : OtherWrite) (notGpio : ∀ gpioIndex, gpioPin gpioIndex ≠ some write.pin)

/-- The write that an activity comes to. -/
def Activity.write? : Activity → Option OtherWrite
  | .gpioSetState gpioIndex state => Pins.gpioSetState gpioIndex state
  | .other write _ => some write

/-- The state of the last `gpio_set_state` for an index. -/
def lastState (gpioIndex : BitVec 8) (activities : List Activity) (level : Bool) : Bool :=
  activities.foldl (fun level activity =>
    match activity with
    | .gpioSetState i state => if i = gpioIndex then state ≠ 0#8 else level
    | .other _ _ => level) level

/-- The level of a pin after writes of other tasks. -/
def levelAfter (pin : Pin) (writes : List OtherWrite) (level : Bool) : Bool :=
  writes.foldl (fun level write => if write.pin = pin then write.state else level) level

theorem levelAfter_append (pin : Pin) (writes rest : List OtherWrite) (level : Bool) :
    levelAfter pin (writes ++ rest) level = levelAfter pin rest (levelAfter pin writes level) :=
  List.foldl_append

/-- The pin of an index is at the state that was set last for that index. -/
theorem levelAfter_activities {gpioIndex : BitVec 8} {pin : Pin}
    (hpin : gpioPin gpioIndex = some pin) (activities : List Activity) (level : Bool) :
    levelAfter pin (activities.filterMap Activity.write?) level =
      lastState gpioIndex activities level := by
  unfold levelAfter lastState
  induction activities generalizing level with
  | nil => rfl
  | cons activity rest ih =>
      cases activity with
      | other write notGpio =>
          have hne : write.pin ≠ pin := fun heq => notGpio gpioIndex (heq ▸ hpin)
          have hwritten : (Activity.other write notGpio).write? = some write := rfl
          rw [List.filterMap_cons_some hwritten, List.foldl_cons, List.foldl_cons, if_neg hne, ih]
      | gpioSetState i state =>
          rw [List.foldl_cons]
          rcases hi : gpioPin i with _ | other
          · have hne : i ≠ gpioIndex := fun heq => by
              rw [heq, hpin] at hi
              contradiction
            have hnone : (Activity.gpioSetState i state).write? = none := gpioSetState_none hi state
            rw [List.filterMap_cons_none hnone, ih]
            simp only [hne, if_false]
          · have hsome : (Activity.gpioSetState i state).write? = _ := gpioSetState_some hi state
            rw [List.filterMap_cons_some hsome, List.foldl_cons, ih]
            rcases eq_or_ne i gpioIndex with rfl | hne
            · have heq : other = pin := Option.some.inj (hi.symm.trans hpin)
              simp only [heq, if_true]
            · have hother' : other ≠ pin := fun heq => hne (gpioPin_inj hi (heq ▸ hpin))
              simp only [hne, hother', if_false]

end WindradLogger.Pins
