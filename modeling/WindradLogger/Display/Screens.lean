import WindradLogger.Adc.Record
import WindradLogger.Display.Texts

set_option autoImplicit false

/-!
# The screens (`task_display.c`, `rpc_func_freertos.c`)

The display shows one of five screens.  Each has a background and a function that
updates it; three of the update functions go on to another screen after a while,
which paints that screen and updates it in turn.  The remote side can replace the
screen by one of its own and return.

What the screens show of the rest of the device (readings, time, version) is a
parameter of every step.  The nesting of `display_set_screen` is bounded by a
parameter; running out of it is `none`, like a failed `assert`.
-/

namespace WindradLogger.Display

open WindradLogger.Adc

/-! ## Formatted output -/

/-- The bytes of a string literal. -/
def bytes (s : String) : List Byte := s.toList.map fun c => BitVec.ofNat 8 c.toNat

/-- `"%d"` -/
def decimal (value : Int) : List Byte := bytes (toString value)

/-- `lcd_printf_at` with the formatted text, of which `vsnprintf` leaves 63 bytes.
Its two assertions hold by the types of the position. -/
def lcdPrintfAt (col : Fin lcdCols) (row : Fin lcdRows) (text : List Byte) (lcd : Lcd) : Lcd :=
  lcdPuts (text.take 63) (lcdLocate col row lcd)

/-- `"%s"` for a pointer into a table: the bytes from there up to the first NUL, or
as many as there is room for. -/
def stringAt (memory : Nat → Byte) : (start room : Nat) → List Byte
  | _, 0 => []
  | start, room + 1 =>
      if memory start = 0#8 then [] else memory start :: stringAt memory (start + 1) room

/-! ## What is shown -/

/-- What the screens read from elsewhere. -/
structure Readings where
  voltagesAvg : VoltageIndex → Int16
  currentsAvg : CurrentIndex → Int16
  currentsEffective : CurrentIndex → BitVec 16
  power : BitVec 32
  supplySense : BitVec 16
  temperature : BitVec 16
  currExt : BitVec 16
  coinCell : BitVec 16
  /-- `strftime(buffer, 20, "%y/%m/%d/ %H:%M:%S", &printTm)` -/
  time : List Byte
  /-- `"%X"` of `GITHASH` -/
  gitHash : List Byte
  /-- `GITDATE` -/
  gitDate : List Byte
  /-- the string at an address below 256 -/
  stringAtAddress : Byte → List Byte

/-- A device on which everything reads zero. -/
def zeroReadings : Readings :=
  { voltagesAvg := fun _ => 0
    currentsAvg := fun _ => 0
    currentsEffective := fun _ => 0
    power := 0
    supplySense := 0
    temperature := 0
    currExt := 0
    coinCell := 0
    time := []
    gitHash := []
    gitDate := []
    stringAtAddress := fun _ => [] }

/-- A number in a field of five columns. -/
def lcdField (col : Fin lcdCols) (row : Fin lcdRows) (value : Int) (lcd : Lcd) : Lcd :=
  lcdPrintfAt col row (decimal value) (lcdPrintfAt col row (bytes "     ") lcd)

/-- `TABLE_3_COL_1` -/
def table3Col1 : Fin lcdCols := 5
/-- `TABLE_3_COL_2` -/
def table3Col2 : Fin lcdCols := 10
/-- `TABLE_3_COL_3` -/
def table3Col3 : Fin lcdCols := 15

/-- `display_screen_boot_background` -/
def displayScreenBootBackground (r : Readings) (lcd : Lcd) : Lcd :=
  let lcd := lcdPutc lcd formFeed
  let lcd := lcdPrintfAt table3Col1 0 (bytes "Enerlyzer") lcd
  let lcd := lcdPrintfAt 0 1 (bytes "git: " ++ r.gitHash) lcd
  let lcd := lcdPrintfAt 0 2 (bytes "gitdate: " ++ r.gitDate) lcd
  lcdPrintfAt 0 3 (bytes "kruegerarneak@gmail") lcd

/-- `display_screen_iu_background` -/
def displayScreenIuBackground (lcd : Lcd) : Lcd :=
  let lcd := lcdPutc lcd formFeed
  let lcd := lcdPrintfAt table3Col1 0 (bytes "Uavg") lcd
  let lcd := lcdPrintfAt table3Col2 0 (bytes "Iavg") lcd
  let lcd := lcdPrintfAt table3Col3 0 (bytes "Ieff") lcd
  let lcd := lcdPrintfAt 0 1 (bytes "L1") lcd
  let lcd := lcdPrintfAt 0 2 (bytes "L2") lcd
  lcdPrintfAt 0 3 (bytes "L3") lcd

/-- The fields of `display_screen_iu_update`. -/
def iuFields (r : Readings) (lcd : Lcd) : Lcd :=
  let lcd := lcdField table3Col1 1 (r.voltagesAvg .l21).toInt lcd
  let lcd := lcdField table3Col1 2 (r.voltagesAvg .l32).toInt lcd
  let lcd := lcdField table3Col1 3 (r.voltagesAvg .l13).toInt lcd
  let lcd := lcdField table3Col2 1 (r.currentsAvg .l1).toInt lcd
  let lcd := lcdField table3Col2 2 (r.currentsAvg .l2).toInt lcd
  let lcd := lcdField table3Col2 3 (r.currentsAvg .l3).toInt lcd
  let lcd := lcdField table3Col3 1 (r.currentsEffective .l1).toNat lcd
  let lcd := lcdField table3Col3 2 (r.currentsEffective .l2).toNat lcd
  lcdField table3Col3 3 (r.currentsEffective .l3).toNat lcd

/-- `display_screen_pbt_background` -/
def displayScreenPbtBackground (lcd : Lcd) : Lcd :=
  let lcd := lcdPutc lcd formFeed
  let lcd := lcdPrintfAt 0 0 (bytes "Time") lcd
  let lcd := lcdPrintfAt 0 1 (bytes "Pwr") lcd
  let lcd := lcdPrintfAt 0 2 (bytes "USup") lcd
  let lcd := lcdPrintfAt 10 2 (bytes "UBuf") lcd
  let lcd := lcdPrintfAt 0 3 (bytes "Temp") lcd
  lcdPrintfAt 10 3 (bytes "DCI") lcd

/-- The fields of `display_screen_pbt_update`. -/
def pbtFields (r : Readings) (lcd : Lcd) : Lcd :=
  let lcd := lcdField table3Col1 1 r.power.toInt lcd
  let lcd := lcdField table3Col1 2 r.supplySense.toNat lcd
  let lcd := lcdField 15 2 r.coinCell.toNat lcd
  let lcd := lcdField table3Col1 3 r.temperature.toNat lcd
  let lcd := lcdField 15 3 r.currExt.toNat lcd
  lcdPrintfAt 0 0 (r.time ++ [carriageReturn, newLine]) lcd

/-- The four rows of a screen, after the display has been cleared. -/
def paintRows (text : Fin lcdRows → List Byte) (lcd : Lcd) : Lcd :=
  (List.finRange lcdRows).foldl (fun lcd i => lcdPrintfAt 0 i (text i) lcd) (lcdPutc lcd formFeed)

/-- The rows of a screen of `sysstat`: `"%s"` of `sysstat_screen[index][i]`. -/
def paintSysstat (t : Texts) (index : Nat) (lcd : Lcd) : Lcd :=
  paintRows (fun i => stringAt t.sysstatScreen ((index * lcdRows + i) * lcdCols) 63) lcd

/-- The rows of the custom screen: `"%s"` of `custom_screen_buffer[i][0]`, a byte
that is taken for an address. -/
def paintCustom (r : Readings) (t : Texts) (lcd : Lcd) : Lcd :=
  paintRows (fun i => r.stringAtAddress (t.customScreenBuffer (i * lcdCols))) lcd

/-! ## The state -/

/-- `screen_id_t` -/
inductive ScreenId where
  | boot | iu | pbt | sysstat | custom
  deriving DecidableEq, Repr

/-- `screen_update_reason_t` -/
inductive ScreenUpdateReason where
  | justSet | regular
  deriving DecidableEq, Repr

/-- `SWITCH_SCREEN_INTERVAL` -/
def switchScreenInterval : Nat := 10

/-- The display and the static variables about it. -/
structure DisplayState where
  lcd : Lcd
  texts : Texts
  /-- `current_screen_id`, `none` for -1 -/
  currentScreenId : Option ScreenId
  currentSysstatScreensIndex : Nat
  /-- `update_count` of `display_screen_iu_update` -/
  iuUpdateCount : Nat
  /-- `update_count` of `display_screen_pbt_update` -/
  pbtUpdateCount : Nat
  /-- `last_screen_id` -/
  lastScreenId : Option ScreenId

/-- A function that is called with a screen, `display_set_screen`. -/
abbrev SetScreen : Type := ScreenId → DisplayState → Option DisplayState

/-! ## Updates -/

/-- A regular update counts. -/
def counted (reason : ScreenUpdateReason) (count : Nat) : Nat :=
  if reason = .regular then count + 1 else count

/-- `display_screen_iu_update` -/
def displayScreenIuUpdate (setScreen : SetScreen) (r : Readings) (reason : ScreenUpdateReason)
    (d : DisplayState) : Option DisplayState :=
  let d := { d with iuUpdateCount := counted reason d.iuUpdateCount }
  if d.iuUpdateCount > switchScreenInterval then do
    let d ← setScreen .pbt d
    some { d with iuUpdateCount := 0 }
  else some { d with lcd := iuFields r d.lcd }

/-- `display_screen_pbt_update` -/
def displayScreenPbtUpdate (setScreen : SetScreen) (r : Readings) (reason : ScreenUpdateReason)
    (d : DisplayState) : Option DisplayState :=
  let d := { d with pbtUpdateCount := counted reason d.pbtUpdateCount }
  if d.pbtUpdateCount > switchScreenInterval then do
    let d ← setScreen .sysstat d
    some { d with pbtUpdateCount := 0 }
  else some { d with lcd := pbtFields r d.lcd }

/-- `display_screen_sys_stat_update` -/
def displayScreenSysStatUpdate (setScreen : SetScreen) (reason : ScreenUpdateReason)
    (d : DisplayState) : Option DisplayState :=
  let d := { d with
    currentSysstatScreensIndex := counted reason d.currentSysstatScreensIndex % 256 }
  if d.currentSysstatScreensIndex ≥ d.texts.usedSysstatScreens then do
    let d ← setScreen .iu d
    some { d with currentSysstatScreensIndex := 0 }
  else some { d with lcd := paintSysstat d.texts d.currentSysstatScreensIndex d.lcd }

/-- `display_screen_custom_update` -/
def displayScreenCustomUpdate (r : Readings) (d : DisplayState) : DisplayState :=
  { d with lcd := paintCustom r d.texts d.lcd }

/-- `screen_instruction_table[id].paint_function` -/
def paintFunction (r : Readings) : ScreenId → Lcd → Lcd
  | .boot => displayScreenBootBackground r
  | .iu => displayScreenIuBackground
  | .pbt => displayScreenPbtBackground
  | .sysstat => id
  | .custom => id

/-- `screen_instruction_table[id].update_function` -/
def updateFunction (setScreen : SetScreen) (r : Readings) (reason : ScreenUpdateReason) :
    ScreenId → DisplayState → Option DisplayState
  | .boot => some
  | .iu => displayScreenIuUpdate setScreen r reason
  | .pbt => displayScreenPbtUpdate setScreen r reason
  | .sysstat => displayScreenSysStatUpdate setScreen reason
  | .custom => fun d => some (displayScreenCustomUpdate r d)

/-- `display_set_screen`, nested at most `depth` deep -/
def displaySetScreen (r : Readings) : (depth : Nat) → SetScreen
  | 0, _, _ => none
  | depth + 1, newScreenId, d =>
      if d.currentScreenId ≠ some newScreenId then
        updateFunction (displaySetScreen r depth) r .justSet newScreenId
          { d with
            currentScreenId := some newScreenId
            lcd := paintFunction r newScreenId d.lcd }
      else some d

/-- The nesting of `display_set_screen` that is never exceeded. -/
def nesting : Nat := 3

/-! ## Calls -/

/-- `display_return_to_normal_screen` -/
def displayReturnToNormalScreen (r : Readings) (d : DisplayState) : Option DisplayState :=
  if d.currentScreenId = some .custom then do
    let lastScreenId ← d.lastScreenId
    displaySetScreen r nesting lastScreenId d
  else some d

/-- `display_clear_and_set_custom_screen` -/
def displayClearAndSetCustomScreen (r : Readings) (d : DisplayState) : Option DisplayState :=
  displaySetScreen r nesting .custom
    { d with
      texts := displayCustomScreenClear d.texts
      lastScreenId := d.currentScreenId }

/-- One round of the loop of `taskDisplay`. -/
def regularUpdate (r : Readings) (d : DisplayState) : Option DisplayState := do
  let currentScreenId ← d.currentScreenId
  updateFunction (displaySetScreen r nesting) r .regular currentScreenId d

/-- `display_write_text` and `display_set_sysstat_screen` -/
def displayText (call : TextCall) (d : DisplayState) : Option DisplayState :=
  match call with
  | .writeText row text => some { d with texts := displayCustomScreenWriteText row text d.texts }
  | .setSysstatScreen countOfScreens screenIndex row text => do
      let texts ← displaySetSysstatScreen countOfScreens screenIndex row text d.texts
      some { d with texts := texts }

end WindradLogger.Display
