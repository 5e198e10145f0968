import WindradLogger.Board.Pins
import WindradLogger.Display.Hd44780

set_option autoImplicit false

/-!
# The bus between the driver and the controller (`hd44780.c`)

The controller is connected with four data lines.  `lcd_write` sends a byte as two
nibbles, each latched by the controller when the pin E falls; after power-on the
controller takes every nibble for a whole instruction, until an instruction says
that a byte comes in two.  `lcd_init` does not know what the controller waits for.

The same driver is run twice: on the controller of `Hd44780`, which is given whole
bytes, and on the pins.  Other tasks and interrupts set other pins in between.
-/

namespace WindradLogger.Display

open WindradLogger.Pins

/-! ## The driver, over what `lcd_write` writes to -/

/-- What the driver needs: `lcd_write`, and its static variables. -/
structure Backend (σ : Type) where
  write : Byte → Byte → σ → σ
  row : σ → Nat
  column : σ → Nat
  setCursor : Nat → Nat → σ → σ

namespace Backend

variable {σ : Type} (d : Backend σ)

/-- `lcd_init`, its first two lines apart -/
def init (s : σ) : σ :=
  let s := d.write 8#8 0x30#8 s
  let s := d.write 8#8 0x30#8 s
  let s := d.write 8#8 0x30#8 s
  let byte := 0x28#8
  let s := d.write 8#8 byte s
  let s := d.write 0#8 byte s
  let s := d.write 0#8 0x08#8 s
  let s := d.write 0#8 0x01#8 s
  let s := d.write 0#8 0x06#8 s
  let s := d.write 0#8 0x0C#8 s
  d.setCursor 0 0 s

/-- `lcd_locate` -/
def locate (col row : Nat) (s : σ) : σ :=
  let row := row % 256
  let col := col % 256
  let s := d.setCursor row col s
  let command :=
    if row < lcdRows ∧ col < lcdCols then
      let col := if row.testBit 0 then col + 0x40 else col
      let col := if row.testBit 1 then col + lcdCols else col
      col ||| 0x80
    else 0x0C
  d.write 0#8 (BitVec.ofNat 8 command) s

/-- `lcd_putc` -/
def putc (s : σ) (chr : Byte) : σ :=
  if chr = formFeed then d.locate 0 0 (d.write 0#8 0x01#8 s)
  else if lcdRows ≤ d.row s then s
  else if chr = carriageReturn then d.locate (d.row s) 0 s
  else if chr = newLine then d.locate (d.row s + 1) 0 s
  else if chr = backspace then
    if d.column s ≠ 0 then d.locate (d.row s) (d.column s - 1) s else s
  else if lcdCols ≤ d.column s then s
  else
    let s := d.write 5#8 chr s
    let s := d.setCursor (d.row s) (d.column s + 1) s
    if lcdCols ≤ d.column s then d.locate (d.row s + 1) 0 s else s

/-- `lcd_puts` -/
def puts : List Byte → σ → σ
  | [], s => s
  | chr :: rest, s => if chr = 0#8 then s else puts rest (d.putc s chr)

/-- A call from outside the driver. -/
def call (s : σ) : LcdCall → σ
  | .putc chr => d.putc s chr
  | .puts buffer => d.puts buffer s
  | .putsn buffer n => (buffer.take n).foldl d.putc s
  | .locate col row => d.locate col.toNat row.toNat s

end Backend

/-- The driver of `Hd44780`. -/
def byteBackend : Backend Lcd where
  write := lcdWrite
  row := Lcd.row
  column := Lcd.column
  setCursor row column lcd := { lcd with row := row, column := column }

theorem init_byteBackend : byteBackend.init = lcdInit := rfl

theorem locate_byteBackend : byteBackend.locate = lcdLocate := rfl

theorem putc_byteBackend : byteBackend.putc = lcdPutc := rfl

theorem puts_byteBackend (buffer : List Byte) (lcd : Lcd) :
    byteBackend.puts buffer lcd = lcdPuts buffer lcd := by
  induction buffer generalizing lcd with
  | nil => rfl
  | cons chr rest ih =>
      rw [Backend.puts, lcdPuts, putc_byteBackend, ih]

theorem call_byteBackend : byteBackend.call = lcdCall := by
  funext lcd call
  cases call with
  | putc chr => rfl
  | puts buffer => exact puts_byteBackend buffer lcd
  | putsn buffer n => rfl
  | locate col row => rfl

/-! ## Simulation -/

/-- The bytes that are sent after `lcd_init`: data, addresses, and two commands. -/
inductive Sent : Byte → Byte → Prop where
  | data (chr : Byte) : Sent 5#8 chr
  | address (a : Nat) (ha : a < 0x80) : Sent 0#8 (BitVec.ofNat 8 (a ||| 0x80))
  | on : Sent 0#8 0x0C#8
  | clear : Sent 0#8 0x01#8

/-- Two drivers whose states are related, and stay so with every byte that is sent. -/
structure Simulates {σ τ : Type} (d : Backend σ) (e : Backend τ) (R : σ → τ → Prop) : Prop where
  row : ∀ {s t}, R s t → d.row s = e.row t
  column : ∀ {s t}, R s t → d.column s = e.column t
  setCursor : ∀ {s t}, R s t → ∀ row column, R (d.setCursor row column s) (e.setCursor row column t)
  write : ∀ {s t}, R s t → ∀ {reg dat}, Sent reg dat → R (d.write reg dat s) (e.write reg dat t)

namespace Simulates

variable {σ τ : Type} {d : Backend σ} {e : Backend τ} {R : σ → τ → Prop} (h : Simulates d e R)

include h

theorem locate {s : σ} {t : τ} (hR : R s t) (col row : Nat) :
    R (d.locate col row s) (e.locate col row t) := by
  unfold Backend.locate
  have hmoved := h.setCursor hR (row % 256) (col % 256)
  rcases Decidable.em (row % 256 < lcdRows ∧ col % 256 < lcdCols) with hinside | houtside
  · have haddress : cellAddress (row % 256) (col % 256) < 0x80 := by
      have hcol : col % 256 < 20 := hinside.2
      unfold cellAddress
      rcases rowStart_cases hinside.1 with hr | hr | hr | hr <;> omega
    simp only [hinside, and_self, if_true]
    rw [locate_address hinside.1]
    exact h.write hmoved (.address _ haddress)
  · simp only [houtside, if_false]
    exact h.write hmoved .on

theorem putc {s : σ} {t : τ} (hR : R s t) (chr : Byte) : R (d.putc s chr) (e.putc t chr) := by
  unfold Backend.putc
  rw [h.row hR, h.column hR]
  split
  · exact h.locate (h.write hR .clear) 0 0
  split
  · exact hR
  split
  · exact h.locate hR _ 0
  split
  · exact h.locate hR _ 0
  split
  · split
    · exact h.locate hR _ _
    · exact hR
  split
  · exact hR
  · -- an ordinary character, and the step to the next row behind the last column
    have hwritten := h.write hR (.data chr)
    have hmoved := h.setCursor hwritten (e.row (e.write 5#8 chr t))
      (e.column (e.write 5#8 chr t) + 1)
    dsimp only
    rw [h.row hwritten, h.column hwritten, h.row hmoved, h.column hmoved]
    split
    · exact h.locate hmoved _ 0
    · exact hmoved

theorem puts (buffer : List Byte) {s : σ} {t : τ} (hR : R s t) :
    R (d.puts buffer s) (e.puts buffer t) := by
  induction buffer generalizing s t with
  | nil => exact hR
  | cons chr rest ih =>
      rw [Backend.puts, Backend.puts]
      split
      · exact hR
      · exact ih (h.putc hR chr)

theorem putsn (buffer : List Byte) {s : σ} {t : τ} (hR : R s t) :
    R (buffer.foldl d.putc s) (buffer.foldl e.putc t) := by
  induction buffer generalizing s t with
  | nil => exact hR
  | cons chr rest ih => exact ih (h.putc hR chr)

theorem call {s : σ} {t : τ} (hR : R s t) (c : LcdCall) : R (d.call s c) (e.call t c) := by
  cases c with
  | putc chr => exact h.putc hR chr
  | puts buffer => exact h.puts buffer hR
  | putsn buffer n => exact h.putsn (buffer.take n) hR
  | locate col row => exact h.locate hR _ _

theorem calls {s : σ} {t : τ} (hR : R s t) (cs : List LcdCall) :
    R (cs.foldl d.call s) (cs.foldl e.call t) := by
  induction cs generalizing s t with
  | nil => exact hR
  | cons c rest ih => exact ih (h.call hR c)

end Simulates

/-! ## The controller at the bus -/

/-- How many of the bits of an instruction come at once. -/
inductive Width where
  | eight | four
  deriving DecidableEq, Repr

/-- What the controller knows about its bus. -/
structure Bus where
  width : Width
  /-- the upper half of a byte whose lower half is to come -/
  upper : Option (BitVec 4)
  /-- the number of instructions so far -/
  received : Nat

/-- The controller, with its bus and, as in `Lcd`, the variables of the driver. -/
structure Controller where
  lcd : Lcd
  bus : Bus

namespace Controller

/-- A data byte, or a command; the command `001…` says how many bits come at once. -/
def instruction (rs : Bool) (byte : Byte) (c : Controller) : Controller :=
  if rs then { c with lcd := c.lcd.store byte }
  else
    { lcd := c.lcd.execute byte
      bus :=
        { c.bus with
          width :=
            if byte.extractLsb' 5 3 = 1#3 then if byte.getLsbD 4 then .eight else .four
            else c.bus.width } }

/-- The pin E has fallen.  The four data lines that are not connected carry anything,
which counts while instructions come at once. -/
def latch (floating : Nat → BitVec 4) (rs : Bool) (nibble : BitVec 4) (c : Controller) :
    Controller :=
  match c.bus.width, c.bus.upper with
  | .eight, _ =>
      instruction rs (nibble ++ floating c.bus.received)
        { c with bus := { c.bus with upper := none, received := c.bus.received + 1 } }
  | .four, none => { c with bus := { c.bus with upper := some nibble } }
  | .four, some upper =>
      instruction rs (upper ++ nibble)
        { c with bus := { c.bus with upper := none, received := c.bus.received + 1 } }

end Controller

/-! ## The pins -/

/-- What the driver runs on: the HAL, the writes of other tasks and interrupts before each
of its own, and what the unconnected data lines carry. -/
structure Surroundings where
  halGpioWritePin : Pin → Bool → Outputs → Outputs
  others : Nat → List OtherWrite
  floating : Nat → BitVec 4

/-- The controller, the pins, and how many of them the driver has written so far. -/
structure Panel where
  controller : Controller
  outputs : Outputs
  writes : Nat

/-- D7 to D4 -/
def dataLines (outputs : Outputs) : BitVec 4 :=
  BitVec.ofBool (outputs.level .dispD7) ++ BitVec.ofBool (outputs.level .dispD6) ++
    BitVec.ofBool (outputs.level .dispD5) ++ BitVec.ofBool (outputs.level .dispD4)

namespace Panel

variable (env : Surroundings)

/-- A write to pins; the controller reacts when E falls. -/
def set (p : Panel) (write : Outputs → Outputs) : Panel :=
  let outputs := write p.outputs
  { p with
    controller :=
      if p.outputs.level .dispE ∧ ¬ outputs.level .dispE then
        p.controller.latch env.floating (outputs.level .dispRs) (dataLines outputs)
      else p.controller
    outputs := outputs }

/-- The writes of others before the next one of the driver. -/
def disturb (p : Panel) : Panel :=
  (env.others p.writes).foldl
    (fun p other => p.set env (env.halGpioWritePin other.pin other.state)) p

/-- A write of the driver. -/
def output (write : Outputs → Outputs) (p : Panel) : Panel :=
  let p := (p.disturb env).set env write
  { p with writes := p.writes + 1 }

/-- `OUT_DATA` -/
def outData (dat : Byte) (p : Panel) : Panel :=
  p.output env (boardDisplayWriteData (dat >>> 4)).apply

/-- `E1_HIGH`, a delay, and `E1_LOW` -/
def pulse (p : Panel) : Panel :=
  let p := p.output env (env.halGpioWritePin .dispE true)
  p.output env (env.halGpioWritePin .dispE false)

/-- `lcd_write` -/
def lcdWrite (reg dat : Byte) (p : Panel) : Panel :=
  let p := p.output env (env.halGpioWritePin .dispRs (reg.getLsbD 0))
  let (dat, p) :=
    if reg.getLsbD 3 then (dat, p) else (dat <<< 4, (p.outData env dat).pulse env)
  (p.outData env dat).pulse env

/-- The driver on the pins. -/
def backend : Backend Panel where
  write := lcdWrite env
  row p := p.controller.lcd.row
  column p := p.controller.lcd.column
  setCursor row column p :=
    { p with
      controller :=
        { p.controller with lcd := { p.controller.lcd with row := row, column := column } } }

/-- `lcd_init` -/
def lcdInit (p : Panel) : Panel := (backend env).init (p.pulse env)

end Panel

/-! ## What a write does -/

/-- The pins of the display. -/
structure Lines where
  e : Bool
  rs : Bool
  data : BitVec 4

def Panel.lines (p : Panel) : Lines :=
  { e := p.outputs.level .dispE
    rs := p.outputs.level .dispRs
    data := dataLines p.outputs }

namespace Panel

variable {env : Surroundings} (hhal : SetsOwnPin env.halGpioWritePin)

include hhal

/-- Another task sets another pin: the controller notices nothing. -/
theorem set_other (p : Panel) (other : OtherWrite) :
    let after := p.set env (env.halGpioWritePin other.pin other.state)
    after.controller = p.controller ∧ after.lines = p.lines ∧ after.writes = p.writes := by
  obtain ⟨h4, h5, h6, h7, hrs, he⟩ := other.ofOthers
  have hlevel : ∀ pin, other.pin ≠ pin →
      (env.halGpioWritePin other.pin other.state p.outputs).level pin = p.outputs.level pin :=
    fun pin hne => (hhal.level _ _ _ _).trans (if_neg (Ne.symm hne))
  refine ⟨?_, ?_, rfl⟩
  · simp only [set, hlevel _ he, and_not_self, if_false]
  · simp only [lines, set, dataLines, hlevel _ h4, hlevel _ h5, hlevel _ h6, hlevel _ h7,
      hlevel _ hrs, hlevel _ he]

theorem disturb_eq (p : Panel) :
    (p.disturb env).controller = p.controller ∧ (p.disturb env).lines = p.lines ∧
      (p.disturb env).writes = p.writes := by
  unfold disturb
  generalize env.others p.writes = others
  induction others generalizing p with
  | nil => exact ⟨rfl, rfl, rfl⟩
  | cons other rest ih =>
      obtain ⟨hcontroller, hlines, hwrites⟩ := set_other hhal p other
      obtain ⟨hcontroller', hlines', hwrites'⟩ :=
        ih (p.set env (env.halGpioWritePin other.pin other.state))
      exact ⟨hcontroller'.trans hcontroller, hlines'.trans hlines, hwrites'.trans hwrites⟩

theorem output_rs (state : Bool) (p : Panel) :
    (p.output env (env.halGpioWritePin .dispRs state)).controller = p.controller ∧
      (p.output env (env.halGpioWritePin .dispRs state)).lines = { p.lines with rs := state } := by
  obtain ⟨hcontroller, hlines, -⟩ := disturb_eq hhal p
  rw [← hcontroller, ← hlines]
  refine ⟨?_, ?_⟩
  · simp [output, set, hhal.level]
  · simp [output, set, lines, dataLines, hhal.level]

theorem output_data (data : Byte) (p : Panel) :
    (p.output env (boardDisplayWriteData data).apply).controller = p.controller ∧
      (p.output env (boardDisplayWriteData data).apply).lines =
        { p.lines with data := data.extractLsb' 0 4 } := by
  obtain ⟨hcontroller, hlines, -⟩ := disturb_eq hhal p
  rw [← hcontroller, ← hlines]
  have hnibble : BitVec.ofBool (data.getLsbD 3) ++ BitVec.ofBool (data.getLsbD 2) ++
      BitVec.ofBool (data.getLsbD 1) ++ BitVec.ofBool (data.getLsbD 0) =
        data.extractLsb' 0 4 := by
    refine BitVec.eq_of_getLsbD_eq fun i hi => ?_
    have hplace : i = 0 ∨ i = 1 ∨ i = 2 ∨ i = 3 := by omega
    simp only [BitVec.getLsbD_append, BitVec.getLsbD_ofBool, BitVec.getLsbD_extractLsb']
    rcases hplace with rfl | rfl | rfl | rfl <;> simp
  refine ⟨?_, ?_⟩
  · simp [output, set, level_boardDisplayWriteData]
  · simp only [output, set, lines, dataLines, level_boardDisplayWriteData, hnibble]

theorem output_e (state : Bool) (p : Panel) :
    (p.output env (env.halGpioWritePin .dispE state)).controller =
        (if p.lines.e ∧ ¬ state then p.controller.latch env.floating p.lines.rs p.lines.data
        else p.controller) ∧
      (p.output env (env.halGpioWritePin .dispE state)).lines = { p.lines with e := state } := by
  obtain ⟨hcontroller, hlines, -⟩ := disturb_eq hhal p
  rw [← hcontroller, ← hlines]
  refine ⟨?_, ?_⟩
  · simp [output, set, lines, dataLines, hhal.level]
  · simp [output, set, lines, dataLines, hhal.level]

theorem pulse_eq (p : Panel) :
    (p.pulse env).controller = p.controller.latch env.floating p.lines.rs p.lines.data ∧
      (p.pulse env).lines = { p.lines with e := false } := by
  obtain ⟨hcontroller, hlines⟩ := output_e hhal true p
  obtain ⟨hcontroller', hlines'⟩ :=
    output_e hhal false (p.output env (env.halGpioWritePin .dispE true))
  rw [hlines] at hcontroller' hlines'
  refine ⟨hcontroller'.trans ?_, hlines'⟩
  rw [hcontroller]
  simp

/-- A nibble is sent. -/
theorem transfer_eq (dat : Byte) (p : Panel) :
    ((p.outData env dat).pulse env).controller =
        p.controller.latch env.floating p.lines.rs (dat.extractLsb' 4 4) ∧
      ((p.outData env dat).pulse env).lines =
        { p.lines with e := false, data := dat.extractLsb' 4 4 } := by
  obtain ⟨hcontroller, hlines⟩ := output_data hhal (dat >>> 4) p
  obtain ⟨hcontroller', hlines'⟩ := pulse_eq hhal (p.outData env dat)
  have hnibble : (dat >>> 4).extractLsb' 0 4 = dat.extractLsb' 4 4 := by
    refine BitVec.eq_of_getLsbD_eq fun i hi => ?_
    simp [hi]
  rw [hnibble] at hlines
  rw [outData, hlines, hcontroller] at hcontroller'
  rw [outData, hlines] at hlines'
  exact ⟨hcontroller', hlines'⟩

/-- `lcd_write`, as the controller sees it. -/
theorem lcdWrite_eq (reg dat : Byte) (p : Panel) :
    (p.lcdWrite env reg dat).controller =
      if reg.getLsbD 3 then
        p.controller.latch env.floating (reg.getLsbD 0) (dat.extractLsb' 4 4)
      else
        (p.controller.latch env.floating (reg.getLsbD 0) (dat.extractLsb' 4 4)).latch env.floating
          (reg.getLsbD 0) (dat.extractLsb' 0 4) := by
  obtain ⟨hcontroller, hlines⟩ := output_rs hhal (reg.getLsbD 0) p
  obtain ⟨hfirst, hfirstLines⟩ :=
    transfer_eq hhal dat (p.output env (env.halGpioWritePin .dispRs (reg.getLsbD 0)))
  rw [hlines, hcontroller] at hfirst
  rw [hlines] at hfirstLines
  unfold Panel.lcdWrite
  split
  · exact hfirst
  · obtain ⟨hsecond, -⟩ := transfer_eq hhal (dat <<< 4)
      (((p.output env (env.halGpioWritePin .dispRs (reg.getLsbD 0))).outData env dat).pulse env)
    have hnibble : (dat <<< 4).extractLsb' 4 4 = dat.extractLsb' 0 4 := by
      refine BitVec.eq_of_getLsbD_eq fun i hi => ?_
      have hplace : 4 + i < 8 := by omega
      simp only [BitVec.getLsbD_extractLsb', BitVec.getLsbD_shiftLeft]
      simp [hi, hplace]
    rw [hfirst, hfirstLines, hnibble] at hsecond
    exact hsecond

end Panel

namespace Controller

variable (floating : Nat → BitVec 4)

/-- The controller waits for the upper half of a byte. -/
def Ready (c : Controller) : Prop := c.bus.width = .four ∧ c.bus.upper = none

theorem nibbles (dat : Byte) : dat.extractLsb' 4 4 ++ dat.extractLsb' 0 4 = dat := by
  refine BitVec.eq_of_getLsbD_eq fun i hi => ?_
  simp only [BitVec.getLsbD_append, BitVec.getLsbD_extractLsb']
  rcases Nat.lt_or_ge i 4 with hlow | hhigh
  · simp [hlow]
  · have hplace : i - 4 < 4 := by omega
    simp [Nat.not_lt.mpr hhigh, hplace, Nat.add_sub_cancel' hhigh]

/-- Two nibbles are an instruction. -/
theorem latch_latch {c : Controller} (h : c.Ready) (rs : Bool) (dat : Byte) :
    (c.latch floating rs (dat.extractLsb' 4 4)).latch floating rs (dat.extractLsb' 0 4) =
      instruction rs dat { c with bus := { c.bus with received := c.bus.received + 1 } } := by
  obtain ⟨lcd, width, upper, received⟩ := c
  obtain ⟨rfl, rfl⟩ := h
  simp only [latch, nibbles]

/-- The width after a command, by its upper half. -/
def widthAfter (nibble : BitVec 4) (width : Width) : Width :=
  if nibble.extractLsb' 1 3 = 1#3 then if nibble.getLsbD 0 then .eight else .four else width

theorem bus_instruction (nibble rest : BitVec 4) (c : Controller) :
    (instruction false (nibble ++ rest) c).bus =
      { c.bus with width := widthAfter nibble c.bus.width } := by
  have hcode : (nibble ++ rest).extractLsb' 5 3 = nibble.extractLsb' 1 3 := by
    refine BitVec.eq_of_getLsbD_eq fun i hi => ?_
    have hplace : ¬ 5 + i < 4 := by omega
    have hshift : 5 + i - 4 = 1 + i := by omega
    simp only [BitVec.getLsbD_append, BitVec.getLsbD_extractLsb', hplace, hshift, if_false]
  have hbit : (nibble ++ rest).getLsbD 4 = nibble.getLsbD 0 := by
    rw [BitVec.getLsbD_append, if_neg (Nat.lt_irrefl 4)]
  simp only [instruction, Bool.false_eq_true, if_false, hcode, hbit, widthAfter]

/-- What a nibble of a command does to the bus. -/
theorem bus_latch (nibble : BitVec 4) (c : Controller) :
    (c.latch floating false nibble).bus =
      match c.bus.width, c.bus.upper with
      | .eight, _ => ⟨widthAfter nibble .eight, none, c.bus.received + 1⟩
      | .four, none => ⟨.four, some nibble, c.bus.received⟩
      | .four, some upper => ⟨widthAfter upper .four, none, c.bus.received + 1⟩ := by
  obtain ⟨lcd, width, upper, received⟩ := c
  cases width with
  | eight => exact bus_instruction _ _ _
  | four =>
      cases upper with
      | none => rfl
      | some upper => exact bus_instruction _ _ _

/-- Whatever the controller waited for, after three times three and two it waits for
the upper half of a byte. -/
theorem ready_of_sequence (c : Controller) :
    ((((c.latch floating false 3#4).latch floating false 3#4).latch floating false 3#4).latch
      floating false 2#4).Ready := by
  unfold Ready
  simp only [bus_latch]
  cases c.bus.width with
  | eight => exact ⟨rfl, rfl⟩
  | four =>
      cases c.bus.upper with
      | none => exact ⟨rfl, rfl⟩
      | some upper =>
          simp only
          cases widthAfter upper .four with
          | eight => exact ⟨rfl, rfl⟩
          | four => exact ⟨rfl, rfl⟩

end Controller

/-! ## The driver on the pins -/

/-- The controller waits for a byte, and its memory, its address counter and the
cursor of the driver are those of the controller that is given whole bytes. -/
structure Shows (p : Panel) (lcd : Lcd) : Prop where
  ready : p.controller.Ready
  row : p.controller.lcd.row = lcd.row
  column : p.controller.lcd.column = lcd.column
  ddram : p.controller.lcd.ddram = lcd.ddram
  ac : p.controller.lcd.ac = lcd.ac

theorem execute_congr {lcd lcd' : Lcd} (hrow : lcd'.row = lcd.row)
    (hcolumn : lcd'.column = lcd.column) (hddram : lcd'.ddram = lcd.ddram) (hac : lcd'.ac = lcd.ac)
    (command : Byte) :
    (lcd'.execute command).row = (lcd.execute command).row ∧
      (lcd'.execute command).column = (lcd.execute command).column ∧
      (lcd'.execute command).ddram = (lcd.execute command).ddram ∧
      (lcd'.execute command).ac = (lcd.execute command).ac := by
  unfold Lcd.execute
  split
  · exact ⟨hrow, hcolumn, hddram, rfl⟩
  · split
    · exact ⟨hrow, hcolumn, rfl, rfl⟩
    · exact ⟨hrow, hcolumn, hddram, hac⟩

/-- An address is not mistaken for the command that sets the width. -/
theorem width_of_address (a : Nat) : (BitVec.ofNat 8 (a ||| 0x80)).extractLsb' 5 3 ≠ 1#3 := by
  intro hcode
  have hbit : ((BitVec.ofNat 8 (a ||| 0x80)).extractLsb' 5 3).getLsbD 2 = (1#3).getLsbD 2 := by
    rw [hcode]
  have hset : (0x80).testBit 7 = true := by decide
  rw [BitVec.getLsbD_extractLsb', BitVec.getLsbD_ofNat, Nat.testBit_or, hset, Bool.or_true] at hbit
  exact absurd hbit (by decide)

section Driver

variable {env : Surroundings} (hhal : SetsOwnPin env.halGpioWritePin) {p : Panel} {lcd : Lcd}

include hhal

theorem Shows.controller_write (h : Shows p lcd) {reg : Byte} (hreg : reg.getLsbD 3 = false)
    (dat : Byte) :
    (p.lcdWrite env reg dat).controller = (Controller.instruction (reg.getLsbD 0) dat
      { p.controller with
        bus := { p.controller.bus with received := p.controller.bus.received + 1 } }) := by
  rw [Panel.lcdWrite_eq hhal, hreg, if_neg Bool.false_ne_true, Controller.latch_latch _ h.ready]

theorem Shows.data (h : Shows p lcd) (chr : Byte) :
    Shows (p.lcdWrite env 5#8 chr) (lcd.store chr) := by
  have hboth : (5#8).getLsbD 3 = false := by decide
  have hdata : (5#8).getLsbD 0 = true := by decide
  have hwrite := h.controller_write hhal hboth chr
  rw [hdata, Controller.instruction, if_pos rfl] at hwrite
  refine ⟨?_, ?_, ?_, ?_, ?_⟩
  · rw [hwrite]
    exact h.ready
  · rw [hwrite]
    exact h.row
  · rw [hwrite]
    exact h.column
  · rw [hwrite]
    simp only [Lcd.store, h.ddram, h.ac]
  · rw [hwrite]
    simp only [Lcd.store, h.ac]

/-- A command that does not ask for eight bits at once. -/
theorem Shows.command (h : Shows p lcd) (command : Byte)
    (hwidth : command.extractLsb' 5 3 = 1#3 → command.getLsbD 4 = false) :
    Shows (p.lcdWrite env 0#8 command) (lcd.execute command) := by
  have hboth : (0#8).getLsbD 3 = false := BitVec.getLsbD_zero
  have hwrite := h.controller_write hhal hboth command
  rw [BitVec.getLsbD_zero, Controller.instruction, if_neg Bool.false_ne_true] at hwrite
  obtain ⟨hrow, hcolumn, hddram, hac⟩ := execute_congr h.row h.column h.ddram h.ac command
  refine ⟨?_, ?_, ?_, ?_, ?_⟩
  · rw [hwrite]
    refine ⟨?_, h.ready.2⟩
    dsimp only
    split
    · rename_i hcode
      rw [hwidth hcode, if_neg Bool.false_ne_true]
    · exact h.ready.1
  · rw [hwrite]
    exact hrow
  · rw [hwrite]
    exact hcolumn
  · rw [hwrite]
    exact hddram
  · rw [hwrite]
    exact hac

/-- On the pins the driver does what it does when whole bytes are handed over. -/
theorem simulates_backend : Simulates (Panel.backend env) byteBackend Shows where
  row h := h.row
  column h := h.column
  setCursor h row column := ⟨h.ready, rfl, rfl, h.ddram, h.ac⟩
  write {s t} h {reg dat} hsent := by
    cases hsent with
    | data =>
        have hdata := h.data hhal dat
        rw [← lcdWrite_data] at hdata
        exact hdata
    | address a ha =>
        have hcommand := h.command hhal _ fun hcode => absurd hcode (width_of_address a)
        rw [← lcdWrite_command] at hcommand
        exact hcommand
    | on =>
        have hcommand := h.command hhal 0x0C#8 (by decide)
        rw [← lcdWrite_command] at hcommand
        exact hcommand
    | clear =>
        have hcommand := h.command hhal 0x01#8 (by decide)
        rw [← lcdWrite_command] at hcommand
        exact hcommand

/-- After the four nibbles of `lcd_init` the controller waits for a byte. -/
theorem ready_of_nibbles (p : Panel) :
    ((((p.lcdWrite env 8#8 0x30#8).lcdWrite env 8#8 0x30#8).lcdWrite env 8#8 0x30#8).lcdWrite env
      8#8 0x28#8).controller.Ready := by
  have hnibble : ∀ (q : Panel) (dat : Byte), (q.lcdWrite env 8#8 dat).controller =
      q.controller.latch env.floating false (dat.extractLsb' 4 4) := by
    intro q dat
    have hhigh : (8#8).getLsbD 3 = true := by decide
    have hcommand : (8#8).getLsbD 0 = false := by decide
    rw [Panel.lcdWrite_eq hhal, hhigh, hcommand, if_pos rfl]
  rw [hnibble, hnibble, hnibble, hnibble]
  exact Controller.ready_of_sequence env.floating p.controller

/-- `lcd_init` brings any controller, whatever it waited for, and with any levels of the
pins, to the state after `lcd_init` with whole bytes. -/
theorem shows_lcdInit (p : Panel) (lcd : Lcd) : Shows (p.lcdInit env) (lcdInit lcd) := by
  have hready := ready_of_nibbles hhal (p.pulse env)
  generalize hq : ((((p.pulse env).lcdWrite env 8#8 0x30#8).lcdWrite env 8#8 0x30#8).lcdWrite env
    8#8 0x30#8).lcdWrite env 8#8 0x28#8 = q at hready
  have hsame : Shows q q.controller.lcd := ⟨hready, rfl, rfl, rfl, rfl⟩
  have hbytes := ((((hsame.command hhal 0x28#8 (by decide)).command hhal 0x08#8
    (by decide)).command hhal 0x01#8 (by decide)).command hhal 0x06#8 (by decide)).command hhal
    0x0C#8 (by decide)
  have hinit : p.lcdInit env = (Panel.backend env).setCursor 0 0
      (((((q.lcdWrite env 0#8 0x28#8).lcdWrite env 0#8 0x08#8).lcdWrite env 0#8 0x01#8).lcdWrite
        env 0#8 0x06#8).lcdWrite env 0#8 0x0C#8) := by
    rw [← hq]
    rfl
  rw [hinit]
  refine ⟨hbytes.ready, rfl, rfl, hbytes.ddram.trans ?_, hbytes.ac.trans ?_⟩
  · rfl
  · rfl

end Driver

/-- With a HAL that sets the pin it is given and no other, for any levels of the pins and
whatever the controller waited for, with other tasks and interrupts setting their pins
in between: after `lcd_init` and any calls of the driver the memory and the address
counter of the controller are as if every byte had been handed over whole. -/
theorem pins_follow_bytes {env : Surroundings} (hhal : SetsOwnPin env.halGpioWritePin) (p : Panel)
    (lcd : Lcd) (calls : List LcdCall) :
    Shows (calls.foldl (Panel.backend env).call (p.lcdInit env))
      (calls.foldl lcdCall (lcdInit lcd)) := by
  have hcalls := (simulates_backend hhal).calls (shows_lcdInit hhal p lcd) calls
  rw [call_byteBackend] at hcalls
  exact hcalls

/-- A controller that waits for bytes, with lines that carry ones, while another task sets
its output before every write of the driver; two rows of text are put. -/
theorem pins_follow_bytes_letters :
    let env : Surroundings := ⟨bsrrWritePin, fun _ => [⟨.gpio0, true, by decide⟩], fun _ => 0xF#4⟩
    let controller : Controller := ⟨⟨0, 0, fun _ => 0#8, 0, []⟩, ⟨.four, some 3#4, 0⟩⟩
    let calls : List LcdCall := [.puts [0x41#8, 0x42#8], .locate 0#8 1#8, .putc 0x43#8]
    let after := calls.foldl (Panel.backend env).call
      (Panel.lcdInit env ⟨controller, fun _ => 0, 0⟩)
    after.controller.lcd.ddram 1 = 0x42#8 ∧ after.controller.lcd.ddram 0x40 = 0x43#8 := by
  intro env controller calls after
  have hhal : SetsOwnPin env.halGpioWritePin := setsOwnPin_bsrrWritePin
  have hshows := pins_follow_bytes hhal ⟨controller, fun _ => 0, 0⟩
    ⟨0, 0, fun _ => 0#8, 0, []⟩ calls
  have hddram : after.controller.lcd.ddram = _ := hshows.ddram
  rw [hddram]
  exact ⟨by decide, by decide⟩

/-! ## The other pins -/

/-- The writes of others before the `n`-th write of the driver. -/
def othersBefore (env : Surroundings) (n : Nat) : List OtherWrite :=
  (List.range n).flatMap env.others

theorem othersBefore_succ (env : Surroundings) (n : Nat) :
    othersBefore env (n + 1) = othersBefore env n ++ env.others n := by
  rw [othersBefore, List.range_succ, List.flatMap_append, List.flatMap_singleton]
  rfl

section Others

variable (env : Surroundings) (initial : Outputs)

/-- Every pin of others has the level that they have given it last. -/
def OthersKept (p : Panel) : Prop :=
  ∀ pin : Pin, pin.OfOthers →
    p.outputs.level pin = levelAfter pin (othersBefore env p.writes) (initial.level pin)

variable {env initial} (hhal : SetsOwnPin env.halGpioWritePin) {p : Panel}

include hhal

theorem level_disturb (p : Panel) (pin : Pin) :
    (p.disturb env).outputs.level pin =
      levelAfter pin (env.others p.writes) (p.outputs.level pin) := by
  unfold Panel.disturb levelAfter
  generalize env.others p.writes = others
  induction others generalizing p with
  | nil => rfl
  | cons other rest ih =>
      have hset : (p.set env (env.halGpioWritePin other.pin other.state)).outputs.level pin =
          if other.pin = pin then other.state else p.outputs.level pin := by
        rw [Panel.set, hhal.level]
        exact if_congr eq_comm rfl rfl
      rw [List.foldl_cons, List.foldl_cons, ih, hset]

/-- A write of the driver that leaves the pins of others alone. -/
theorem OthersKept.output (h : OthersKept env initial p) {write : Outputs → Outputs}
    (hwrite : ∀ outputs pin, pin.OfOthers → (write outputs).level pin = outputs.level pin) :
    OthersKept env initial (p.output env write) := by
  intro pin hpin
  have hafter : (p.output env write).outputs.level pin = (p.disturb env).outputs.level pin :=
    hwrite _ pin hpin
  have hwrites : (p.output env write).writes = p.writes + 1 :=
    congrArg (· + 1) (Panel.disturb_eq hhal p).2.2
  rw [hafter, hwrites, othersBefore_succ, levelAfter_append, level_disturb hhal, h pin hpin]

theorem OthersKept.output_pin (h : OthersKept env initial p) {pin : Pin} (hpin : ¬ pin.OfOthers)
    (state : Bool) : OthersKept env initial (p.output env (env.halGpioWritePin pin state)) :=
  h.output hhal fun outputs other hother => by
    have hne : other ≠ pin := fun heq => hpin (heq ▸ hother)
    rw [hhal.level, if_neg hne]

theorem OthersKept.outData (h : OthersKept env initial p) (dat : Byte) :
    OthersKept env initial (p.outData env dat) :=
  h.output hhal fun outputs other hother => by
    obtain ⟨h4, h5, h6, h7, -, -⟩ := hother
    rw [level_boardDisplayWriteData]
    split <;> first | contradiction | rfl

theorem OthersKept.pulse (h : OthersKept env initial p) : OthersKept env initial (p.pulse env) :=
  (h.output_pin hhal (by decide) true).output_pin hhal (by decide) false

theorem OthersKept.lcdWrite (h : OthersKept env initial p) (reg dat : Byte) :
    OthersKept env initial (p.lcdWrite env reg dat) := by
  have hdisplay : ¬ Pin.dispRs.OfOthers := by decide
  have hrs := h.output_pin hhal hdisplay (reg.getLsbD 0)
  unfold Panel.lcdWrite
  split
  · exact (hrs.outData hhal dat).pulse hhal
  · exact (((hrs.outData hhal dat).pulse hhal).outData hhal (dat <<< 4)).pulse hhal

theorem OthersKept.lcdInit (h : OthersKept env initial p) :
    OthersKept env initial (p.lcdInit env) := by
  have hnibbles := ((((h.pulse hhal).lcdWrite hhal 8#8 0x30#8).lcdWrite hhal 8#8 0x30#8).lcdWrite
    hhal 8#8 0x30#8).lcdWrite hhal 8#8 0x28#8
  exact ((((hnibbles.lcdWrite hhal 0#8 0x28#8).lcdWrite hhal 0#8 0x08#8).lcdWrite hhal 0#8
    0x01#8).lcdWrite hhal 0#8 0x06#8).lcdWrite hhal 0#8 0x0C#8

theorem OthersKept.calls (h : OthersKept env initial p) (calls : List LcdCall) :
    OthersKept env initial (calls.foldl (Panel.backend env).call p) := by
  have hself : Simulates (Panel.backend env) (Panel.backend env)
      fun q r => q = r ∧ OthersKept env initial q :=
    { row := fun hR => congrArg _ hR.1
      column := fun hR => congrArg _ hR.1
      setCursor := fun hR row column => ⟨congrArg _ hR.1, hR.2⟩
      write := fun hR reg dat _ => ⟨congrArg _ hR.1, hR.2.lcdWrite hhal reg dat⟩ }
  exact (hself.calls ⟨rfl, h⟩ calls).2

end Others

/-- The display is written while other tasks set their pins: each pin of
`gpio_set_state` is at the state of its last call, or at its first level. -/
theorem gpio_keeps_state {halGpioWritePin : Pin → Bool → Outputs → Outputs}
    (hhal : SetsOwnPin halGpioWritePin) (activities : Nat → List Activity)
    (floating : Nat → BitVec 4) (controller : Controller) (outputs : Outputs) (calls : List LcdCall)
    {gpioIndex : BitVec 8} {pin : Pin} (hpin : gpioPin gpioIndex = some pin) :
    let env : Surroundings :=
      ⟨halGpioWritePin, fun n => (activities n).filterMap Activity.write?, floating⟩
    let after := calls.foldl (Panel.backend env).call (Panel.lcdInit env ⟨controller, outputs, 0⟩)
    after.outputs.level pin =
      lastState gpioIndex ((List.range after.writes).flatMap activities) (outputs.level pin) := by
  intro env after
  have hstart : OthersKept env outputs ⟨controller, outputs, 0⟩ := fun _ _ => rfl
  have hbefore : othersBefore env after.writes =
      ((List.range after.writes).flatMap activities).filterMap Activity.write? :=
    (List.filterMap_flatMap ..).symm
  rw [((hstart.lcdInit hhal).calls hhal calls) pin (ofOthers_gpioPin hpin), hbefore,
    levelAfter_activities hpin]

/-- The client switches the output 5 on and, while `lcd_init` is running, off again. -/
theorem gpio_keeps_state_ws2812 :
    let activities : Nat → List Activity := fun n =>
      if n = 0 then [.gpioSetState 5#8 1#8] else if n = 3 then [.gpioSetState 5#8 0#8] else []
    let env : Surroundings :=
      ⟨bsrrWritePin, fun n => (activities n).filterMap Activity.write?, fun _ => 0#4⟩
    let controller : Controller := ⟨⟨0, 0, fun _ => 0#8, 0, []⟩, ⟨.eight, none, 0⟩⟩
    let after := Panel.lcdInit env ⟨controller, fun _ => 0#16, 0⟩
    after.outputs.level .ws2812 =
      lastState 5#8 ((List.range after.writes).flatMap activities) false :=
  gpio_keeps_state setsOwnPin_bsrrWritePin (fun n =>
    if n = 0 then [.gpioSetState 5#8 1#8] else if n = 3 then [.gpioSetState 5#8 0#8] else [])
    (fun _ => 0#4) ⟨⟨0, 0, fun _ => 0#8, 0, []⟩, ⟨.eight, none, 0⟩⟩ (fun _ => 0#16) [] rfl

end WindradLogger.Display
