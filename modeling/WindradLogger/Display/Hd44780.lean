import Mathlib.Logic.Function.Basic
import Mathlib.Data.List.Basic

set_option autoImplicit false

/-!
# The LCD driver and its controller (`hd44780.c`)

The driver keeps a cursor, the static variables `Row` and `Column`.  The
controller keeps its own: an address counter, which a command sets and every data
byte advances.  The module has four rows of twenty cells, but the memory of the
controller is two lines of forty addresses, so the third row continues the first
and the fourth the second.

The two cursors stay in step: while the cursor of the driver is on the display,
the address counter is the address of its cell, and nothing is ever stored
anywhere else.  Timing and the order of the two nibbles of a byte are left out.
-/

namespace WindradLogger.Display

/-- A `char` or `uint8_t`. -/
abbrev Byte : Type := BitVec 8

/-- `_LCD_ROWS` -/
abbrev lcdRows : Nat := 4

/-- The display has a first row. -/
instance : @NeZero Nat Zero.ofOfNat0 lcdRows := ⟨by decide⟩

/-- `_LCD_COLS` -/
abbrev lcdCols : Nat := 20

/-- A data byte that was sent: the cursor of the driver at that moment, and the
address at which the controller stored it. -/
structure DataWrite where
  row : Nat
  column : Nat
  address : Nat
  data : Byte
  deriving DecidableEq

/-- The static variables of the driver, and the controller. -/
structure Lcd where
  /-- `Row` -/
  row : Nat
  /-- `Column` -/
  column : Nat
  /-- the memory of the controller -/
  ddram : Nat → Byte
  /-- the address counter -/
  ac : Nat
  /-- every data byte sent so far, which the code does not keep -/
  sent : List DataWrite

/-! ## The controller -/

/-- The address counter after a data byte: the two lines are `0x00`-`0x27` and
`0x40`-`0x67`. -/
def nextAddress (a : Nat) : Nat :=
  if a = 0x27 then 0x40 else if a = 0x67 then 0x00 else a + 1

/-- What the display shows where nothing is stored. -/
def blankCell : Byte := 0x20#8

/-- A command: with the highest bit set it carries an address, `0x01` clears the
display, and the others do not concern memory or address counter. -/
def Lcd.execute (lcd : Lcd) (command : Byte) : Lcd :=
  if 0x80 ≤ command.toNat then { lcd with ac := command.toNat - 0x80 }
  else if command = 0x01#8 then { lcd with ddram := fun _ => blankCell, ac := 0 }
  else lcd

/-- A data byte is stored at the address counter. -/
def Lcd.store (lcd : Lcd) (data : Byte) : Lcd :=
  { lcd with
    ddram := Function.update lcd.ddram lcd.ac data
    ac := nextAddress lcd.ac
    sent := lcd.sent ++ [{ row := lcd.row, column := lcd.column, address := lcd.ac, data := data }] }

/-! ## The driver -/

/-- `lcd_write`: bit 0 of `reg` selects data, bit 3 sends the high nibble only. -/
def lcdWrite (reg dat : Byte) (lcd : Lcd) : Lcd :=
  if reg.getLsbD 0 then lcd.store dat
  else lcd.execute (if reg.getLsbD 3 then dat &&& 0xF0#8 else dat)

/-- `lcd_init` -/
def lcdInit (lcd : Lcd) : Lcd :=
  let lcd := lcdWrite 8#8 0x30#8 lcd
  let lcd := lcdWrite 8#8 0x30#8 lcd
  let lcd := lcdWrite 8#8 0x30#8 lcd
  let d := 0x28#8
  let lcd := lcdWrite 8#8 d lcd
  let lcd := lcdWrite 0#8 d lcd
  let lcd := lcdWrite 0#8 0x08#8 lcd
  let lcd := lcdWrite 0#8 0x01#8 lcd
  let lcd := lcdWrite 0#8 0x06#8 lcd
  let lcd := lcdWrite 0#8 0x0C#8 lcd
  { lcd with row := 0, column := 0 }

/-- `lcd_locate`; both parameters are of type `uint8_t`. -/
def lcdLocate (col row : Nat) (lcd : Lcd) : Lcd :=
  let row := row % 256
  let col := col % 256
  let lcd := { lcd with row := row, column := col }
  let command :=
    if row < lcdRows ∧ col < lcdCols then
      let col := if row.testBit 0 then col + 0x40 else col
      let col := if row.testBit 1 then col + lcdCols else col
      col ||| 0x80
    else 0x0C
  lcdWrite 0#8 (BitVec.ofNat 8 command) lcd

/-- `'\f'` -/
def formFeed : Byte := 0x0C#8
/-- `'\n'` -/
def newLine : Byte := 0x0A#8
/-- `'\r'` -/
def carriageReturn : Byte := 0x0D#8
/-- `'\b'` -/
def backspace : Byte := 0x08#8

/-- `lcd_putc` -/
def lcdPutc (lcd : Lcd) (chr : Byte) : Lcd :=
  if chr = formFeed then lcdLocate 0 0 (lcdWrite 0#8 0x01#8 lcd)
  else if lcdRows ≤ lcd.row then lcd
  else if chr = carriageReturn then lcdLocate lcd.row 0 lcd
  else if chr = newLine then lcdLocate (lcd.row + 1) 0 lcd
  else if chr = backspace then
    if lcd.column ≠ 0 then lcdLocate lcd.row (lcd.column - 1) lcd else lcd
  else if lcdCols ≤ lcd.column then lcd
  else
    let lcd := lcdWrite 5#8 chr lcd
    let lcd := { lcd with column := lcd.column + 1 }
    if lcdCols ≤ lcd.column then lcdLocate (lcd.row + 1) 0 lcd else lcd

/-- `lcd_putsn` -/
def lcdPutsn (buffer : List Byte) (n : Nat) (lcd : Lcd) : Lcd :=
  (buffer.take n).foldl lcdPutc lcd

/-- `lcd_puts`, which stops at the first NUL -/
def lcdPuts : List Byte → Lcd → Lcd
  | [], lcd => lcd
  | chr :: rest, lcd => if chr = 0#8 then lcd else lcdPuts rest (lcdPutc lcd chr)

theorem lcdPuts_eq (buffer : List Byte) (lcd : Lcd) :
    lcdPuts buffer lcd = (buffer.takeWhile (· ≠ 0#8)).foldl lcdPutc lcd := by
  induction buffer generalizing lcd with
  | nil => rfl
  | cons chr rest ih =>
      rw [lcdPuts, List.takeWhile_cons]
      by_cases hchr : chr = 0#8
      · simp [hchr]
      · simp [hchr, ih]

/-! ## Cells -/

/-- The address of the first cell of a row. -/
def rowStart : Nat → Nat
  | 0 => 0x00
  | 1 => 0x40
  | 2 => 0x14
  | _ => 0x54

/-- The address of a cell of the display. -/
def cellAddress (row column : Nat) : Nat := rowStart row + column

theorem rowStart_cases {row : Nat} (h : row < 4) :
    row = 0 ∧ rowStart row = 0x00 ∨ row = 1 ∧ rowStart row = 0x40 ∨
      row = 2 ∧ rowStart row = 0x14 ∨ row = 3 ∧ rowStart row = 0x54 := by
  match row, h with
  | 0, _ => exact Or.inl ⟨rfl, rfl⟩
  | 1, _ => exact Or.inr (Or.inl ⟨rfl, rfl⟩)
  | 2, _ => exact Or.inr (Or.inr (Or.inl ⟨rfl, rfl⟩))
  | 3, _ => exact Or.inr (Or.inr (Or.inr ⟨rfl, rfl⟩))

/-- Different cells have different addresses. -/
theorem cellAddress_inj {row row' column column' : Nat} (hrow : row < 4) (hrow' : row' < 4)
    (hcolumn : column < 20) (hcolumn' : column' < 20)
    (h : cellAddress row column = cellAddress row' column') : row = row' ∧ column = column' := by
  unfold cellAddress at h
  rcases rowStart_cases hrow with hr | hr | hr | hr <;>
    rcases rowStart_cases hrow' with hr' | hr' | hr' | hr' <;> omega

/-- Within a row the address counter moves on as the cursor does. -/
theorem nextAddress_cellAddress {row column : Nat} (hrow : row < 4) (hcolumn : column + 1 < 20) :
    nextAddress (cellAddress row column) = cellAddress row (column + 1) := by
  unfold nextAddress cellAddress
  rcases rowStart_cases hrow with ⟨-, hstart⟩ | ⟨-, hstart⟩ | ⟨-, hstart⟩ | ⟨-, hstart⟩ <;>
    rw [hstart, if_neg (by omega), if_neg (by omega), Nat.add_assoc]

/-! ## What the functions of the driver do -/

theorem lcdWrite_data (chr : Byte) (lcd : Lcd) : lcdWrite 5#8 chr lcd = lcd.store chr := by
  have hbit : (5#8).getLsbD 0 = true := by decide
  rw [lcdWrite, hbit, if_pos rfl]

theorem lcdWrite_command (command : Byte) (lcd : Lcd) :
    lcdWrite 0#8 command lcd = lcd.execute command := by
  rw [lcdWrite, BitVec.getLsbD_zero, BitVec.getLsbD_zero, if_neg Bool.false_ne_true,
    if_neg Bool.false_ne_true]

theorem lcdWrite_clear (lcd : Lcd) :
    lcdWrite 0#8 0x01#8 lcd = { lcd with ddram := fun _ => blankCell, ac := 0 } := by
  rw [lcdWrite_command, Lcd.execute, if_neg (by decide), if_pos rfl]

theorem execute_address {a : Nat} (ha : a < 0x80) (lcd : Lcd) :
    lcd.execute (BitVec.ofNat 8 (a ||| 0x80)) = { lcd with ac := a } := by
  have hor : a ||| 0x80 = 0x80 + a := by
    rw [Nat.or_comm]
    exact (Nat.two_pow_add_eq_or_of_lt (i := 7) ha 1).symm
  have hnat : (BitVec.ofNat 8 (a ||| 0x80)).toNat = 0x80 + a := by
    rw [BitVec.toNat_ofNat, hor, Nat.mod_eq_of_lt (by omega)]
  rw [Lcd.execute, hnat, if_pos (Nat.le_add_right _ _), Nat.add_sub_cancel_left]

/-- The arithmetic of `lcd_locate` arrives at the address of the cell. -/
theorem locate_address {row : Nat} (hrow : row < 4) (col : Nat) :
    (if row.testBit 1 then (if row.testBit 0 then col + 0x40 else col) + 20
      else if row.testBit 0 then col + 0x40 else col) = cellAddress row col := by
  match row, hrow with
  | 0, _ => exact (Nat.zero_add col).symm
  | 1, _ => exact Nat.add_comm col 0x40
  | 2, _ => exact Nat.add_comm col 20
  | 3, _ => exact Nat.add_comm col (0x40 + 20)

/-- A position on the display sets the address counter to its cell. -/
theorem lcdLocate_inside {col row : Nat} (lcd : Lcd) (hrow : row < 4) (hcol : col < 20) :
    lcdLocate col row lcd =
      { lcd with row := row, column := col, ac := cellAddress row col } := by
  have hrow' : row % 256 = row := Nat.mod_eq_of_lt (by omega)
  have hcol' : col % 256 = col := Nat.mod_eq_of_lt (by omega)
  have haddress : cellAddress row col < 0x80 := by
    unfold cellAddress
    rcases rowStart_cases hrow with hr | hr | hr | hr <;> omega
  unfold lcdLocate
  simp only [hrow', hcol', lcdWrite_command, lcdRows, lcdCols, hrow, hcol, and_self, if_true]
  rw [locate_address hrow, execute_address haddress]

/-- Any other position only moves the cursor of the driver. -/
theorem lcdLocate_outside {col row : Nat} (lcd : Lcd)
    (h : ¬ (row % 256 < 4 ∧ col % 256 < 20)) :
    lcdLocate col row lcd = { lcd with row := row % 256, column := col % 256 } := by
  unfold lcdLocate
  simp only [lcdWrite_command, lcdRows, lcdCols, h, if_false]
  rw [Lcd.execute, if_neg (by decide), if_neg (by decide)]

theorem lcdLocate_mod (col row : Nat) (lcd : Lcd) :
    lcdLocate (col % 256) (row % 256) lcd = lcdLocate col row lcd := by
  unfold lcdLocate
  rw [Nat.mod_mod, Nat.mod_mod]

/-- A character that `lcd_putc` sends to the display. -/
structure Ordinary (chr : Byte) : Prop where
  notFormFeed : chr ≠ formFeed
  notCarriageReturn : chr ≠ carriageReturn
  notNewLine : chr ≠ newLine
  notBackspace : chr ≠ backspace

instance (chr : Byte) : Decidable (Ordinary chr) :=
  decidable_of_iff (chr ≠ formFeed ∧ chr ≠ carriageReturn ∧ chr ≠ newLine ∧ chr ≠ backspace)
    ⟨fun ⟨h₁, h₂, h₃, h₄⟩ => ⟨h₁, h₂, h₃, h₄⟩, fun ⟨h₁, h₂, h₃, h₄⟩ => ⟨h₁, h₂, h₃, h₄⟩⟩

theorem lcdPutc_formFeed (lcd : Lcd) :
    lcdPutc lcd formFeed =
      { lcd with row := 0, column := 0, ddram := fun _ => blankCell, ac := 0 } := by
  rw [lcdPutc, if_pos rfl, lcdWrite_clear, lcdLocate_inside _ (by decide) (by decide)]
  rfl

theorem lcdPutc_below {lcd : Lcd} (hrow : 4 ≤ lcd.row) {chr : Byte} (h : chr ≠ formFeed) :
    lcdPutc lcd chr = lcd := by
  rw [lcdPutc, if_neg h, if_pos hrow]

theorem lcdPutc_carriageReturn {lcd : Lcd} (hrow : lcd.row < 4) :
    lcdPutc lcd carriageReturn = lcdLocate lcd.row 0 lcd := by
  rw [lcdPutc, if_neg (by decide), if_neg (Nat.not_le.mpr hrow), if_pos rfl]

theorem lcdPutc_newLine {lcd : Lcd} (hrow : lcd.row < 4) :
    lcdPutc lcd newLine = lcdLocate (lcd.row + 1) 0 lcd := by
  rw [lcdPutc, if_neg (by decide), if_neg (Nat.not_le.mpr hrow), if_neg (by decide), if_pos rfl]

theorem lcdPutc_backspace {lcd : Lcd} (hrow : lcd.row < 4) :
    lcdPutc lcd backspace =
      if lcd.column ≠ 0 then lcdLocate lcd.row (lcd.column - 1) lcd else lcd := by
  rw [lcdPutc, if_neg (by decide), if_neg (Nat.not_le.mpr hrow), if_neg (by decide),
    if_neg (by decide), if_pos rfl]

theorem lcdPutc_beside {lcd : Lcd} (hrow : lcd.row < 4) (hcolumn : 20 ≤ lcd.column) {chr : Byte}
    (h : Ordinary chr) : lcdPutc lcd chr = lcd := by
  rw [lcdPutc, if_neg h.notFormFeed, if_neg (Nat.not_le.mpr hrow), if_neg h.notCarriageReturn,
    if_neg h.notNewLine, if_neg h.notBackspace, if_pos hcolumn]

/-- An ordinary character is stored, and the cursor moves on or, at the end of
the row, is set by `lcd_locate`. -/
theorem lcdPutc_ordinary {lcd : Lcd} (hrow : lcd.row < 4) (hcolumn : lcd.column < 20) {chr : Byte}
    (h : Ordinary chr) :
    lcdPutc lcd chr =
      if 20 ≤ lcd.column + 1 then
        lcdLocate (lcd.row + 1) 0 { lcd.store chr with column := lcd.column + 1 }
      else { lcd.store chr with column := lcd.column + 1 } := by
  rw [lcdPutc, if_neg h.notFormFeed, if_neg (Nat.not_le.mpr hrow), if_neg h.notCarriageReturn,
    if_neg h.notNewLine, if_neg h.notBackspace, if_neg (Nat.not_le.mpr hcolumn), lcdWrite_data]
  rfl

/-! ## In step -/

/-- Every byte sent was stored in the cell of the cursor, and nothing is stored
outside the cells of the display. -/
structure Contained (lcd : Lcd) : Prop where
  sent : ∀ write ∈ lcd.sent, write.row < lcdRows ∧ write.column < lcdCols ∧
    write.address = cellAddress write.row write.column
  outside : ∀ a, (∀ row column, row < lcdRows → column < lcdCols → a ≠ cellAddress row column) →
    lcd.ddram a = blankCell

/-- The address counter is at the cell of the cursor while that is on the
display, and always was when a byte was sent. -/
structure InStep (lcd : Lcd) : Prop where
  address : lcd.row < lcdRows → lcd.column < lcdCols → lcd.ac = cellAddress lcd.row lcd.column
  contained : Contained lcd

/-- `lcd_locate` brings the two cursors together, wherever they were. -/
theorem inStep_lcdLocate (col row : Nat) {lcd : Lcd} (h : Contained lcd) :
    InStep (lcdLocate col row lcd) := by
  by_cases hinside : row % 256 < 4 ∧ col % 256 < 20
  · rw [← lcdLocate_mod, lcdLocate_inside lcd hinside.1 hinside.2]
    exact ⟨fun _ _ => rfl, h.sent, h.outside⟩
  · rw [lcdLocate_outside lcd hinside]
    exact ⟨fun hrow hcol => absurd ⟨hrow, hcol⟩ hinside, h.sent, h.outside⟩

/-- A byte sent while the cursor is on the display goes to its cell. -/
theorem contained_store {lcd : Lcd} (h : InStep lcd) (hrow : lcd.row < 4)
    (hcolumn : lcd.column < 20) (data : Byte) : Contained (lcd.store data) := by
  have hac := h.address hrow hcolumn
  refine ⟨?_, ?_⟩
  · intro write hmem
    rcases List.mem_append.mp hmem with hold | hnew
    · exact h.contained.sent write hold
    · rw [List.mem_singleton.mp hnew]
      exact ⟨hrow, hcolumn, hac⟩
  · intro a houtside
    have hne : a ≠ lcd.ac := by
      rw [hac]
      exact houtside lcd.row lcd.column hrow hcolumn
    have hkept : (lcd.store data).ddram a = lcd.ddram a := Function.update_of_ne hne _ _
    rw [hkept]
    exact h.contained.outside a houtside

/-- One character keeps the two cursors in step. -/
theorem inStep_lcdPutc {lcd : Lcd} (h : InStep lcd) (chr : Byte) : InStep (lcdPutc lcd chr) := by
  rcases eq_or_ne chr formFeed with rfl | hff
  · rw [lcdPutc_formFeed]
    exact ⟨fun _ _ => rfl, h.contained.sent, fun _ _ => rfl⟩
  rcases Nat.lt_or_ge lcd.row 4 with hrow | hrow
  swap
  · rw [lcdPutc_below hrow hff]
    exact h
  rcases eq_or_ne chr carriageReturn with rfl | hcr
  · rw [lcdPutc_carriageReturn hrow]
    exact inStep_lcdLocate _ _ h.contained
  rcases eq_or_ne chr newLine with rfl | hnl
  · rw [lcdPutc_newLine hrow]
    exact inStep_lcdLocate _ _ h.contained
  rcases eq_or_ne chr backspace with rfl | hbs
  · rw [lcdPutc_backspace hrow]
    split
    · exact inStep_lcdLocate _ _ h.contained
    · exact h
  have hordinary : Ordinary chr := ⟨hff, hcr, hnl, hbs⟩
  rcases Nat.lt_or_ge lcd.column 20 with hcolumn | hcolumn
  · rw [lcdPutc_ordinary hrow hcolumn hordinary]
    have hcontained := contained_store h hrow hcolumn chr
    split
    · exact inStep_lcdLocate _ _ ⟨hcontained.sent, hcontained.outside⟩
    · -- The address counter moves on within the row.
      rename_i hlast
      refine ⟨fun _ _ => ?_, hcontained.sent, hcontained.outside⟩
      have hac := h.address hrow hcolumn
      have hnext := nextAddress_cellAddress hrow (Nat.lt_of_not_le hlast)
      rw [← hac] at hnext
      exact hnext
  · rw [lcdPutc_beside hrow hcolumn hordinary]
    exact h

theorem inStep_foldl_lcdPutc (text : List Byte) {lcd : Lcd} (h : InStep lcd) :
    InStep (text.foldl lcdPutc lcd) := by
  induction text generalizing lcd with
  | nil => exact h
  | cons chr rest ih => exact ih (inStep_lcdPutc h chr)

/-! ## Runs -/

/-- Driver and controller before `lcd_init`: any memory and any cursors. -/
def powerUp (row column ac : Nat) (ddram : Nat → Byte) : Lcd :=
  { row := row, column := column, ddram := ddram, ac := ac, sent := [] }

theorem inStep_lcdInit (row column ac : Nat) (ddram : Nat → Byte) :
    InStep (lcdInit (powerUp row column ac ddram)) := by
  refine ⟨fun _ _ => rfl, ?_, fun _ _ => rfl⟩
  intro write hmem
  cases hmem

/-- A call from outside the driver. -/
inductive LcdCall where
  | putc (chr : Byte)
  | puts (buffer : List Byte)
  | putsn (buffer : List Byte) (n : Nat)
  | locate (col row : Byte)

def lcdCall (lcd : Lcd) : LcdCall → Lcd
  | .putc chr => lcdPutc lcd chr
  | .puts buffer => lcdPuts buffer lcd
  | .putsn buffer n => lcdPutsn buffer n lcd
  | .locate col row => lcdLocate col.toNat row.toNat lcd

theorem inStep_lcdCall {lcd : Lcd} (h : InStep lcd) (call : LcdCall) :
    InStep (lcdCall lcd call) := by
  cases call with
  | putc chr => exact inStep_lcdPutc h chr
  | puts buffer =>
      rw [lcdCall, lcdPuts_eq]
      exact inStep_foldl_lcdPutc _ h
  | putsn buffer n => exact inStep_foldl_lcdPutc _ h
  | locate col row => exact inStep_lcdLocate _ _ h.contained

/-- After `lcd_init` and any calls, driver and controller are in step. -/
theorem inStep_after_calls (row column ac : Nat) (ddram : Nat → Byte) (calls : List LcdCall) :
    InStep (calls.foldl lcdCall (lcdInit (powerUp row column ac ddram))) := by
  have hinit := inStep_lcdInit row column ac ddram
  generalize lcdInit (powerUp row column ac ddram) = start at hinit
  induction calls generalizing start with
  | nil => exact hinit
  | cons call rest ih => exact ih _ (inStep_lcdCall hinit call)

end WindradLogger.Display
