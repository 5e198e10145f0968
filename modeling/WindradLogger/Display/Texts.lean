import WindradLogger.Lib.Store
import WindradLogger.Lib.Run
import WindradLogger.Display.Hd44780

set_option autoImplicit false

/-!
# Texts from the remote side (`task_display.c`)

The remote side sends texts row by row, for the custom screen and for the
screens of `sysstat`.  They are kept in two tables of rows of 20 bytes without
terminator, one row behind the other in memory.  Cells of a table are given by
their index; what has an index from the size of the table on is the memory behind
it.

The tables hold, row by row, the text that was stored last.
-/

namespace WindradLogger.Display

open WindradLogger.Lib

/-- `COUNT_OF_POSSIBLE_SYSSTAT_SCREENS` -/
abbrev countOfPossibleSysstatScreens : Nat := 3

/-- A text of `_LCD_COLS` bytes. -/
abbrev Row : Type := Fin lcdCols → Byte

/-- The row of zeros. -/
def zeroRow : Row := fun _ => 0#8

/-- `sysstat_screen`, `used_sysstat_screens` and `custom_screen_buffer` -/
structure Texts where
  sysstatScreen : Nat → Byte
  usedSysstatScreens : Nat
  customScreenBuffer : Nat → Byte

/-- `sizeof(custom_screen_buffer)` -/
def sizeofCustomScreenBuffer : Nat := lcdRows * lcdCols

/-- `sizeof(sysstat_screen)` -/
def sizeofSysstatScreen : Nat := countOfPossibleSysstatScreens * lcdRows * lcdCols

/-! ## The functions -/

/-- `memcpy(table + offset, text, _LCD_COLS)` -/
def copyRow (table : Nat → Byte) (offset : Nat) (text : Row) : Nat → Byte := fun i =>
  if h : offset ≤ i ∧ i < offset + lcdCols then text ⟨i - offset, by omega⟩ else table i

/-- `display_custom_screen_write_text` -/
def displayCustomScreenWriteText (row : Byte) (text : Row) (t : Texts) : Texts :=
  { t with customScreenBuffer := copyRow t.customScreenBuffer (row.toNat * lcdCols) text }

/-- `display_custom_screen_clear` -/
def displayCustomScreenClear (t : Texts) : Texts :=
  { t with customScreenBuffer := fun i =>
      if i < sizeofCustomScreenBuffer then 0#8 else t.customScreenBuffer i }

/-- `display_set_sysstat_screen_`; `none` is a failed `assert`. -/
def displaySetSysstatScreen (countOfScreens screenIndex row : Byte) (text : Row) (t : Texts) :
    Option Texts :=
  if countOfScreens.toNat ≤ countOfPossibleSysstatScreens ∧
      screenIndex.toNat < countOfPossibleSysstatScreens then
    some { t with
      usedSysstatScreens := countOfScreens.toNat
      sysstatScreen :=
        copyRow t.sysstatScreen ((screenIndex.toNat * lcdRows + row.toNat) * lcdCols) text }
  else none

/-- When no `assert` fails, the text goes to its place. -/
theorem displaySetSysstatScreen_eq_some_iff {countOfScreens screenIndex row : Byte} {text : Row}
    {t t' : Texts} :
    displaySetSysstatScreen countOfScreens screenIndex row text t = some t' ↔
      (countOfScreens.toNat ≤ countOfPossibleSysstatScreens ∧
        screenIndex.toNat < countOfPossibleSysstatScreens) ∧
      t' = { t with
        usedSysstatScreens := countOfScreens.toNat
        sysstatScreen :=
          copyRow t.sysstatScreen ((screenIndex.toNat * lcdRows + row.toNat) * lcdCols) text } := by
  rw [displaySetSysstatScreen]
  split
  · rename_i hpass
    rw [Option.some_inj]
    exact ⟨fun h => ⟨hpass, h.symm⟩, fun h => h.2.symm⟩
  · rename_i hfail
    exact ⟨nofun, fun h => absurd h.1 hfail⟩

/-! ## Rows -/

/-- Row `n` of a table. -/
def rowOf (table : Nat → Byte) (n : Nat) : Row := fun k => table (n * lcdCols + k)

/-- Copying to the place of a row replaces that row and no other. -/
theorem rowOf_copyRow (table : Nat → Byte) (n m : Nat) (text : Row) :
    rowOf (copyRow table (n * lcdCols) text) m = if m = n then text else rowOf table m := by
  funext k
  have hk := k.isLt
  simp only [rowOf, copyRow, lcdCols] at hk ⊢
  split
  · rename_i hinside
    have hsame : m = n := by omega
    subst hsame
    rw [if_pos rfl]
    congr 1
    exact Fin.ext (Nat.add_sub_cancel_left _ _)
  · rename_i houtside
    have hother : m ≠ n := by omega
    rw [if_neg hother]
    rfl

/-- The memory behind a table stays as it is when the row is one of the table. -/
theorem copyRow_behind (table : Nat → Byte) {n rows : Nat} (hn : n < rows) (text : Row) {i : Nat}
    (hi : rows * lcdCols ≤ i) : copyRow table (n * lcdCols) text i = table i := by
  simp only [copyRow, lcdCols] at hi ⊢
  rw [dif_neg (by omega)]

/-- The row `row` of a screen of `sysstat`. -/
def sysstatRow (t : Texts) (screen row : Nat) : Row :=
  rowOf t.sysstatScreen (screen * lcdRows + row)

/-- The row `row` of the custom screen. -/
def customRow (t : Texts) (row : Nat) : Row := rowOf t.customScreenBuffer row

/-! ## What was stored last -/

/-- A call that stores a text. -/
inductive TextCall where
  | writeText (row : Byte) (text : Row)
  | setSysstatScreen (countOfScreens screenIndex row : Byte) (text : Row)

/-- The row of a screen, of the custom one or of one of `sysstat`. -/
inductive Place where
  | custom (row : Nat)
  | sysstat (screen row : Nat)
  deriving DecidableEq

namespace TextCall

/-- The row that a call is about. -/
def place : TextCall → Place
  | writeText row _ => .custom row.toNat
  | setSysstatScreen _ screenIndex row _ => .sysstat screenIndex.toNat row.toNat

def text : TextCall → Row
  | writeText _ text => text
  | setSysstatScreen _ _ _ text => text

/-- The row exists, and the screen is one of those in use. -/
def InRange : TextCall → Prop
  | writeText row _ => row.toNat < lcdRows
  | setSysstatScreen countOfScreens screenIndex row _ =>
      row.toNat < lcdRows ∧ screenIndex.toNat < countOfScreens.toNat ∧
        countOfScreens.toNat ≤ countOfPossibleSysstatScreens

end TextCall

/-- The tables after a call; a failed `assert` leaves them as they are. -/
def textStep (t : Texts) : TextCall → Texts
  | .writeText row text => displayCustomScreenWriteText row text t
  | .setSysstatScreen countOfScreens screenIndex row text =>
      (displaySetSysstatScreen countOfScreens screenIndex row text t).getD t

/-- The text of a row. -/
def textAt (t : Texts) : Place → Row
  | .custom row => customRow t row
  | .sysstat screen row => sysstatRow t screen row

/-- A row of a screen that exists. -/
def Place.Exists : Place → Prop
  | custom row => row < lcdRows
  | sysstat screen row => screen < countOfPossibleSysstatScreens ∧ row < lcdRows

theorem textAt_writeText (row : Byte) (text : Row) (t : Texts) (place : Place) :
    textAt (displayCustomScreenWriteText row text t) place =
      if place = .custom row.toNat then text else textAt t place := by
  cases place with
  | custom row' =>
      simp only [textAt, customRow, displayCustomScreenWriteText, rowOf_copyRow,
        Place.custom.injEq]
  | sysstat screen row' => exact (if_neg (by simp)).symm

theorem textAt_setSysstatScreen {count screenIndex row : Byte} {text : Row} {t t' : Texts}
    (h : displaySetSysstatScreen count screenIndex row text t = some t')
    (hrow : row.toNat < lcdRows) {place : Place} (hplace : place.Exists) :
    textAt t' place =
      if place = .sysstat screenIndex.toNat row.toNat then text else textAt t place := by
  obtain ⟨-, rfl⟩ := displaySetSysstatScreen_eq_some_iff.mp h
  cases place with
  | custom row' => exact (if_neg (by simp)).symm
  | sysstat screen row' =>
      obtain ⟨-, hrow'⟩ := hplace
      have hplaces : screen * lcdRows + row' = screenIndex.toNat * lcdRows + row.toNat ↔
          Place.sysstat screen row' = Place.sysstat screenIndex.toNat row.toNat := by
        rw [Place.sysstat.injEq]
        simp only [lcdRows] at hrow hrow' ⊢
        omega
      simp only [textAt, sysstatRow, rowOf_copyRow]
      exact if_congr hplaces rfl rfl

/-- A call stores its text in its row, and no other text changes. -/
theorem textAt_textStep {call : TextCall} (h : call.InRange) (t : Texts) {place : Place}
    (hplace : place.Exists) :
    textAt (textStep t call) place = if place = call.place then call.text else textAt t place := by
  cases call with
  | writeText row text => exact textAt_writeText row text t place
  | setSysstatScreen count screenIndex row text =>
      obtain ⟨hrow, hindex, hcount⟩ := h
      obtain ⟨t', hstored⟩ : ∃ t', displaySetSysstatScreen count screenIndex row text t = some t' :=
        ⟨_, displaySetSysstatScreen_eq_some_iff.mpr
          ⟨⟨hcount, Nat.lt_of_lt_of_le hindex hcount⟩, rfl⟩⟩
      rw [textStep, hstored, Option.getD_some]
      exact textAt_setSysstatScreen hstored hrow hplace

/-- The tables at start: zeros, with whatever lies behind them. -/
def startTexts (behind : Nat → Byte) : Texts :=
  { sysstatScreen := fun i => if i < sizeofSysstatScreen then 0#8 else behind i
    usedSysstatScreens := 0
    customScreenBuffer := fun i => if i < sizeofCustomScreenBuffer then 0#8 else behind i }

/-- The text last stored in a row, or zeros. -/
def lastText (calls : List TextCall) (place : Place) : Row :=
  (Store.lastWrite (calls.map fun call => (call.place, call.text)) place).getD zeroRow

theorem textAt_startTexts (behind : Nat → Byte) {place : Place} (h : place.Exists) :
    textAt (startTexts behind) place = zeroRow := by
  funext k
  have hk := k.isLt
  cases place with
  | custom row =>
      have hrow : row < lcdRows := h
      have hinside : row * lcdCols + k < sizeofCustomScreenBuffer := by
        simp only [sizeofCustomScreenBuffer, lcdRows, lcdCols] at hrow hk ⊢
        omega
      exact if_pos hinside
  | sysstat screen row =>
      obtain ⟨hscreen, hrow⟩ := h
      have hinside : (screen * lcdRows + row) * lcdCols + k < sizeofSysstatScreen := by
        simp only [sizeofSysstatScreen, countOfPossibleSysstatScreens, lcdRows, lcdCols]
          at hscreen hrow hk ⊢
        omega
      exact if_pos hinside

/-- After any calls every row holds the text that was stored in it last. -/
theorem textAt_after_calls (behind : Nat → Byte) (calls : List TextCall)
    (hcalls : ∀ call ∈ calls, call.InRange) {place : Place} (h : place.Exists) :
    textAt (calls.foldl textStep (startTexts behind)) place = lastText calls place := by
  have hgeneral : ∀ t : Texts, textAt (calls.foldl textStep t) place =
      (Store.lastWrite (calls.map fun call => (call.place, call.text)) place).getD
        (textAt t place) := by
    induction calls with
    | nil =>
        intro t
        rfl
    | cons call rest ih =>
        intro t
        rw [List.foldl_cons, ih fun c hmem => hcalls c (List.mem_cons_of_mem _ hmem),
          textAt_textStep (hcalls call List.mem_cons_self) t h, List.map_cons, Store.lastWrite]
        cases Store.lastWrite (rest.map fun call => (call.place, call.text)) place with
        | some text => rfl
        | none =>
            rw [Option.none_or, Option.getD_none]
            by_cases hplace : place = call.place
            · rw [if_pos hplace, if_pos hplace.symm, Option.getD_some]
            · rw [if_neg hplace, if_neg (Ne.symm hplace), Option.getD_none]
  rw [hgeneral, textAt_startTexts behind h, lastText]

end WindradLogger.Display
