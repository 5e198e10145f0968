import WindradLogger.Lib.Run
import WindradLogger.Display.Hd44780
import Mathlib.Data.List.TakeWhile

set_option autoImplicit false

/-!
# The display as a terminal (`hd44780.c`)

The characters of a text are meant to act as on a terminal of four rows: they are
stored at the cursor and move it, and the control characters do what they are
called after.  `lcd_putc` leaves all movements but the plain step to the right to
`lcd_locate`, whose first parameter is the column, and passes the row first.  So
the cursor goes astray whenever the two are not the same.
-/

namespace WindradLogger.Display

open WindradLogger.Lib

/-- A terminal: what its cells show, and its cursor. -/
structure Terminal where
  cells : Fin lcdRows → Fin lcdCols → Byte
  row : Nat
  column : Nat

/-- What a character is meant to do.  Below the last row only `'\f'` does
anything. -/
def Terminal.put (t : Terminal) (chr : Byte) : Terminal :=
  if chr = formFeed then { cells := fun _ _ => blankCell, row := 0, column := 0 }
  else if lcdRows ≤ t.row then t
  else if chr = newLine then { t with row := t.row + 1, column := 0 }
  else if chr = carriageReturn then { t with column := 0 }
  else if chr = backspace then { t with column := t.column - 1 }
  else
    let cells := fun r c => if r.val = t.row ∧ c.val = t.column then chr else t.cells r c
    if t.column = 19 then { cells := cells, row := t.row + 1, column := 0 }
    else { cells := cells, row := t.row, column := t.column + 1 }

/-- The display as a terminal. -/
def Lcd.shows (lcd : Lcd) : Terminal :=
  { cells := fun r c => lcd.ddram (cellAddress r c), row := lcd.row, column := lcd.column }

/-- The cursor is on the display and the address counter at its cell. -/
structure AtCell (lcd : Lcd) : Prop where
  row : lcd.row < 4
  column : lcd.column < 20
  address : lcd.ac = cellAddress lcd.row lcd.column

/-- A character that moves the cursor to the right, or to where row and column
can be exchanged. -/
def Straight (t : Terminal) (chr : Byte) : Prop :=
  chr = formFeed ∨
    chr ≠ newLine ∧ (chr = carriageReturn → t.row = 0) ∧
      (chr = backspace → t.column = 0 ∨ t.column = t.row + 1) ∧
      (Ordinary chr → t.column ≠ 19)

instance (t : Terminal) (chr : Byte) : Decidable (Straight t chr) :=
  inferInstanceAs (Decidable (_ ∨ _))

theorem atCell_lcdLocate {col row : Nat} (lcd : Lcd) (hrow : row < 4) (hcol : col < 20) :
    AtCell (lcdLocate col row lcd) := by
  rw [lcdLocate_inside lcd hrow hcol]
  exact ⟨hrow, hcol, rfl⟩

@[simp] theorem lcdLocate_cursor (col row : Nat) (lcd : Lcd) :
    (lcdLocate col row lcd).row = row % 256 ∧ (lcdLocate col row lcd).column = col % 256 ∧
      (lcdLocate col row lcd).ddram = lcd.ddram := by
  by_cases hinside : row % 256 < 4 ∧ col % 256 < 20
  · rw [← lcdLocate_mod, lcdLocate_inside lcd hinside.1 hinside.2]
    exact ⟨rfl, rfl, rfl⟩
  · rw [lcdLocate_outside lcd hinside]
    exact ⟨rfl, rfl, rfl⟩

/-- What `lcd_locate` shows differs only in the cursor. -/
theorem shows_lcdLocate (col row : Nat) (lcd : Lcd) :
    (lcdLocate col row lcd).shows =
      { cells := lcd.shows.cells, row := row % 256, column := col % 256 } := by
  obtain ⟨hrow, hcol, hddram⟩ := lcdLocate_cursor col row lcd
  rw [Lcd.shows, hrow, hcol, hddram]
  rfl

/-- A byte stored at the cursor shows in its cell and in no other. -/
theorem cells_store {lcd : Lcd} (h : AtCell lcd) (chr : Byte) :
    (lcd.store chr).shows.cells = fun r c =>
      if r.val = lcd.row ∧ c.val = lcd.column then chr else lcd.shows.cells r c := by
  funext r c
  have hupdate : (lcd.store chr).shows.cells r c =
      if cellAddress r c = lcd.ac then chr else lcd.ddram (cellAddress r c) :=
    Function.update_apply lcd.ddram lcd.ac chr _
  rw [hupdate, h.address]
  split
  · rename_i hsame
    rw [if_pos (cellAddress_inj r.isLt h.row c.isLt h.column hsame)]
  · rename_i hdiffers
    rw [if_neg fun hcell => hdiffers (by rw [hcell.1, hcell.2])]
    rfl

/-! ## One character -/

namespace Terminal

theorem put_formFeed (t : Terminal) :
    t.put formFeed = { cells := fun _ _ => blankCell, row := 0, column := 0 } := by
  rw [put, if_pos rfl]

variable {t : Terminal} (hrow : t.row < 4)
include hrow

theorem put_newLine : t.put newLine = { t with row := t.row + 1, column := 0 } := by
  rw [put, if_neg (by decide), if_neg (Nat.not_le.mpr hrow), if_pos rfl]

theorem put_carriageReturn : t.put carriageReturn = { t with column := 0 } := by
  rw [put, if_neg (by decide), if_neg (Nat.not_le.mpr hrow), if_neg (by decide), if_pos rfl]

theorem put_backspace : t.put backspace = { t with column := t.column - 1 } := by
  rw [put, if_neg (by decide), if_neg (Nat.not_le.mpr hrow), if_neg (by decide),
    if_neg (by decide), if_pos rfl]

theorem put_ordinary {chr : Byte} (h : Ordinary chr) :
    t.put chr =
      let cells := fun r c => if r.val = t.row ∧ c.val = t.column then chr else t.cells r c
      if t.column = 19 then { cells := cells, row := t.row + 1, column := 0 }
      else { cells := cells, row := t.row, column := t.column + 1 } := by
  rw [put, if_neg h.notFormFeed, if_neg (Nat.not_le.mpr hrow), if_neg h.notNewLine,
    if_neg h.notCarriageReturn, if_neg h.notBackspace]

end Terminal

/-- The four control characters and the others. -/
theorem control_or_ordinary (chr : Byte) :
    chr = formFeed ∨ chr = newLine ∨ chr = carriageReturn ∨ chr = backspace ∨ Ordinary chr := by
  by_cases hordinary : Ordinary chr
  · exact Or.inr (Or.inr (Or.inr (Or.inr hordinary)))
  · by_contra hno
    simp only [not_or] at hno
    exact hordinary ⟨hno.1, hno.2.2.1, hno.2.1, hno.2.2.2.1⟩

/-! ## Straight characters -/

theorem straight_formFeed (t : Terminal) : Straight t formFeed := Or.inl rfl

theorem not_straight_newLine (t : Terminal) : ¬ Straight t newLine := by
  rintro (hff | ⟨hnl, -⟩)
  · cases hff
  · exact hnl rfl

theorem straight_carriageReturn_iff {t : Terminal} : Straight t carriageReturn ↔ t.row = 0 := by
  refine ⟨?_, ?_⟩
  · rintro (hff | ⟨-, hcr, -⟩)
    · cases hff
    · exact hcr rfl
  · intro hrow
    refine Or.inr ⟨by decide, fun _ => hrow, ?_, ?_⟩
    · intro hbs
      cases hbs
    · intro hordinary
      exact absurd rfl hordinary.notCarriageReturn

theorem straight_backspace_iff {t : Terminal} :
    Straight t backspace ↔ t.column = 0 ∨ t.column = t.row + 1 := by
  refine ⟨?_, ?_⟩
  · rintro (hff | ⟨-, -, hbs, -⟩)
    · cases hff
    · exact hbs rfl
  · intro hplace
    refine Or.inr ⟨by decide, ?_, fun _ => hplace, ?_⟩
    · intro hcr
      cases hcr
    · intro hordinary
      exact absurd rfl hordinary.notBackspace

theorem straight_ordinary_iff {t : Terminal} {chr : Byte} (h : Ordinary chr) :
    Straight t chr ↔ t.column ≠ 19 := by
  refine ⟨?_, ?_⟩
  · rintro (hff | ⟨-, -, -, hlast⟩)
    · exact absurd hff h.notFormFeed
    · exact hlast h
  · intro hlast
    exact Or.inr ⟨h.notNewLine, fun hcr => absurd hcr h.notCarriageReturn,
      fun hbs => absurd hbs h.notBackspace, fun _ => hlast⟩

/-! ## One character on the display -/

/-- What `lcd_locate` shows is what a terminal shows exactly when the position is
that of the terminal. -/
theorem shows_lcdLocate_eq_iff {lcd : Lcd} {col row : Nat} (hcol : col < 256) (hrow : row < 256)
    {cells : Fin lcdRows → Fin lcdCols → Byte} (hcells : lcd.shows.cells = cells)
    (row' column' : Nat) :
    (lcdLocate col row lcd).shows = { cells := cells, row := row', column := column' } ↔
      row = row' ∧ col = column' := by
  rw [shows_lcdLocate, Nat.mod_eq_of_lt hrow, Nat.mod_eq_of_lt hcol, hcells, Terminal.mk.injEq]
  exact ⟨fun h => h.2, fun h => ⟨rfl, h⟩⟩

/-- Row and column are exchanged, which shows unless the cursor stays or they are
equal. -/
theorem shows_lcdPutc_backspace_iff {lcd : Lcd} (h : AtCell lcd) :
    (lcdPutc lcd backspace).shows = lcd.shows.put backspace ↔
      lcd.column = 0 ∨ lcd.column = lcd.row + 1 := by
  have hrow := h.row
  have hcolumn := h.column
  have hsame : lcd.row < 256 := by omega
  rw [lcdPutc_backspace hrow, Terminal.put_backspace (t := lcd.shows) hrow]
  split
  · rename_i hpositive
    have hbefore : lcd.column - 1 < 256 := by omega
    rw [shows_lcdLocate_eq_iff hsame hbefore rfl]
    refine ⟨?_, ?_⟩
    · rintro ⟨hr, -⟩
      have hr' : lcd.column - 1 = lcd.row := hr
      exact Or.inr (by omega)
    · rintro (hzero | hplace)
      · exact absurd hzero hpositive
      · exact ⟨show lcd.column - 1 = lcd.row by omega, show lcd.row = lcd.column - 1 by omega⟩
  · rename_i hzero
    have hzero' : lcd.column = 0 := not_not.mp hzero
    refine ⟨fun _ => Or.inl hzero', fun _ => ?_⟩
    have hstays : lcd.shows.column - 1 = lcd.shows.column := by
      show lcd.column - 1 = lcd.column
      omega
    rw [hstays]

/-- At the end of a row the next row is passed as the column. -/
theorem shows_lcdPutc_ordinary_iff {lcd : Lcd} (h : AtCell lcd) {chr : Byte}
    (hordinary : Ordinary chr) :
    (lcdPutc lcd chr).shows = lcd.shows.put chr ↔ lcd.column ≠ 19 := by
  have hrow := h.row
  have hcolumn := h.column
  have hnext : lcd.row + 1 < 256 := by omega
  have hcells : ({ lcd.store chr with column := lcd.column + 1 } : Lcd).shows.cells = fun r c =>
      if r.val = lcd.shows.row ∧ c.val = lcd.shows.column then chr else lcd.shows.cells r c :=
    cells_store h chr
  have hshownColumn : lcd.shows.column = 19 ↔ lcd.column = 19 := Iff.rfl
  rw [lcdPutc_ordinary hrow hcolumn hordinary,
    Terminal.put_ordinary (t := lcd.shows) hrow hordinary]
  simp only [hshownColumn]
  split
  · have hlast : lcd.column = 19 := by omega
    rw [if_pos hlast, shows_lcdLocate_eq_iff hnext (by decide) hcells]
    refine ⟨?_, fun hne => absurd hlast hne⟩
    rintro ⟨hr, -⟩
    cases hr
  · have hlast : lcd.column ≠ 19 := by omega
    rw [if_neg hlast, ← hcells]
    exact ⟨fun _ => hlast, fun _ => rfl⟩

/-- A character does what it is meant to do exactly when it is straight. -/
theorem shows_lcdPutc_iff {lcd : Lcd} (h : AtCell lcd) (chr : Byte) :
    (lcdPutc lcd chr).shows = lcd.shows.put chr ↔ Straight lcd.shows chr := by
  have hrow := h.row
  have hshown : lcd.shows.row < 4 := hrow
  rcases control_or_ordinary chr with rfl | rfl | rfl | rfl | hordinary
  · rw [lcdPutc_formFeed, Terminal.put_formFeed]
    exact iff_of_true rfl (straight_formFeed _)
  · -- The new row is passed as the column.
    rw [lcdPutc_newLine hrow, Terminal.put_newLine hshown,
      shows_lcdLocate_eq_iff (by omega) (by decide) rfl]
    refine iff_of_false ?_ (not_straight_newLine _)
    rintro ⟨hr, -⟩
    cases hr
  · rw [lcdPutc_carriageReturn hrow, Terminal.put_carriageReturn hshown,
      shows_lcdLocate_eq_iff (by omega) (by decide) rfl, straight_carriageReturn_iff]
    exact ⟨fun hplace => hplace.1.symm, fun hzero => ⟨hzero.symm, hzero⟩⟩
  · exact (shows_lcdPutc_backspace_iff h).trans (straight_backspace_iff (t := lcd.shows)).symm
  · exact (shows_lcdPutc_ordinary_iff h hordinary).trans
      (straight_ordinary_iff (t := lcd.shows) hordinary).symm

/-- A straight character leaves the cursor on the display. -/
theorem atCell_lcdPutc {lcd : Lcd} (h : AtCell lcd) {chr : Byte}
    (hstraight : Straight lcd.shows chr) : AtCell (lcdPutc lcd chr) := by
  have hrow := h.row
  have hcolumn := h.column
  rcases control_or_ordinary chr with rfl | rfl | rfl | rfl | hordinary
  · rw [lcdPutc_formFeed]
    exact ⟨Nat.succ_pos 3, Nat.succ_pos 19, rfl⟩
  · exact absurd hstraight (not_straight_newLine _)
  · rw [lcdPutc_carriageReturn hrow]
    exact atCell_lcdLocate lcd (Nat.succ_pos 3) (by omega)
  · rw [lcdPutc_backspace hrow]
    split
    · have hplace : lcd.column = 0 ∨ lcd.column = lcd.row + 1 :=
        straight_backspace_iff.mp hstraight
      exact atCell_lcdLocate lcd (by omega) (by omega)
    · exact h
  · have hlast : lcd.column ≠ 19 := (straight_ordinary_iff hordinary).mp hstraight
    rw [lcdPutc_ordinary hrow hcolumn hordinary, if_neg (by omega)]
    refine ⟨hrow, show lcd.column + 1 < 20 by omega, ?_⟩
    have hnext := nextAddress_cellAddress hrow (show lcd.column + 1 < 20 by omega)
    rw [← h.address] at hnext
    exact hnext

/-! ## Texts -/

/-- After every part of the text that has been put out, the display shows what
the terminal shows, cursor included. -/
def FollowsTerminal (lcd : Lcd) (text : List Byte) : Prop :=
  ∀ past, past <+: text → (lcdPuts past lcd).shows = past.foldl Terminal.put lcd.shows

theorem lcdPuts_of_noNul {text : List Byte} (h : ∀ chr ∈ text, chr ≠ 0#8) (lcd : Lcd) :
    lcdPuts text lcd = text.foldl lcdPutc lcd := by
  rw [lcdPuts_eq, List.takeWhile_eq_self_iff.mpr]
  exact fun chr hmem => decide_eq_true (h chr hmem)

/-- A text that starts on the display comes out as on the terminal exactly while
all its characters are straight. -/
theorem lcdPuts_follows_iff (lcd : Lcd) {col row : Nat} (hrow : row < lcdRows)
    (hcol : col < lcdCols) {text : List Byte} (htext : ∀ chr ∈ text, chr ≠ 0#8) :
    (FollowsTerminal (lcdLocate col row lcd) text ↔
        EachStep Terminal.put Straight (lcdLocate col row lcd).shows text) ∧
      (EachStep Terminal.put Straight (lcdLocate col row lcd).shows text →
        (lcdPuts text (lcdLocate col row lcd)).shows =
          text.foldl Terminal.put (lcdLocate col row lcd).shows) := by
  have hstart := atCell_lcdLocate lcd hrow hcol
  generalize lcdLocate col row lcd = start at hstart
  have hiff : FollowsTerminal start text ↔ EachStep Terminal.put Straight start.shows text := by
    rw [← EachStep.simulates_prefixes_iff AtCell Lcd.shows
      (fun _ _ h hstraight => atCell_lcdPutc h hstraight)
      (fun _ chr h => shows_lcdPutc_iff h chr) text hstart]
    refine forall_congr' fun past => ?_
    refine imp_congr_right fun hpast => ?_
    rw [lcdPuts_of_noNul fun chr hmem => htext chr (hpast.subset hmem)]
  exact ⟨hiff, fun h => hiff.mpr h text List.prefix_rfl⟩

/-- A text with a return and a backspace in the first row. -/
theorem lcdPuts_follows_iff_straight :
    let start := lcdLocate 5 0 (powerUp 0 0 0 fun _ => blankCell)
    let text := [0x41#8, carriageReturn, 0x42#8, backspace, 0x43#8]
    FollowsTerminal start text ∧
      (lcdPuts text start).shows = text.foldl Terminal.put start.shows ∧
      (lcdPuts text start).ddram 0 = 0x43#8 := by
  intro start text
  have hstraight : EachStep Terminal.put Straight start.shows text := by decide
  obtain ⟨hiff, hshows⟩ := @lcdPuts_follows_iff (powerUp 0 0 0 fun _ => blankCell) 5 0
    (by decide) (by decide) text (by decide)
  exact ⟨hiff.mpr hstraight, hshows hstraight, by decide⟩

/-- `'\n'` in the first row moves the cursor to column 1 of the same row. -/
theorem newLine_astray :
    ¬ ∀ (lcd : Lcd) (col row : Nat) (text : List Byte), row < lcdRows → col < lcdCols →
      (∀ chr ∈ text, chr ≠ 0#8) →
      (lcdPuts text (lcdLocate col row lcd)).shows =
        text.foldl Terminal.put (lcdLocate col row lcd).shows := by
  intro hclaim
  have h := hclaim (powerUp 0 0 0 fun _ => blankCell) 0 0 [newLine] (by decide) (by decide)
    (by decide)
  have hrow := congrArg Terminal.row h
  exact absurd hrow (by decide)

end WindradLogger.Display
