import WindradLogger.Display.Screens
import WindradLogger.Display.Terminal

set_option autoImplicit false

/-!
# Painting texts row by row (`task_display.c`, `hd44780.c`)

A row is a string without terminator when all its 20 bytes are used; `"%s"` then
goes on with what follows it in memory, and the driver, at the end of the row,
goes on in the first row, right of the column with the number of the next row.
What is painted in the other rows is always right, and the first row is what is
left of it when everything that runs over has been put there.
-/

namespace WindradLogger.Display

open WindradLogger.Lib

/-! ## Ordinary characters -/

/-- What `lcd_putc` does with an ordinary character: from the end of a row it goes
to the first one. -/
def Terminal.type (t : Terminal) (chr : Byte) : Terminal :=
  let cells := fun r c => if r.val = t.row ∧ c.val = t.column then chr else t.cells r c
  if t.column = 19 then { cells := cells, row := 0, column := t.row + 1 }
  else { cells := cells, row := t.row, column := t.column + 1 }

theorem lcdPutc_type {lcd : Lcd} (h : AtCell lcd) {chr : Byte} (hordinary : Ordinary chr) :
    (lcdPutc lcd chr).shows = lcd.shows.type chr ∧ AtCell (lcdPutc lcd chr) := by
  have hrow := h.row
  have hcolumn := h.column
  have hcells : ({ lcd.store chr with column := lcd.column + 1 } : Lcd).shows.cells = fun r c =>
      if r.val = lcd.shows.row ∧ c.val = lcd.shows.column then chr else lcd.shows.cells r c :=
    cells_store h chr
  have hshownColumn : lcd.shows.column = 19 ↔ lcd.column = 19 := Iff.rfl
  rw [lcdPutc_ordinary hrow hcolumn hordinary, Terminal.type]
  simp only [hshownColumn]
  rcases Nat.lt_or_ge (lcd.column + 1) 20 with hinside | hend
  · rw [if_neg (Nat.not_le.mpr hinside), if_neg (by omega), ← hcells]
    refine ⟨rfl, hrow, hinside, ?_⟩
    have hnext := nextAddress_cellAddress hrow hinside
    rw [← h.address] at hnext
    exact hnext
  · have hlast : lcd.column = 19 := by omega
    have hnext : lcd.row + 1 < 20 := by omega
    rw [if_pos hend, if_pos hlast]
    refine ⟨?_, atCell_lcdLocate _ (Nat.succ_pos 3) hnext⟩
    exact (shows_lcdLocate_eq_iff (by omega) (by decide) hcells 0 _).mpr ⟨rfl, rfl⟩

theorem foldl_lcdPutc_type (text : List Byte) {lcd : Lcd} (h : AtCell lcd)
    (htext : ∀ chr ∈ text, Ordinary chr) :
    (text.foldl lcdPutc lcd).shows = text.foldl Terminal.type lcd.shows := by
  induction text generalizing lcd with
  | nil => rfl
  | cons chr rest ih =>
      obtain ⟨hshows, hcell⟩ := lcdPutc_type h (htext chr List.mem_cons_self)
      rw [List.foldl_cons, List.foldl_cons, ← hshows]
      exact ih hcell fun c hmem => htext c (List.mem_cons_of_mem _ hmem)

/-! ## Strings in cells -/

/-- Ordinary characters that end before the last column. -/
theorem foldl_type_inRow : ∀ (text : List Byte) (t : Terminal), t.column + text.length ≤ 19 →
    text.foldl Terminal.type t =
      { cells := fun r c =>
          if r.val = t.row ∧ t.column ≤ c.val ∧ c.val < t.column + text.length then
            text.getD (c.val - t.column) 0#8
          else t.cells r c
        row := t.row
        column := t.column + text.length } := by
  intro text
  induction text with
  | nil =>
      intro t _
      obtain ⟨cells, row, column⟩ := t
      rw [List.foldl_nil, Terminal.mk.injEq]
      refine ⟨?_, rfl, rfl⟩
      funext r c
      exact (if_neg fun hinside => Nat.not_lt.mpr hinside.2.1 hinside.2.2).symm
  | cons chr rest ih =>
      intro t hlen
      rw [List.length_cons] at hlen
      have hstep : t.type chr =
          { cells := fun r c => if r.val = t.row ∧ c.val = t.column then chr else t.cells r c
            row := t.row
            column := t.column + 1 } := if_neg (by omega)
      rw [List.foldl_cons, hstep, ih _ (by simp only; omega), Terminal.mk.injEq]
      refine ⟨?_, rfl, ?_⟩
      · funext r c
        simp only [List.length_cons]
        by_cases hrow : r.val = t.row
        · rcases Nat.lt_trichotomy c.val t.column with hbefore | hsame | hafter
          · rw [if_neg (by omega), if_neg (by omega), if_neg (by omega)]
          · rw [if_neg (by omega), if_pos ⟨hrow, hsame⟩, if_pos (by omega), hsame, Nat.sub_self]
            rfl
          · have hsub : c.val - t.column = (c.val - (t.column + 1)) + 1 := by omega
            rw [hsub, List.getD_cons_succ]
            by_cases hend : c.val < t.column + 1 + rest.length
            · rw [if_pos (by omega), if_pos (by omega)]
            · rw [if_neg (by omega), if_neg (by omega), if_neg (by omega)]
        · rw [if_neg (by omega), if_neg (by omega), if_neg (by omega)]
      · simp only [List.length_cons]
        omega

/-- Twenty of them fill the row and move on to the first row. -/
theorem foldl_type_fullRow {text : List Byte} (hlen : text.length = 20) {t : Terminal}
    (hcolumn : t.column = 0) :
    text.foldl Terminal.type t =
      { cells := fun r c => if r.val = t.row then text.getD c.val 0#8 else t.cells r c
        row := 0
        column := t.row + 1 } := by
  have hlast : 19 < text.length := by omega
  have hsplit : text = text.take 19 ++ [text[19]] := by
    rw [List.take_append_getElem, List.take_of_length_le (by omega)]
  have hinit : (text.take 19).length = 19 := by
    rw [List.length_take]
    omega
  have hfold : text.foldl Terminal.type t =
      ((text.take 19).foldl Terminal.type t).type text[19] := by
    conv_lhs => rw [hsplit]
    rw [List.foldl_append]
    rfl
  rw [hfold, foldl_type_inRow (text.take 19) t (by omega), Terminal.type, hinit, hcolumn]
  rw [if_pos rfl, Terminal.mk.injEq]
  refine ⟨?_, rfl, rfl⟩
  funext r c
  have hc := c.isLt
  simp only [lcdCols, Nat.zero_add, Nat.sub_zero, Nat.zero_le, true_and] at hc ⊢
  by_cases hrow : r.val = t.row
  · rcases Nat.lt_or_ge c.val 19 with hinside | hend
    · rw [if_neg (by omega), if_pos ⟨hrow, hinside⟩, if_pos hrow, List.getD_eq_getElem?_getD,
        List.getElem?_take_of_lt hinside, List.getD_eq_getElem?_getD]
    · have hcolumn : c.val = 19 := by omega
      rw [if_pos ⟨hrow, hcolumn⟩, if_pos hrow, hcolumn, List.getD_eq_getElem?_getD,
        List.getElem?_eq_getElem hlast, Option.getD_some]
  · rw [if_neg (by omega), if_neg (by omega), if_neg hrow]

/-- Characters put into the first row from a column on, and from column 1 again
after the last one. -/
def overwrite (row : Row) : (column : Nat) → List Byte → Row
  | _, [] => row
  | column, chr :: rest =>
      overwrite (fun c => if c.val = column then chr else row c)
        (if column = 19 then 1 else column + 1) rest

/-- In the first row ordinary characters stay in it. -/
theorem foldl_type_firstRow : ∀ (text : List Byte) (t : Terminal), t.row = 0 →
    (text.foldl Terminal.type t).cells = fun r c =>
      if r.val = 0 then overwrite (t.cells 0) t.column text c else t.cells r c := by
  intro text
  induction text with
  | nil =>
      intro t _
      funext r c
      by_cases hrow : r.val = 0
      · have hzero : r = 0 := Fin.ext hrow
        rw [if_pos hrow, hzero]
        rfl
      · rw [if_neg hrow]
        rfl
  | cons chr rest ih =>
      intro t hrow
      have hstep : t.type chr =
          { cells := fun r c => if r.val = 0 ∧ c.val = t.column then chr else t.cells r c
            row := 0
            column := if t.column = 19 then 1 else t.column + 1 } := by
        rw [Terminal.type, hrow]
        split <;> rfl
      rw [List.foldl_cons, ih _ (by rw [hstep]), hstep]
      funext r c
      by_cases hr : r.val = 0
      · rw [if_pos hr, if_pos hr, overwrite]
        simp
      · rw [if_neg hr, if_neg hr]
        exact if_neg fun h => hr h.1

/-- What a string shows in the row where it starts: its first 20 bytes, and blanks
behind them. -/
def padded (text : List Byte) : Row := fun c => text.getD c.val blankCell

/-- The cells of a blank row that a short string goes over, and those behind it. -/
theorem getD_of_blank {text : List Byte} {row : Row} (hblank : ∀ c, row c = blankCell)
    (c : Fin lcdCols) :
    (if c.val < text.length then text.getD c.val 0#8 else row c) = padded text c := by
  unfold padded
  rcases Nat.lt_or_ge c.val text.length with hin | hout
  · rw [if_pos hin, List.getD_eq_getElem?_getD, List.getD_eq_getElem?_getD,
      List.getElem?_eq_getElem hin, Option.getD_some, Option.getD_some]
  · rw [if_neg (Nat.not_lt.mpr hout), hblank, List.getD_eq_getElem?_getD,
      List.getElem?_eq_none hout, Option.getD_none]

/-- The cells of a row that a string fills. -/
theorem getD_take_of_full {text : List Byte} (hfull : 20 ≤ text.length) (c : Fin lcdCols) :
    (text.take 20).getD c.val 0#8 = padded text c := by
  have hc : c.val < 20 := c.isLt
  unfold padded
  rw [List.getD_eq_getElem?_getD, List.getElem?_take_of_lt hc, List.getD_eq_getElem?_getD,
    List.getElem?_eq_getElem (by omega), Option.getD_some, Option.getD_some]

/-- A string of fewer than 20 bytes changes the row where it starts. -/
theorem foldl_type_short {text : List Byte} (hshort : text.length < 20) {t : Terminal}
    (i : Fin lcdRows) (hrow : t.row = i.val) (hcolumn : t.column = 0)
    (hblank : ∀ c, t.cells i c = blankCell) :
    (text.foldl Terminal.type t).cells = fun r c =>
      if r = i then padded text c else t.cells r c := by
  rw [foldl_type_inRow text t (by omega)]
  funext r c
  simp only [hrow, hcolumn, Nat.zero_add, Nat.sub_zero, Nat.zero_le, true_and]
  rcases eq_or_ne r i with rfl | hother
  · rw [if_pos rfl, ← getD_of_blank hblank c]
    exact if_congr (and_iff_right rfl) rfl rfl
  · rw [if_neg hother, if_neg fun h => hother (Fin.ext h.1)]

/-- A longer one fills the row, and what is left overwrites the first row. -/
theorem foldl_type_long {text : List Byte} (hfull : 20 ≤ text.length) {t : Terminal}
    (i : Fin lcdRows) (hrow : t.row = i.val) (hcolumn : t.column = 0) :
    (text.foldl Terminal.type t).cells = fun r c =>
      if r.val = 0 then
        overwrite (if i.val = 0 then padded text else t.cells 0) (i.val + 1) (text.drop 20) c
      else if r = i then padded text c else t.cells r c := by
  have htake : (text.take 20).length = 20 := by
    rw [List.length_take]
    omega
  conv_lhs => rw [← List.take_append_drop 20 text, List.foldl_append,
    foldl_type_fullRow htake hcolumn]
  rw [foldl_type_firstRow _ _ rfl]
  funext r c
  simp only [hrow, getD_take_of_full hfull]
  split
  · congr 1
    funext c
    rcases eq_or_ne i.val 0 with hi | hi
    · rw [if_pos hi]
      exact if_pos hi.symm
    · rw [if_neg hi]
      exact if_neg (Ne.symm hi)
  · exact if_congr Fin.ext_iff.symm rfl rfl

/-- A string in a blank row fills it as far as it goes; what is left of it after
20 bytes overwrites the first row. -/
theorem foldl_type_string (text : List Byte) {t : Terminal} (i : Fin lcdRows)
    (hrow : t.row = i.val) (hcolumn : t.column = 0) (hblank : ∀ c, t.cells i c = blankCell) :
    (text.foldl Terminal.type t).cells = fun r c =>
      if r.val = 0 then
        overwrite (if i.val = 0 then padded text else t.cells 0) (i.val + 1) (text.drop 20) c
      else if r = i then padded text c else t.cells r c := by
  rcases Nat.lt_or_ge text.length 20 with hshort | hfull
  · rw [foldl_type_short hshort i hrow hcolumn hblank, List.drop_of_length_le (by omega)]
    funext r c
    rcases eq_or_ne r.val 0 with hzero | hne
    · -- Nothing is left for the first row.
      have hfirst : r = 0 := Fin.ext hzero
      rw [if_pos hzero, overwrite]
      rcases eq_or_ne i.val 0 with hi | hi
      · rw [if_pos hi, if_pos (Fin.ext (hzero.trans hi.symm))]
      · rw [if_neg hi, if_neg fun h : r = i => hi (h ▸ hzero), hfirst]
    · rw [if_neg hne]
  · exact foldl_type_long hfull i hrow hcolumn

/-! ## Four rows -/

/-- A string that `lcd_printf_at` puts out as it is. -/
structure Printable (text : List Byte) : Prop where
  length : text.length ≤ 63
  noNul : ∀ chr ∈ text, chr ≠ 0#8
  ordinary : ∀ chr ∈ text, Ordinary chr

theorem cells_lcdPrintfAt {text : List Byte} (h : Printable text) (i : Fin lcdRows) {lcd : Lcd}
    (hblank : ∀ c, lcd.shows.cells i c = blankCell) (r : Fin lcdRows) (c : Fin lcdCols) :
    (lcdPrintfAt 0 i text lcd).shows.cells r c =
      if r.val = 0 then
        overwrite (if i.val = 0 then padded text else lcd.shows.cells 0) (i.val + 1)
          (text.drop 20) c
      else if r = i then padded text c else lcd.shows.cells r c := by
  have hrow : i.val < 4 := i.isLt
  have hstart := atCell_lcdLocate lcd i.isLt (show (0 : Fin lcdCols).val < 20 by decide)
  have hshows : (lcdLocate (0 : Fin lcdCols).val i.val lcd).shows =
      { cells := lcd.shows.cells, row := i.val, column := 0 } :=
    (shows_lcdLocate_eq_iff (by decide) (by omega) rfl _ _).mpr ⟨rfl, rfl⟩
  rw [lcdPrintfAt, List.take_of_length_le h.length, lcdPuts_of_noNul h.noNul,
    foldl_lcdPutc_type text hstart h.ordinary, hshows]
  have hcells := foldl_type_string text
    (t := { cells := lcd.shows.cells, row := i.val, column := 0 }) i rfl rfl hblank
  exact congrFun (congrFun hcells r) c

/-- The first `count` rows have been painted, and the first one shows `first`. -/
def Painted (texts : Fin lcdRows → List Byte) (count : Nat) (first : Row) (lcd : Lcd) : Prop :=
  ∀ r c, lcd.shows.cells r c =
    if r.val = 0 then first c
    else if r.val < count then padded (texts r) c else blankCell

theorem painted_first {texts : Fin lcdRows → List Byte} (h : Printable (texts 0)) (lcd : Lcd) :
    Painted texts 1 (overwrite (padded (texts 0)) 1 ((texts 0).drop 20))
      (lcdPrintfAt 0 0 (texts 0) (lcdPutc lcd formFeed)) := by
  have hblank : ∀ r c, (lcdPutc lcd formFeed).shows.cells r c = blankCell := by
    intro r c
    rw [lcdPutc_formFeed]
    rfl
  intro r c
  rw [cells_lcdPrintfAt h 0 (hblank 0)]
  by_cases hzero : r.val = 0
  · rw [if_pos hzero, if_pos hzero]
    rfl
  · rw [if_neg hzero, if_neg hzero, if_neg (fun hr => hzero (congrArg Fin.val hr)),
      if_neg (by omega), hblank]

theorem painted_next {texts : Fin lcdRows → List Byte} {i : Fin lcdRows}
    (h : Printable (texts i)) (hi : i.val ≠ 0) {first : Row} {lcd : Lcd}
    (hpainted : Painted texts i.val first lcd) :
    Painted texts (i.val + 1) (overwrite first (i.val + 1) ((texts i).drop 20))
      (lcdPrintfAt 0 i (texts i) lcd) := by
  have hblank : ∀ c, lcd.shows.cells i c = blankCell := by
    intro c
    rw [hpainted, if_neg hi, if_neg (Nat.lt_irrefl _)]
  have hfirst : lcd.shows.cells 0 = first := funext fun c => hpainted 0 c
  intro r c
  rw [cells_lcdPrintfAt h i hblank, hfirst, hpainted]
  by_cases hzero : r.val = 0
  · rw [if_pos hzero, if_pos hzero, if_neg hi]
  · rw [if_neg hzero, if_neg hzero, if_neg hzero]
    by_cases hr : r = i
    · subst hr
      rw [if_pos rfl, if_pos (Nat.lt_succ_self _)]
    · have hval : r.val ≠ i.val := fun heq => hr (Fin.ext heq)
      rw [if_neg hr]
      exact if_congr (by omega) rfl rfl

/-- The first row after all four: its own text, overwritten by what ran over. -/
def firstRow (texts : Fin lcdRows → List Byte) : Row :=
  overwrite
    (overwrite
      (overwrite
        (overwrite (padded (texts 0)) 1 ((texts 0).drop 20))
        2 ((texts 1).drop 20))
      3 ((texts 2).drop 20))
    4 ((texts 3).drop 20)

/-- The display after four rows have been painted. -/
theorem cells_paintRows {texts : Fin lcdRows → List Byte} (h : ∀ i, Printable (texts i))
    (lcd : Lcd) (r : Fin lcdRows) (c : Fin lcdCols) :
    (paintRows texts lcd).shows.cells r c =
      if r.val = 0 then firstRow texts c else padded (texts r) c := by
  have hone := painted_first (h 0) lcd
  have htwo := painted_next (i := 1) (h 1) (by decide) hone
  have hthree := painted_next (i := 2) (h 2) (by decide) htwo
  have hfour := painted_next (i := 3) (h 3) (by decide) hthree
  have hall : paintRows texts lcd =
      lcdPrintfAt 0 3 (texts 3) (lcdPrintfAt 0 2 (texts 2) (lcdPrintfAt 0 1 (texts 1)
        (lcdPrintfAt 0 0 (texts 0) (lcdPutc lcd formFeed)))) := rfl
  have hr : r.val < 4 := r.isLt
  rw [hall, hfour]
  by_cases hzero : r.val = 0
  · rw [if_pos hzero, if_pos hzero]
    rfl
  · rw [if_neg hzero, if_neg hzero]
    exact if_pos hr

/-! ## What runs over -/

/-- Where the bytes of a text that run over from the end of row `i` are put in the
first row, in their order: from column `i + 1` to the last one, and then from
column 1 on, again and again. -/
def spill (i : Nat) (text : List Byte) : List (Nat × Byte) :=
  (text.zipIdx i).map fun entry => (1 + entry.2 % 19, entry.1)

/-- `overwrite` leaves in each column what is put there last. -/
theorem overwrite_eq_lastWrite (text : List Byte) (row : Row) (i : Nat) (c : Fin lcdCols) :
    overwrite row (1 + i % 19) text c =
      (Store.lastWrite (spill i text) c.val).getD (row c) := by
  induction text generalizing row i with
  | nil => rfl
  | cons chr rest ih =>
      have hnext : (if 1 + i % 19 = 19 then 1 else 1 + i % 19 + 1) = 1 + (i + 1) % 19 := by
        split <;> omega
      have hspill : spill i (chr :: rest) = (1 + i % 19, chr) :: spill (i + 1) rest := rfl
      rw [overwrite, hnext, ih, hspill, Store.lastWrite]
      cases Store.lastWrite (spill (i + 1) rest) c.val with
      | some last => rfl
      | none =>
          rw [Option.none_or, Option.getD_none]
          by_cases hc : c.val = 1 + i % 19
          · rw [if_pos hc, if_pos hc.symm, Option.getD_some]
          · rw [if_neg hc, if_neg (Ne.symm hc), Option.getD_none]

/-- What runs over from the four rows of a screen, in the order of painting. -/
def runsOver (texts : Fin lcdRows → List Byte) : List (Nat × Byte) :=
  spill 0 ((texts 0).drop 20) ++ spill 1 ((texts 1).drop 20) ++ spill 2 ((texts 2).drop 20) ++
    spill 3 ((texts 3).drop 20)

theorem firstRow_eq_lastWrite (texts : Fin lcdRows → List Byte) (c : Fin lcdCols) :
    firstRow texts c =
      (Store.lastWrite (runsOver texts) c.val).getD (padded (texts 0) c) := by
  have hput : ∀ (i : Nat) (hi : 1 + i % 19 = i + 1) (row : Row) (text : List Byte),
      overwrite row (i + 1) text c = (Store.lastWrite (spill i text) c.val).getD (row c) :=
    fun i hi row text => by rw [← hi, overwrite_eq_lastWrite]
  rw [firstRow, hput 3 (by decide), hput 2 (by decide), hput 1 (by decide), hput 0 (by decide),
    runsOver, Store.lastWrite_append, Store.lastWrite_append, Store.lastWrite_append]
  simp only [Option.getD_or]

end WindradLogger.Display
