import WindradLogger.Display.Painting

set_option autoImplicit false

/-!
# Texts of the remote side on the display (`task_display.c`)

A repaint of a screen of `sysstat` puts out its four rows as strings.  The rows
below the first are always shown as they were stored; the first one is when what
runs over from filled rows does not change it.  A repaint of the custom screen
takes the first byte of each row for the address of a string.
-/

namespace WindradLogger.Display

open WindradLogger.Lib

/-! ## Strings in memory -/

theorem stringAt_length (memory : Nat → Byte) (start room : Nat) :
    (stringAt memory start room).length ≤ room := by
  induction room generalizing start with
  | zero => exact Nat.le_refl 0
  | succ room ih =>
      rw [stringAt]
      split
      · exact Nat.zero_le _
      · exact Nat.succ_le_succ (ih (start + 1))

theorem mem_stringAt {memory : Nat → Byte} {start room : Nat} {chr : Byte}
    (h : chr ∈ stringAt memory start room) : chr ≠ 0#8 ∧ ∃ i, chr = memory i := by
  induction room generalizing start with
  | zero => cases h
  | succ room ih =>
      rw [stringAt] at h
      split at h
      · cases h
      · rename_i hnonzero
        rcases List.mem_cons.mp h with rfl | hrest
        · exact ⟨hnonzero, start, rfl⟩
        · exact ih hrest

/-- The byte at a position, unless there is a NUL up to there. -/
theorem stringAt_getD (memory : Nat → Byte) {room k : Nat} (hk : k < room) (start : Nat)
    (default : Byte) :
    (stringAt memory start room).getD k default =
      if ∃ j, j ≤ k ∧ memory (start + j) = 0#8 then default else memory (start + k) := by
  induction room generalizing start k with
  | zero => exact absurd hk (Nat.not_lt_zero k)
  | succ room ih =>
      rw [stringAt]
      split
      · rename_i hzero
        rw [if_pos ⟨0, Nat.zero_le k, hzero⟩]
        rfl
      · rename_i hnonzero
        cases k with
        | zero =>
            rw [if_neg]
            · rfl
            · rintro ⟨j, hj, hnul⟩
              rw [Nat.le_zero.mp hj] at hnul
              exact hnonzero hnul
        | succ k =>
            rw [List.getD_cons_succ, ih (Nat.lt_of_succ_lt_succ hk)]
            have hshift : ∀ j, start + 1 + j = start + (j + 1) := by
              intro j
              omega
            simp only [hshift]
            refine if_congr ?_ rfl rfl
            refine ⟨?_, ?_⟩
            · rintro ⟨j, hj, hnul⟩
              exact ⟨j + 1, Nat.succ_le_succ hj, hnul⟩
            · rintro ⟨j, hj, hnul⟩
              cases j with
              | zero => exact absurd hnul hnonzero
              | succ j => exact ⟨j, Nat.le_of_succ_le_succ hj, hnul⟩

/-- Only what stands before the first NUL matters. -/
theorem stringAt_congr {memory memory' : Nat → Byte} {room : Nat} : ∀ {start : Nat},
    (∀ k < room, (∀ j < k, memory (start + j) ≠ 0#8) →
      memory (start + k) = memory' (start + k)) →
    stringAt memory start room = stringAt memory' start room := by
  induction room with
  | zero =>
      intro start _
      rfl
  | succ room ih =>
      intro start h
      have hfirst : memory start = memory' start :=
        h 0 (Nat.succ_pos room) fun j hj => absurd hj (Nat.not_lt_zero j)
      rw [stringAt, stringAt, ← hfirst]
      split
      · rfl
      · rename_i hnonzero
        rw [ih]
        intro k hk hbefore
        have hnext := h (k + 1) (Nat.succ_lt_succ hk) (by
          intro j hj
          cases j with
          | zero => exact hnonzero
          | succ j =>
              have hj' := hbefore j (Nat.lt_of_succ_lt_succ hj)
              rwa [Nat.add_assoc, Nat.add_comm 1 j] at hj')
        rwa [Nat.add_assoc, Nat.add_comm 1 k]

/-- A string goes on behind bytes that are not NUL. -/
theorem stringAt_drop {memory : Nat → Byte} {room : Nat} : ∀ {start n : Nat},
    (∀ k < n, memory (start + k) ≠ 0#8) →
    (stringAt memory start (n + room)).drop n = stringAt memory (start + n) room := by
  intro start n
  induction n generalizing start with
  | zero =>
      intro _
      rw [Nat.zero_add]
      rfl
  | succ n ih =>
      intro h
      have hfirst : memory start ≠ 0#8 := h 0 (Nat.succ_pos n)
      have hroom : n + 1 + room = n + room + 1 := by omega
      rw [hroom, stringAt, if_neg hfirst, List.drop_succ_cons, ih, Nat.add_assoc,
        Nat.add_comm 1 n]
      intro k hk
      have hnext := h (k + 1) (Nat.succ_lt_succ hk)
      rwa [Nat.add_assoc, Nat.add_comm 1 k]

/-- A string with a NUL in its first `n` bytes ends there. -/
theorem stringAt_drop_of_nul {memory : Nat → Byte} {start room n k : Nat} (hk : k < n)
    (hroom : n ≤ room) (hnul : memory (start + k) = 0#8) :
    (stringAt memory start room).drop n = [] := by
  rw [List.drop_eq_nil_iff]
  by_contra hlong
  have hin : k < (stringAt memory start room).length := by omega
  have hget := stringAt_getD memory (Nat.lt_of_lt_of_le hk hroom) start 0#8
  rw [if_pos ⟨k, Nat.le_refl k, hnul⟩, List.getD_eq_getElem?_getD, List.getElem?_eq_getElem hin,
    Option.getD_some] at hget
  exact (mem_stringAt (List.getElem_mem hin)).1 hget

/-! ## Rows in memory -/

/-- What a row of the display should show of a text: the bytes before the first
NUL, and blanks behind them. -/
def shownRow (text : Row) : Row := fun c =>
  if ∃ k, k ≤ c ∧ text k = 0#8 then blankCell else text c

/-- Every row of the display shows its text. -/
def ShowsRows (lcd : Lcd) (text : Fin lcdRows → Row) : Prop :=
  ∀ r c, lcd.shows.cells r c = shownRow (text r) c

theorem padded_stringAt (memory : Nat → Byte) (n : Nat) :
    padded (stringAt memory (n * lcdCols) 63) = shownRow (rowOf memory n) := by
  funext c
  have hc : c.val < 20 := c.isLt
  have hroom : c.val < 63 := by omega
  rw [padded, stringAt_getD memory hroom, shownRow]
  refine if_congr ?_ rfl rfl
  refine ⟨?_, ?_⟩
  · rintro ⟨j, hj, hnul⟩
    exact ⟨⟨j, Nat.lt_of_le_of_lt hj c.isLt⟩, hj, hnul⟩
  · rintro ⟨k, hk, hnul⟩
    exact ⟨k.val, hk, hnul⟩

/-- The rows of a screen of `sysstat` as `"%s"` puts them out. -/
def sysstatStrings (memory : Nat → Byte) (index : Nat) (i : Fin lcdRows) : List Byte :=
  stringAt memory ((index * lcdRows + i) * lcdCols) 63

theorem printable_sysstatStrings {memory : Nat → Byte} (h : ∀ n, Ordinary (memory n))
    (index : Nat) (i : Fin lcdRows) : Printable (sysstatStrings memory index i) := by
  refine ⟨stringAt_length _ _ _, ?_, ?_⟩
  · intro chr hmem
    exact (mem_stringAt hmem).1
  · intro chr hmem
    obtain ⟨-, n, rfl⟩ := mem_stringAt hmem
    exact h n

/-- A screen of `sysstat` is shown as stored exactly when what runs over does not
change the first row. -/
theorem showsRows_sysstat_iff {memory : Nat → Byte} (h : ∀ n, Ordinary (memory n)) (index : Nat)
    {text : Fin lcdRows → Row}
    (htext : ∀ r : Fin lcdRows, rowOf memory (index * lcdRows + r) = text r)
    (lcd : Lcd) :
    ShowsRows (paintRows (sysstatStrings memory index) lcd) text ↔
      ∀ c : Fin lcdCols, ∀ chr,
        Store.lastWrite (runsOver (sysstatStrings memory index)) c.val = some chr →
          chr = shownRow (text 0) c := by
  have hpadded : ∀ r : Fin lcdRows,
      padded (sysstatStrings memory index r) = shownRow (text r) := by
    intro r
    rw [← htext r]
    exact padded_stringAt memory _
  have hcells := cells_paintRows (printable_sysstatStrings h index) lcd
  refine ⟨?_, ?_⟩
  · intro hshows c chr hlast
    have hfirst := hshows 0 c
    rw [hcells, if_pos (show (0 : Fin lcdRows).val = 0 from rfl), firstRow_eq_lastWrite, hlast,
      Option.getD_some] at hfirst
    exact hfirst
  · intro hunseen r c
    rw [hcells]
    by_cases hzero : r.val = 0
    · have hr : r = 0 := Fin.ext hzero
      rw [if_pos hzero, firstRow_eq_lastWrite, hr]
      cases hlast : Store.lastWrite (runsOver (sysstatStrings memory index)) c.val with
      | none => exact congrFun (hpadded 0) c
      | some chr => exact hunseen c chr hlast
    · rw [if_neg hzero, hpadded]

/-! ## Memory after calls -/

/-- The texts last stored, one behind the other as they lie in `sysstat_screen`. -/
def sysstatBytes (calls : List TextCall) (n : Nat) : Byte :=
  lastText calls (.sysstat (n / 80) (n / 20 % 4)) ⟨n % 20, Nat.mod_lt n (by decide)⟩

theorem rowOf_sysstatBytes (calls : List TextCall) (index : Nat) (r : Fin lcdRows) :
    rowOf (sysstatBytes calls) (index * lcdRows + r) = lastText calls (.sysstat index r) := by
  funext c
  have hr : r.val < 4 := r.isLt
  have hc : c.val < 20 := c.isLt
  have hscreen : ((index * lcdRows + r) * lcdCols + c) / 80 = index := by
    simp only [lcdRows, lcdCols]
    omega
  have hrow : ((index * lcdRows + r) * lcdCols + c) / 20 % 4 = r := by
    simp only [lcdRows, lcdCols]
    omega
  have hcolumn : ((index * lcdRows + r) * lcdCols + c) % 20 = c := by
    simp only [lcdRows, lcdCols]
    omega
  rw [rowOf, sysstatBytes, hscreen, hrow]
  congr 1
  exact Fin.ext hcolumn

/-- The tables after calls. -/
def textsAfter (behind : Nat → Byte) (calls : List TextCall) : Texts :=
  calls.foldl textStep (startTexts behind)

theorem sysstatScreen_behind {calls : List TextCall} (h : ∀ call ∈ calls, call.InRange)
    (behind : Nat → Byte) {n : Nat} (hn : sizeofSysstatScreen ≤ n) :
    (textsAfter behind calls).sysstatScreen n = behind n := by
  have hstep : ∀ t, (calls.foldl textStep t).sysstatScreen n = t.sysstatScreen n := by
    induction calls with
    | nil =>
        intro t
        rfl
    | cons call rest ih =>
        intro t
        rw [List.foldl_cons, ih fun c hmem => h c (List.mem_cons_of_mem _ hmem)]
        have hcall := h call List.mem_cons_self
        cases call with
        | writeText row text => rfl
        | setSysstatScreen count screenIndex row text =>
            obtain ⟨hrow, hindex, hcount⟩ := hcall
            rw [textStep, displaySetSysstatScreen_eq_some_iff.mpr
              ⟨⟨hcount, Nat.lt_of_lt_of_le hindex hcount⟩, rfl⟩, Option.getD_some]
            have hinside : screenIndex.toNat * lcdRows + row.toNat <
                countOfPossibleSysstatScreens * lcdRows := by
              simp only [countOfPossibleSysstatScreens, lcdRows] at hrow hcount ⊢
              omega
            exact copyRow_behind _ hinside _ hn
  rw [textsAfter, hstep]
  exact if_neg (Nat.not_lt.mpr hn)

theorem sysstatScreen_after {calls : List TextCall} (h : ∀ call ∈ calls, call.InRange)
    (behind : Nat → Byte) {n : Nat} (hn : n < sizeofSysstatScreen) :
    (textsAfter behind calls).sysstatScreen n = sysstatBytes calls n := by
  have hn' : n < 240 := hn
  have hplace : (Place.sysstat (n / 80) (n / 20 % 4)).Exists :=
    ⟨show n / 80 < 3 by omega, show n / 20 % 4 < 4 by omega⟩
  have hrow := textAt_after_calls behind calls h hplace
  have hindex : (n / 80 * lcdRows + n / 20 % 4) * lcdCols + n % 20 = n := by
    simp only [lcdRows, lcdCols]
    omega
  rw [sysstatBytes, ← hrow]
  exact congrArg (textsAfter behind calls).sysstatScreen hindex.symm

/-- No text has one of the characters that the driver acts upon. -/
def NoControl (calls : List TextCall) : Prop :=
  ∀ call ∈ calls, ∀ k, Ordinary (call.text k)

theorem ordinary_lastText {calls : List TextCall} (h : NoControl calls) (place : Place)
    (k : Fin lcdCols) : Ordinary (lastText calls place k) := by
  have hzero : Ordinary (zeroRow k) := by
    unfold zeroRow
    decide
  rw [lastText]
  induction calls with
  | nil => exact hzero
  | cons call rest ih =>
      have hrest := ih fun c hmem => h c (List.mem_cons_of_mem _ hmem)
      rw [List.map_cons, Store.lastWrite]
      cases hlast : Store.lastWrite (rest.map fun c => (c.place, c.text)) place with
      | some text =>
          rw [hlast] at hrest
          exact hrest
      | none =>
          rw [Option.none_or]
          split
          · exact h call List.mem_cons_self k
          · exact hzero

theorem ordinary_after {calls : List TextCall} (h : ∀ call ∈ calls, call.InRange)
    (hcontrol : NoControl calls) {behind : Nat → Byte} (hbehind : ∀ n, Ordinary (behind n))
    (n : Nat) : Ordinary ((textsAfter behind calls).sysstatScreen n) := by
  rcases Nat.lt_or_ge n sizeofSysstatScreen with hin | hout
  · rw [sysstatScreen_after h behind hin]
    exact ordinary_lastText hcontrol _ _
  · rw [sysstatScreen_behind h behind hout]
    exact hbehind n

/-- The strings of a screen do not depend on the memory behind the table, unless it
is the last screen and its last row is filled. -/
theorem sysstatStrings_after {calls : List TextCall} (h : ∀ call ∈ calls, call.InRange)
    (behind : Nat → Byte) {index : Nat} (hindex : index < countOfPossibleSysstatScreens)
    (hlast : index = 2 → ∃ k, lastText calls (.sysstat 2 3) k = 0#8) :
    sysstatStrings (textsAfter behind calls).sysstatScreen index =
      sysstatStrings (sysstatBytes calls) index := by
  funext i
  have hi : i.val < 4 := i.isLt
  refine stringAt_congr fun k hk hbefore => sysstatScreen_after h behind ?_
  by_contra houtside
  simp only [sizeofSysstatScreen, countOfPossibleSysstatScreens, lcdRows, lcdCols]
    at hindex houtside hbefore
  have htwo : index = 2 := by omega
  obtain ⟨c, hnul⟩ := hlast htwo
  have hc : c.val < 20 := c.isLt
  have hrow : rowOf (sysstatBytes calls) (2 * lcdRows + 3) c = 0#8 := by
    rw [← hnul]
    exact congrFun (rowOf_sysstatBytes calls 2 3) c
  have hplace : (index * 4 + i) * 20 + (220 + c - (index * 4 + i) * 20) = 220 + c := by omega
  refine hbefore (220 + c - (index * 4 + i) * 20) (by omega) ?_
  have hin : 220 + c.val < sizeofSysstatScreen := show 220 + c.val < 240 by omega
  rw [hplace, sysstatScreen_after h behind hin]
  exact hrow

/-! ## The next repaint -/

/-- A repaint of a screen of `sysstat` shows in every row what was stored there last,
whatever the display shows before and the memory behind the table holds. -/
def SysstatFaithful (calls : List TextCall) (index : Nat) : Prop :=
  ∀ behind lcd, ShowsRows (paintSysstat (textsAfter behind calls) index lcd) fun r =>
    lastText calls (.sysstat index r)

/-- A repaint of the custom screen does, whatever lies at the addresses below 256. -/
def CustomFaithful (calls : List TextCall) : Prop :=
  ∀ behind r lcd, ShowsRows (paintCustom r (textsAfter behind calls) lcd) fun i =>
    lastText calls (.custom i)

/-- Nothing runs over from the last row of the table, and what runs over from the
rows of the screen leaves in each column of the first row what is shown there
anyway. -/
def RunsOverUnseen (calls : List TextCall) (index : Nat) : Prop :=
  (index = 2 → ∃ k, lastText calls (.sysstat 2 3) k = 0#8) ∧
    ∀ c : Fin lcdCols, ∀ chr,
      Store.lastWrite (runsOver (sysstatStrings (sysstatBytes calls) index)) c.val = some chr →
        chr = shownRow (lastText calls (.sysstat index 0)) c

/-- A display that shows nothing. -/
def blankLcd : Lcd := powerUp 0 0 0 fun _ => blankCell

/-- A single byte behind the table is shown in column 4 when the last row is
filled. -/
theorem behind_runsOver {calls : List TextCall} (h : ∀ call ∈ calls, call.InRange)
    (hfilled : ∀ k, lastText calls (.sysstat 2 3) k ≠ 0#8) {chr : Byte} (hchr : chr ≠ 0#8) :
    Store.lastWrite (runsOver (sysstatStrings
      (textsAfter (fun n => if n = sizeofSysstatScreen then chr else 0#8) calls).sysstatScreen
      2)) 4 = some chr := by
  set behind : Nat → Byte := fun n => if n = sizeofSysstatScreen then chr else 0#8 with hbehind
  set memory := (textsAfter behind calls).sysstatScreen with hmemory
  have hrow : ∀ k < 20, memory (220 + k) ≠ 0#8 := by
    intro k hk
    have hin : 220 + k < sizeofSysstatScreen := show 220 + k < 240 by omega
    rw [hmemory, sysstatScreen_after h behind hin]
    have hstored : sysstatBytes calls (220 + k) = lastText calls (.sysstat 2 3) ⟨k, hk⟩ :=
      congrFun (rowOf_sysstatBytes calls 2 3) ⟨k, hk⟩
    rw [hstored]
    exact hfilled ⟨k, hk⟩
  have hnext : memory 240 = chr := by
    rw [hmemory, sysstatScreen_behind h behind (show 240 ≤ 240 by decide), hbehind]
    exact if_pos rfl
  have hend : memory 241 = 0#8 := by
    rw [hmemory, sysstatScreen_behind h behind (show 240 ≤ 241 by decide), hbehind]
    exact if_neg (show ¬ 241 = 240 by decide)
  have hover : (sysstatStrings memory 2 3).drop 20 = [chr] := by
    have hdrop : (stringAt memory 220 (20 + 43)).drop 20 = stringAt memory (220 + 20) 43 :=
      stringAt_drop hrow
    have hstring : stringAt memory (220 + 20) 43 = [chr] := by
      rw [stringAt, hnext, if_neg hchr, stringAt, hend, if_pos rfl]
    rw [hstring] at hdrop
    exact hdrop
  rw [runsOver, hover, Store.lastWrite_append]
  rfl

/-- A screen of `sysstat` is shown faithfully exactly when nothing that runs over is
seen. -/
theorem sysstatFaithful_iff {calls : List TextCall} (h : ∀ call ∈ calls, call.InRange)
    (hcontrol : NoControl calls) {index : Nat} (hindex : index < countOfPossibleSysstatScreens) :
    SysstatFaithful calls index ↔ RunsOverUnseen calls index := by
  have hexists : ∀ r : Fin lcdRows, (Place.sysstat index r).Exists :=
    fun r => ⟨hindex, r.isLt⟩
  have hstored : ∀ behind, ∀ r : Fin lcdRows,
      rowOf (textsAfter behind calls).sysstatScreen (index * lcdRows + r) =
        lastText calls (.sysstat index r) :=
    fun behind r => textAt_after_calls behind calls h (hexists r)
  have hordinary : ∀ n, Ordinary (sysstatBytes calls n) :=
    fun n => ordinary_lastText hcontrol _ _
  have hbytes := showsRows_sysstat_iff hordinary index (rowOf_sysstatBytes calls index)
  have hpaint : ∀ behind lcd, paintSysstat (textsAfter behind calls) index lcd =
      paintRows (sysstatStrings (textsAfter behind calls).sysstatScreen index) lcd :=
    fun _ _ => rfl
  refine ⟨?_, ?_⟩
  · intro hfaithful
    have hlast : index = 2 → ∃ k, lastText calls (.sysstat 2 3) k = 0#8 := by
      rintro rfl
      by_contra hnone
      -- Two bytes could follow in memory, and one of them is not what column 4 should show.
      obtain ⟨chr, hordinary, hnonzero, hother⟩ : ∃ chr, Ordinary chr ∧ chr ≠ 0#8 ∧
          chr ≠ shownRow (lastText calls (.sysstat 2 0)) 4 := by
        by_cases hshown : shownRow (lastText calls (.sysstat 2 0)) 4 = 0x41#8
        · exact ⟨0x42#8, by decide, by decide, by rw [hshown]; decide⟩
        · exact ⟨0x41#8, by decide, by decide, Ne.symm hshown⟩
      have hbehind : ∀ n, Ordinary (if n = sizeofSysstatScreen then chr else 0#8) := by
        intro n
        split
        · exact hordinary
        · decide
      have hshows := hfaithful (fun n => if n = sizeofSysstatScreen then chr else 0#8) blankLcd
      rw [hpaint, showsRows_sysstat_iff (ordinary_after h hcontrol hbehind) 2
        (hstored _)] at hshows
      exact hother (hshows 4 chr
        (behind_runsOver h (fun k hnul => hnone ⟨k, hnul⟩) hnonzero))
    refine ⟨hlast, ?_⟩
    have hshows := hfaithful (fun _ => 0#8) blankLcd
    rw [hpaint, sysstatStrings_after h _ hindex hlast] at hshows
    exact (hbytes blankLcd).mp hshows
  · rintro ⟨hlast, hunseen⟩ behind lcd
    rw [hpaint, sysstatStrings_after h _ hindex hlast]
    exact (hbytes lcd).mpr hunseen

/-- Rows that are not filled are shown as they are stored. -/
theorem sysstatFaithful_of_nul {calls : List TextCall} (h : ∀ call ∈ calls, call.InRange)
    (hcontrol : NoControl calls) {index : Nat} (hindex : index < countOfPossibleSysstatScreens)
    (hnul : ∀ r : Fin lcdRows, ∃ k, lastText calls (.sysstat index r) k = 0#8) :
    SysstatFaithful calls index := by
  have hdrop : ∀ i, (sysstatStrings (sysstatBytes calls) index i).drop 20 = [] := by
    intro i
    obtain ⟨k, hk⟩ := hnul i
    have hbyte : sysstatBytes calls ((index * lcdRows + i) * lcdCols + k) = 0#8 := by
      rw [← hk]
      exact congrFun (rowOf_sysstatBytes calls index i) k
    exact stringAt_drop_of_nul k.isLt (by decide) hbyte
  rw [sysstatFaithful_iff h hcontrol hindex]
  refine ⟨?_, ?_⟩
  · rintro rfl
    exact hnul 3
  · intro c chr hlast
    rw [runsOver, hdrop, hdrop, hdrop, hdrop] at hlast
    cases hlast

/-! ## The custom screen -/

/-- Of a row of the custom screen only the first byte has an influence on what is
painted. -/
theorem paintCustom_congr (r : Readings) {t t' : Texts}
    (h : ∀ i : Fin lcdRows, customRow t i 0 = customRow t' i 0) (lcd : Lcd) :
    paintCustom r t lcd = paintCustom r t' lcd := by
  have hrow : ∀ i : Fin lcdRows,
      t.customScreenBuffer (i * lcdCols) = t'.customScreenBuffer (i * lcdCols) := h
  unfold paintCustom
  simp only [hrow]

/-- A repaint cannot show both of two texts with the same first byte, so that on every
device there is a text that is not shown. -/
theorem exists_text_not_shown (calls : List TextCall) (behind : Nat → Byte) (r : Readings)
    (lcd : Lcd) :
    ∃ text : Row, (∀ k, Ordinary (text k)) ∧
      ¬ ShowsRows (paintCustom r (textsAfter behind (calls ++ [.writeText 0 text])) lcd) fun i =>
        lastText (calls ++ [.writeText 0 text]) (.custom i) := by
  by_contra hall
  have hshown : ∀ text : Row, (∀ k, Ordinary (text k)) →
      (paintCustom r (textsAfter behind (calls ++ [.writeText 0 text])) lcd).shows.cells 0 1 =
        shownRow text 1 := by
    intro text hordinary
    by_contra hother
    refine hall ⟨text, hordinary, fun hshows => hother ?_⟩
    have hlast : lastText (calls ++ [.writeText 0 text]) (.custom 0) = text := by
      rw [lastText, List.map_append, Store.lastWrite_append]
      rfl
    rw [hshows 0 1]
    exact congrFun (congrArg shownRow hlast) 1
  have hfirst := hshown (fun _ => 0x41#8) fun _ => by decide
  have hsecond := hshown (fun k => if k = 0 then 0x41#8 else 0x42#8) fun k => by
    split <;> decide
  have hsame : ∀ i : Fin lcdRows,
      customRow (textsAfter behind (calls ++ [.writeText 0 fun _ => 0x41#8])) i 0 =
        customRow (textsAfter behind
          (calls ++ [.writeText 0 fun k => if k = 0 then 0x41#8 else 0x42#8])) i 0 := by
    intro i
    simp only [textsAfter, List.foldl_append, List.foldl_cons, List.foldl_nil, textStep,
      customRow, displayCustomScreenWriteText, rowOf_copyRow]
    by_cases hi : i.val = (0 : Byte).toNat
    · rw [if_pos hi, if_pos hi]
      rfl
    · rw [if_neg hi, if_neg hi]
  rw [paintCustom_congr r hsame, hsecond] at hfirst
  exact absurd hfirst (by decide)

theorem not_customFaithful (calls : List TextCall) : ¬ CustomFaithful calls := by
  intro hfaithful
  have hshown : ∀ text : List Byte, Printable text →
      padded text 0 = shownRow (lastText calls (.custom 1)) 0 := by
    intro text hprintable
    have hshows := hfaithful (fun _ => 0#8) { zeroReadings with stringAtAddress := fun _ => text }
      blankLcd 1 0
    rw [paintCustom, cells_paintRows fun _ => hprintable] at hshows
    exact hshows
  have hnothing : padded [] 0 = shownRow (lastText calls (.custom 1)) 0 := by
    refine hshown [] ⟨by decide, ?_, ?_⟩ <;>
    · intro chr hmem
      cases hmem
  have hletter : padded [0x41#8] 0 = shownRow (lastText calls (.custom 1)) 0 :=
    hshown [0x41#8] ⟨by decide, by decide, by decide⟩
  rw [← hnothing] at hletter
  exact absurd hletter (by decide)

/-! ## Faithful repaints -/

/-- The repaint of a screen of `sysstat` is faithful exactly when nothing that runs
over is seen.  That of the custom screen never is, and on every device there is a text
for its first row that is not shown. -/
theorem painted_faithfully_iff {calls : List TextCall} (h : ∀ call ∈ calls, call.InRange)
    (hcontrol : NoControl calls) :
    (∀ index < countOfPossibleSysstatScreens,
      (SysstatFaithful calls index ↔ RunsOverUnseen calls index)) ∧
    ¬ CustomFaithful calls ∧
    ∀ behind r lcd, ∃ text : Row, (∀ k, Ordinary (text k)) ∧
      ¬ ShowsRows (paintCustom r (textsAfter behind (calls ++ [.writeText 0 text])) lcd) fun i =>
        lastText (calls ++ [.writeText 0 text]) (.custom i) :=
  ⟨fun _ hindex => sysstatFaithful_iff h hcontrol hindex, not_customFaithful calls,
    exists_text_not_shown calls⟩

/-- Two filled rows of the first screen. -/
def filledRows : List TextCall :=
  [.setSysstatScreen 1 0 0 fun _ => 0x41#8, .setSysstatScreen 1 0 1 fun _ => 0x42#8]

theorem inRange_filledRows : ∀ call ∈ filledRows, call.InRange := by
  intro call hmem
  rcases List.mem_pair.mp hmem with rfl | rfl <;> exact ⟨by decide, by decide, by decide⟩

theorem noControl_filledRows : NoControl filledRows := by
  intro call hmem k
  rcases List.mem_pair.mp hmem with rfl | rfl
  · exact (by decide : Ordinary 0x41#8)
  · exact (by decide : Ordinary 0x42#8)

theorem painted_faithfully_iff_filledRows :
    (∀ index < countOfPossibleSysstatScreens,
      (SysstatFaithful filledRows index ↔ RunsOverUnseen filledRows index)) ∧
    ¬ CustomFaithful filledRows ∧
    ∀ behind r lcd, ∃ text : Row, (∀ k, Ordinary (text k)) ∧
      ¬ ShowsRows (paintCustom r (textsAfter behind (filledRows ++ [.writeText 0 text])) lcd)
        fun i => lastText (filledRows ++ [.writeText 0 text]) (.custom i) :=
  painted_faithfully_iff inRange_filledRows noControl_filledRows

/-- The second row appears in the first one, from column 1 on. -/
theorem secondRow_in_firstRow :
    (∀ call ∈ filledRows, call.InRange) ∧ NoControl filledRows ∧
      ¬ SysstatFaithful filledRows 0 := by
  refine ⟨inRange_filledRows, noControl_filledRows, ?_⟩
  rw [sysstatFaithful_iff inRange_filledRows noControl_filledRows (by decide)]
  rintro ⟨-, hunseen⟩
  have hlast : Store.lastWrite (runsOver (sysstatStrings (sysstatBytes filledRows) 0)) 1 =
      some 0x42#8 := by
    decide +kernel
  exact absurd (hunseen 1 _ hlast) (by decide)

end WindradLogger.Display
