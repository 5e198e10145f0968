import WindradLogger.Adc.SampleData
import WindradLogger.Display.Texts
import WindradLogger.Rpc.KeyMemory

set_option autoImplicit false

/-!
# Tables behind the remote calls (`rpc_func_freertos.c`, `task_display.c`)

Four calls of the remote side pass bytes on as subscripts of tables: of the two
tables of texts, of the key memory and of the acquired samples.  Each call is given
with the elements that it accesses, and with its effect on what is stored.
-/

namespace WindradLogger.Rpc

open WindradLogger.Adc
open WindradLogger.Display
open WindradLogger.Lib

/-! ## Elements of tables -/

/-- An element of a table, by its subscripts. -/
inductive Cell where
  | customScreenBuffer (row column : Nat)
  | sysstatScreen (screen row column : Nat)
  | keystates (id : Nat)
  | adcChannelsComplete (channel position : Nat)
  deriving DecidableEq, Repr

namespace Cell

/-- `ext_adc_value_COUNT` -/
def extAdcValueCount : Nat := 11

/-- Every subscript is within its dimension. -/
def Exists : Cell → Prop
  | customScreenBuffer row column => row < lcdRows ∧ column < lcdCols
  | sysstatScreen screen row column =>
      screen < countOfPossibleSysstatScreens ∧ row < lcdRows ∧ column < lcdCols
  | keystates id => id < KeyId.keycount
  | adcChannelsComplete channel position =>
      channel < extAdcValueCount ∧ position < completeRecordsLength

end Cell

/-! ## The calls -/

/-- What the calls work on. -/
structure Tables where
  texts : Texts
  keystates : Keystates
  sampleData : SampleData

/-- A call of the remote side. -/
inductive RemoteCall where
  /-- `display_write_text` and `display_set_sysstat_screen` -/
  | text (call : TextCall)
  /-- `get_last_key_state` -/
  | getLastKeyState (keyId resetKeyMemory : Byte)
  /-- `get_sample_data` -/
  | getSampleData (channel : Byte)

/-- The position of `extadc_get_sample_data` after a chunk has been read, which does
not depend on the channel. -/
def chunkRead (s : SampleData) : SampleData :=
  let readIndex := s.completeRecordsChunkReadIndex + 1
  { s with
    completeRecordsChunkReadIndex :=
      if readIndex ≥ completeRecordsChunkCount then 0 else readIndex }

theorem extadcGetSampleData_eq_chunkRead (s : SampleData) (channel : ExtAdcValue) :
    (s.extadcGetSampleData channel).2 = chunkRead s := rfl

/-- A text call; `none` is a failed `assert`. -/
def textCall (t : Texts) : TextCall → Option Texts
  | .writeText row text => some (displayCustomScreenWriteText row text t)
  | .setSysstatScreen countOfScreens screenIndex row text =>
      displaySetSysstatScreen countOfScreens screenIndex row text t

/-- The tables after a call; `none` is a failed `assert`. -/
def remoteCall (d : Tables) : RemoteCall → Option Tables
  | .text call => (textCall d.texts call).map fun texts => { d with texts := texts }
  | .getLastKeyState keyId resetKeyMemory =>
      some { d with keystates := (getLastKeyState keyId resetKeyMemory d.keystates).2 }
  | .getSampleData _ => some { d with sampleData := chunkRead d.sampleData }

/-- The elements that a call accesses when no `assert` stops it. -/
def cells (d : Tables) : RemoteCall → List Cell
  | .text (.writeText row _) => (List.range lcdCols).map (.customScreenBuffer row.toNat ·)
  | .text (.setSysstatScreen _ screenIndex row _) =>
      (List.range lcdCols).map (.sysstatScreen screenIndex.toNat row.toNat ·)
  | .getLastKeyState keyId resetKeyMemory =>
      .keystates keyId.toNat ::
        if resetKeyMemory ≠ 0#8 then (List.range KeyId.keycount).map .keystates else []
  | .getSampleData channel => (List.range adcRecordsToBuffer).map fun i =>
      .adcChannelsComplete channel.toNat
        (i + d.sampleData.completeRecordsChunkReadIndex * adcRecordsToBuffer)

/-! ## What is changed is accessed -/

theorem copyRow_changed {table : Nat → Byte} {offset : Nat} {text : Row} {i : Nat}
    (h : copyRow table offset text i ≠ table i) :
    ∃ column ∈ List.range lcdCols, i = offset + column := by
  by_cases hinside : offset ≤ i ∧ i < offset + lcdCols
  · refine ⟨i - offset, List.mem_range.mpr ?_, ?_⟩ <;> omega
  · exact absurd (dif_neg hinside) h

/-- A call changes no byte of the display and of the key memory but those of the
elements that it accesses, and none of the acquired samples. -/
theorem changed_accessed {d after : Tables} {call : RemoteCall}
    (h : remoteCall d call = some after) :
    (∀ i, after.texts.customScreenBuffer i ≠ d.texts.customScreenBuffer i →
      ∃ row column, Cell.customScreenBuffer row column ∈ cells d call ∧
        i = row * lcdCols + column) ∧
    (∀ i, after.texts.sysstatScreen i ≠ d.texts.sysstatScreen i →
      ∃ screen row column, Cell.sysstatScreen screen row column ∈ cells d call ∧
        i = (screen * lcdRows + row) * lcdCols + column) ∧
    (∀ i, after.keystates i ≠ d.keystates i → Cell.keystates i ∈ cells d call) ∧
    after.sampleData.adcChannelsComplete = d.sampleData.adcChannelsComplete := by
  cases call with
  | text call =>
      obtain ⟨texts, htexts, rfl⟩ := Option.map_eq_some_iff.mp h
      cases call with
      | writeText row text =>
          cases htexts
          refine ⟨?_, fun i hi => absurd rfl hi, fun i hi => absurd rfl hi, rfl⟩
          intro i hi
          obtain ⟨column, hcolumn, heq⟩ := copyRow_changed hi
          exact ⟨row.toNat, column, List.mem_map_of_mem hcolumn, heq⟩
      | setSysstatScreen count screenIndex row text =>
          obtain ⟨-, rfl⟩ := displaySetSysstatScreen_eq_some_iff.mp htexts
          refine ⟨fun i hi => absurd rfl hi, ?_, fun i hi => absurd rfl hi, rfl⟩
          intro i hi
          obtain ⟨column, hcolumn, heq⟩ := copyRow_changed hi
          exact ⟨screenIndex.toNat, row.toNat, column, List.mem_map_of_mem hcolumn, heq⟩
  | getLastKeyState keyId resetKeyMemory =>
      cases h
      refine ⟨fun i hi => absurd rfl hi, fun i hi => absurd rfl hi, ?_, rfl⟩
      intro i hi
      simp only [getLastKeyState] at hi
      split at hi
      · rename_i hreset
        refine List.mem_cons_of_mem _ ?_
        rw [if_pos hreset]
        refine List.mem_map_of_mem (List.mem_range.mpr ?_)
        by_contra hbehind
        exact hi (if_neg hbehind)
      · exact absurd rfl hi
  | getSampleData channel =>
      cases h
      exact ⟨fun i hi => absurd rfl hi, fun i hi => absurd rfl hi, fun i hi => absurd rfl hi, rfl⟩

/-! ## Runs -/

/-- The remote side calls, or the acquisition goes on. -/
inductive RemoteAction where
  | call (call : RemoteCall)
  | acquisition (event : SampleData.Event)

def remoteStep (d : Tables) : RemoteAction → Option Tables
  | .call call => remoteCall d call
  | .acquisition event => (d.sampleData.step event).map fun s => { d with sampleData := s }

/-- The tables at start, with whatever lies behind those of the display and of the
keys. -/
def startTables (behindTexts behindKeys : Nat → Byte) : Tables :=
  { texts := startTexts behindTexts
    keystates := startKeystates behindKeys
    sampleData := .initial }

/-- The position of reading is that of a chunk. -/
def ReadsChunk (s : SampleData) : Prop :=
  s.completeRecordsChunkReadIndex < completeRecordsChunkCount

theorem readsChunk_chunkRead (s : SampleData) : ReadsChunk (chunkRead s) := by
  unfold ReadsChunk chunkRead
  simp only
  split
  · decide
  · omega

theorem readsChunk_step {s s' : SampleData} (h : ReadsChunk s) {event : SampleData.Event}
    (hstep : s.step event = some s') : ReadsChunk s' := by
  cases event with
  | record record =>
      have hsame : s'.completeRecordsChunkReadIndex = s.completeRecordsChunkReadIndex := by
        simp only [SampleData.step, SampleData.completeRecord] at hstep
        split at hstep
        · split at hstep
          · split at hstep <;> cases hstep <;> rfl
          · cases hstep
            rfl
        · cases hstep
      unfold ReadsChunk
      rw [hsame]
      exact h
  | start =>
      cases hstep
      exact h
  | reset =>
      cases hstep
      exact (by decide : 0 < completeRecordsChunkCount)
  | get channel =>
      cases hstep
      exact readsChunk_chunkRead s
  | isComplete =>
      cases hstep
      exact h

theorem readsChunk_after {behindTexts behindKeys : Nat → Byte} {run : List RemoteAction}
    {d : Tables} (hrun : runFrom remoteStep (startTables behindTexts behindKeys) run = some d) :
    ReadsChunk d.sampleData := by
  have hstart : ReadsChunk (startTables behindTexts behindKeys).sampleData :=
    (by decide : 0 < completeRecordsChunkCount)
  refine runFrom_invariant (fun _ d => ReadsChunk d.sampleData) hstart ?_ hrun
  intro _ before action after hbefore hstep
  cases action with
  | call call =>
      cases call with
      | text call =>
          obtain ⟨texts, -, rfl⟩ := Option.map_eq_some_iff.mp hstep
          exact hbefore
      | getLastKeyState keyId resetKeyMemory =>
          cases hstep
          exact hbefore
      | getSampleData channel =>
          cases hstep
          exact readsChunk_chunkRead before.sampleData
  | acquisition event =>
      obtain ⟨s, hs, rfl⟩ := Option.map_eq_some_iff.mp hstep
      exact readsChunk_step hbefore hs

/-! ## Calls inside the tables -/

/-- What is stored in the rows that exist, after a call. -/
def StoresText (before after : Texts) : RemoteCall → Prop
  | .text call => call.place.Exists ∧ ∀ place : Place, place.Exists →
      textAt after place = if place = call.place then call.text else textAt before place
  | _ => after = before

/-- A call stops at an `assert`, or accesses existing elements and stores exactly its
text. -/
def StaysInside (d : Tables) (call : RemoteCall) : Prop :=
  remoteCall d call = none ∨
    (∀ cell ∈ cells d call, cell.Exists) ∧
      ∃ after, remoteCall d call = some after ∧ StoresText d.texts after.texts call

/-- The bytes of a call that are passed on as subscripts. -/
def InTables : RemoteCall → Prop
  | .text (.writeText row _) => row.toNat < lcdRows
  | .text (.setSysstatScreen countOfScreens screenIndex row _) =>
      countOfPossibleSysstatScreens < countOfScreens.toNat ∨
        countOfPossibleSysstatScreens ≤ screenIndex.toNat ∨ row.toNat < lcdRows
  | .getLastKeyState keyId _ => keyId.toNat < KeyId.keycount
  | .getSampleData channel => channel.toNat < Cell.extAdcValueCount

theorem staysInside_writeText_iff (d : Tables) (row : Byte) (text : Row) :
    StaysInside d (.text (.writeText row text)) ↔ row.toNat < lcdRows := by
  refine ⟨?_, ?_⟩
  · rintro (hstop | ⟨hcells, -⟩)
    · cases hstop
    · exact (hcells (.customScreenBuffer row.toNat 0)
        (List.mem_map_of_mem (List.mem_range.mpr (by decide)))).1
  · intro hrow
    refine Or.inr ⟨?_, _, rfl, hrow, fun place _ => textAt_writeText row text d.texts place⟩
    intro cell hmem
    obtain ⟨column, hcolumn, rfl⟩ := List.mem_map.mp hmem
    exact ⟨hrow, List.mem_range.mp hcolumn⟩

theorem remoteCall_setSysstatScreen {d : Tables} {count screenIndex row : Byte} {text : Row}
    {texts : Texts} (h : displaySetSysstatScreen count screenIndex row text d.texts = some texts) :
    remoteCall d (.text (.setSysstatScreen count screenIndex row text)) =
      some { d with texts := texts } :=
  Option.map_eq_some_iff.mpr ⟨texts, h, rfl⟩

theorem staysInside_setSysstatScreen_iff (d : Tables) (count screenIndex row : Byte) (text : Row) :
    StaysInside d (.text (.setSysstatScreen count screenIndex row text)) ↔
      countOfPossibleSysstatScreens < count.toNat ∨
        countOfPossibleSysstatScreens ≤ screenIndex.toNat ∨ row.toNat < lcdRows := by
  cases hcall : displaySetSysstatScreen count screenIndex row text d.texts with
  | none =>
      have hstop : remoteCall d (.text (.setSysstatScreen count screenIndex row text)) = none :=
        Option.map_eq_none_iff.mpr hcall
      have hfail : ¬ (count.toNat ≤ countOfPossibleSysstatScreens ∧
          screenIndex.toNat < countOfPossibleSysstatScreens) := by
        intro hpass
        rw [displaySetSysstatScreen_eq_some_iff.mpr ⟨hpass, rfl⟩] at hcall
        cases hcall
      exact ⟨fun _ => by omega, fun _ => Or.inl hstop⟩
  | some texts =>
      have hgoes := remoteCall_setSysstatScreen hcall
      obtain ⟨⟨hcount, hindex⟩, -⟩ := displaySetSysstatScreen_eq_some_iff.mp hcall
      refine ⟨?_, ?_⟩
      · rintro (hstop | ⟨hcells, -⟩)
        · rw [hgoes] at hstop
          cases hstop
        · exact Or.inr (Or.inr (hcells (.sysstatScreen screenIndex.toNat row.toNat 0)
            (List.mem_map_of_mem (List.mem_range.mpr (by decide)))).2.1)
      · intro hinside
        have hrow : row.toNat < lcdRows := by omega
        refine Or.inr ⟨?_, _, hgoes, ⟨hindex, hrow⟩, fun place hplace =>
          textAt_setSysstatScreen hcall hrow hplace⟩
        intro cell hmem
        obtain ⟨column, hcolumn, rfl⟩ := List.mem_map.mp hmem
        exact ⟨hindex, hrow, List.mem_range.mp hcolumn⟩

theorem staysInside_getLastKeyState_iff (d : Tables) (keyId resetKeyMemory : Byte) :
    StaysInside d (.getLastKeyState keyId resetKeyMemory) ↔ keyId.toNat < KeyId.keycount := by
  refine ⟨?_, ?_⟩
  · rintro (hstop | ⟨hcells, -⟩)
    · cases hstop
    · exact hcells (.keystates keyId.toNat) List.mem_cons_self
  · intro hkey
    refine Or.inr ⟨?_, _, rfl, rfl⟩
    intro cell hmem
    rcases List.mem_cons.mp hmem with rfl | hcleared
    · exact hkey
    · split at hcleared
      · obtain ⟨id, hid, rfl⟩ := List.mem_map.mp hcleared
        exact List.mem_range.mp hid
      · cases hcleared

theorem staysInside_getSampleData_iff {d : Tables} (h : ReadsChunk d.sampleData)
    (channel : Byte) :
    StaysInside d (.getSampleData channel) ↔ channel.toNat < Cell.extAdcValueCount := by
  refine ⟨?_, ?_⟩
  · rintro (hstop | ⟨hcells, -⟩)
    · cases hstop
    · have hfirst : 0 < adcRecordsToBuffer := by decide
      exact (hcells _ (List.mem_map_of_mem (List.mem_range.mpr hfirst))).1
  · intro hchannel
    refine Or.inr ⟨?_, _, rfl, rfl⟩
    intro cell hmem
    obtain ⟨i, hi, rfl⟩ := List.mem_map.mp hmem
    have hi' : i < 32 := List.mem_range.mp hi
    have hchunk : d.sampleData.completeRecordsChunkReadIndex < 128 := h
    have hposition : i + d.sampleData.completeRecordsChunkReadIndex * 32 < 32 * 128 := by omega
    exact ⟨hchannel, hposition⟩

/-- In every reachable state a call stays inside the tables exactly when its
subscripts do, or an `assert` looks at them. -/
theorem remoteCall_staysInside_iff {behindTexts behindKeys : Nat → Byte}
    {run : List RemoteAction} {d : Tables}
    (hrun : runFrom remoteStep (startTables behindTexts behindKeys) run = some d)
    (call : RemoteCall) : StaysInside d call ↔ InTables call := by
  have hreads := readsChunk_after hrun
  cases call with
  | text call =>
      cases call with
      | writeText row text => exact staysInside_writeText_iff d row text
      | setSysstatScreen count screenIndex row text =>
          exact staysInside_setSysstatScreen_iff d count screenIndex row text
  | getLastKeyState keyId resetKeyMemory =>
      exact staysInside_getLastKeyState_iff d keyId resetKeyMemory
  | getSampleData channel => exact staysInside_getSampleData_iff hreads channel

/-- A text for row 4 of the first screen. -/
def fifthRow : RemoteCall := .text (.setSysstatScreen 1 0 4 fun _ => 0x41#8)

theorem remoteCall_staysInside_iff_fifthRow :
    ∃ d, runFrom remoteStep (startTables (fun _ => 0#8) fun _ => 0#8)
        [.call (.getLastKeyState 1 1), .call (.getSampleData 0)] = some d ∧
      (StaysInside d fifthRow ↔ InTables fifthRow) := by
  have hrun : runFrom remoteStep (startTables (fun _ => 0#8) fun _ => 0#8)
      [.call (.getLastKeyState 1 1), .call (.getSampleData 0)] = some _ := rfl
  exact ⟨_, hrun, remoteCall_staysInside_iff hrun fifthRow⟩

/-- A text for a row behind the last one is stored in a row of a later screen. -/
theorem textAt_laterScreen {count screenIndex row : Byte} {text : Row} {t t' : Texts}
    (h : displaySetSysstatScreen count screenIndex row text t = some t') :
    textAt t' (.sysstat (screenIndex.toNat + row.toNat / lcdRows) (row.toNat % lcdRows)) =
      text := by
  obtain ⟨-, rfl⟩ := displaySetSysstatScreen_eq_some_iff.mp h
  have hsame : (screenIndex.toNat + row.toNat / lcdRows) * lcdRows + row.toNat % lcdRows =
      screenIndex.toNat * lcdRows + row.toNat := by
    simp only [lcdRows]
    omega
  rw [textAt, sysstatRow, rowOf_copyRow, if_pos hsame]

/-- The text is not refused, and appears in row 0 of the second screen. -/
theorem fifthRow_in_secondScreen :
    ∃ after, remoteCall (startTables (fun _ => 0#8) fun _ => 0#8) fifthRow = some after ∧
      textAt (startTexts fun _ => 0#8) (.sysstat 1 0) = zeroRow ∧
      (textAt after.texts (.sysstat 1 0) = fun _ => 0x41#8) ∧
      ¬ StaysInside (startTables (fun _ => 0#8) fun _ => 0#8) fifthRow := by
  cases hcall : displaySetSysstatScreen 1 0 4 (fun _ => 0x41#8)
      (startTables (fun _ => 0#8) fun _ => 0#8).texts with
  | none => cases hcall
  | some texts =>
      refine ⟨_, remoteCall_setSysstatScreen hcall, ?_, ?_, ?_⟩
      · exact textAt_startTexts _ ⟨by decide, by decide⟩
      · have hplace : Place.sysstat ((0 : Byte).toNat + (4 : Byte).toNat / lcdRows)
            ((4 : Byte).toNat % lcdRows) = .sysstat 1 0 := by decide
        rw [← hplace]
        exact textAt_laterScreen hcall
      · rw [fifthRow, staysInside_setSysstatScreen_iff]
        decide

end WindradLogger.Rpc
