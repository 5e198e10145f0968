import WindradLogger.Display.Navigation

set_option autoImplicit false

/-!
# Switching the screens

`display_set_screen` calls the update function of the new screen, and the update
functions of `iu`, `pbt` and `sysstat` call `display_set_screen` in turn.  Each
resets its counter only after that call has returned, so that the counters are
what ends the recursion.

The functions below are those of `task_display.c` with a check at the one place
where `sysstat_screen` is read: they stop (`none`) when the index is not below
`used_sysstat_screens` or not below the size of the table.  In every run from the
first screen they do what the functions without the check do, and never stop.
-/

namespace WindradLogger.Display

open WindradLogger.Lib

/-! ## Checked reads -/

/-- `sysstat_screen[index]`, if there is that screen and it is used. -/
def paintSysstatChecked (t : Texts) (index : Nat) (lcd : Lcd) : Option Lcd :=
  if index < t.usedSysstatScreens ∧ index < countOfPossibleSysstatScreens then
    some (paintSysstat t index lcd)
  else none

/-- `display_screen_sys_stat_update` -/
def displayScreenSysStatUpdateChecked (setScreen : SetScreen) (reason : ScreenUpdateReason)
    (d : DisplayState) : Option DisplayState :=
  let d := { d with
    currentSysstatScreensIndex := counted reason d.currentSysstatScreensIndex % 256 }
  if d.currentSysstatScreensIndex ≥ d.texts.usedSysstatScreens then do
    let d ← setScreen .iu d
    some { d with currentSysstatScreensIndex := 0 }
  else do
    let lcd ← paintSysstatChecked d.texts d.currentSysstatScreensIndex d.lcd
    some { d with lcd := lcd }

/-- `screen_instruction_table[id].update_function` -/
def updateFunctionChecked (setScreen : SetScreen) (r : Readings) (reason : ScreenUpdateReason) :
    ScreenId → DisplayState → Option DisplayState
  | .sysstat => displayScreenSysStatUpdateChecked setScreen reason
  | id => updateFunction setScreen r reason id

/-- `display_set_screen`, nested at most `depth` deep -/
def displaySetScreenChecked (r : Readings) : (depth : Nat) → SetScreen
  | 0, _, _ => none
  | depth + 1, newScreenId, d =>
      if d.currentScreenId ≠ some newScreenId then
        updateFunctionChecked (displaySetScreenChecked r depth) r .justSet newScreenId
          { d with
            currentScreenId := some newScreenId
            lcd := paintFunction r newScreenId d.lcd }
      else some d

/-! ## Events -/

/-- No assertion of the call fails. -/
def TextCall.Accepted : TextCall → Prop
  | writeText _ _ => True
  | setSysstatScreen countOfScreens screenIndex _ _ =>
      countOfScreens.toNat ≤ countOfPossibleSysstatScreens ∧
        screenIndex.toNat < countOfPossibleSysstatScreens

/-- A call that stores a text. -/
structure AcceptedCall where
  call : TextCall
  accepted : call.Accepted

/-- What can happen to the display once its first screen is set. -/
inductive SwitchEvent where
  | regularUpdate
  | setScreen (newScreenId : ScreenId)
  | clearAndSetCustomScreen
  | returnToNormalScreen
  | text (accepted : AcceptedCall)

/-- One event, with what the screens read meanwhile. -/
def switchStep (d : DisplayState) : Readings × SwitchEvent → Option DisplayState
  | (r, .regularUpdate) => regularUpdate r d
  | (r, .setScreen newScreenId) => displaySetScreen r nesting newScreenId d
  | (r, .clearAndSetCustomScreen) => displayClearAndSetCustomScreen r d
  | (r, .returnToNormalScreen) => displayReturnToNormalScreen r d
  | (_, .text accepted) => displayText accepted.call d

/-- One event with checked reads, and `display_set_screen` nested at most `depth`
deep. -/
def switchStepChecked (depth : Nat) (d : DisplayState) :
    Readings × SwitchEvent → Option DisplayState
  | (r, .regularUpdate) => do
      let currentScreenId ← d.currentScreenId
      updateFunctionChecked (displaySetScreenChecked r depth) r .regular currentScreenId d
  | (r, .setScreen newScreenId) => displaySetScreenChecked r depth newScreenId d
  | (r, .clearAndSetCustomScreen) =>
      displaySetScreenChecked r depth .custom
        { d with
          texts := displayCustomScreenClear d.texts
          lastScreenId := d.currentScreenId }
  | (r, .returnToNormalScreen) =>
      if d.currentScreenId = some .custom then do
        let lastScreenId ← d.lastScreenId
        displaySetScreenChecked r depth lastScreenId d
      else some d
  | (_, .text accepted) => displayText accepted.call d

/-! ## The checks hold -/

/-- `used_sysstat_screens` names screens of the table. -/
def InTable (d : DisplayState) : Prop :=
  d.texts.usedSysstatScreens ≤ countOfPossibleSysstatScreens

/-- Where `f` returns, `g` returns the same. -/
def Extends (f g : SetScreen) : Prop :=
  ∀ id d d', InTable d → f id d = some d' → g id d = some d'

section Extends

variable {f g : SetScreen} (h : Extends f g)

include h

theorem Extends.bind {id : ScreenId} {d d' : DisplayState} (hd : InTable d)
    {reset : DisplayState → Option DisplayState} (hf : (f id d).bind reset = some d') :
    (g id d).bind reset = some d' := by
  obtain ⟨after, hset, hreset⟩ := Option.bind_eq_some_iff.mp hf
  rw [h id d after hd hset]
  exact hreset

/-- An update reads `sysstat_screen` below `used_sysstat_screens`. -/
theorem Extends.update {r : Readings} {reason : ScreenUpdateReason} {id : ScreenId}
    {d d' : DisplayState} (hd : InTable d) (hf : updateFunction f r reason id d = some d') :
    updateFunctionChecked g r reason id d = some d' := by
  cases id with
  | boot => exact hf
  | iu =>
      simp only [updateFunction, displayScreenIuUpdate, updateFunctionChecked] at hf ⊢
      split at hf
      · rw [if_pos ‹_›]
        refine h.bind ?_ hf
        exact hd
      · rw [if_neg ‹_›]
        exact hf
  | pbt =>
      simp only [updateFunction, displayScreenPbtUpdate, updateFunctionChecked] at hf ⊢
      split at hf
      · rw [if_pos ‹_›]
        refine h.bind ?_ hf
        exact hd
      · rw [if_neg ‹_›]
        exact hf
  | sysstat =>
      simp only [updateFunction, displayScreenSysStatUpdate, updateFunctionChecked,
        displayScreenSysStatUpdateChecked] at hf ⊢
      split at hf
      · rw [if_pos ‹_›]
        refine h.bind ?_ hf
        exact hd
      · rename_i hused
        have hindex := Nat.not_le.mp hused
        rw [if_neg hused, paintSysstatChecked, if_pos ⟨hindex, Nat.lt_of_lt_of_le hindex hd⟩]
        exact hf
  | custom => exact hf

end Extends

/-- Neither the checks nor more room for nesting change what is returned. -/
theorem extends_checked (r : Readings) (more depth : Nat) :
    Extends (displaySetScreen r depth) (displaySetScreenChecked r (depth + more)) := by
  induction depth with
  | zero =>
      intro id d d' _ hf
      cases hf
  | succ depth ih =>
      intro id d d' hd hf
      rw [displaySetScreen] at hf
      rw [Nat.succ_add, displaySetScreenChecked]
      split at hf
      · rw [if_pos ‹_›]
        exact ih.update hd hf
      · rw [if_neg ‹_›]
        exact hf

theorem switchStepChecked_of_switchStep (more : Nat) {d d' : DisplayState} (hd : InTable d)
    {event : Readings × SwitchEvent} (hstep : switchStep d event = some d') :
    switchStepChecked (nesting + more) d event = some d' := by
  obtain ⟨r, event⟩ := event
  have hextends := extends_checked r more nesting
  cases event with
  | regularUpdate =>
      obtain ⟨current, hcurrent, hupdate⟩ := Option.bind_eq_some_iff.mp hstep
      exact Option.bind_eq_some_iff.mpr ⟨current, hcurrent, hextends.update hd hupdate⟩
  | setScreen newScreenId => exact hextends _ _ _ hd hstep
  | clearAndSetCustomScreen => exact hextends _ _ _ hd hstep
  | returnToNormalScreen =>
      rw [switchStep, displayReturnToNormalScreen] at hstep
      rw [switchStepChecked]
      split at hstep
      · obtain ⟨last, hlast, hset⟩ := Option.bind_eq_some_iff.mp hstep
        rw [if_pos ‹_›]
        exact Option.bind_eq_some_iff.mpr ⟨last, hlast, hextends _ _ _ hd hset⟩
      · rw [if_neg ‹_›]
        exact hstep
  | text accepted => exact hstep

/-! ## Between the events -/

/-- What holds between the events: a screen of the table is shown, both
`update_count` are in bounds, and so is `used_sysstat_screens`. -/
structure Bounded (d : DisplayState) : Prop extends Settled d where
  inTable : InTable d

theorem Bounded.of_settled {d d' : DisplayState} (h : Bounded d) (hsettled : Settled d')
    (htexts : d'.texts.usedSysstatScreens = d.texts.usedSysstatScreens) : Bounded d' := by
  refine ⟨hsettled, ?_⟩
  rw [InTable, htexts]
  exact h.inTable

/-- Any screen can be set. -/
theorem Bounded.set (r : Readings) {d : DisplayState} (h : Bounded d) (id : ScreenId) :
    ∃ d', displaySetScreen r nesting id d = some d' ∧ Bounded d' := by
  obtain ⟨d', shown, hset, hcurrent, -, hkept⟩ := sets_of_settled r 1 h.toSettled id
  refine ⟨d', hset, h.of_settled (h.toSettled.of_kept hkept hcurrent) ?_⟩
  rw [hkept.texts]

theorem Bounded.text {d : DisplayState} (h : Bounded d) (accepted : AcceptedCall) :
    ∃ d', displayText accepted.call d = some d' ∧ Bounded d' := by
  obtain ⟨call, haccepted⟩ := accepted
  cases call with
  | writeText row text =>
      exact ⟨_, rfl, ⟨h.current, h.last, h.iuUpdateCount, h.pbtUpdateCount⟩, h.inTable⟩
  | setSysstatScreen countOfScreens screenIndex row text =>
      obtain ⟨texts, hstored, hused⟩ :
          ∃ texts, displaySetSysstatScreen countOfScreens screenIndex row text d.texts =
            some texts ∧ texts.usedSysstatScreens = countOfScreens.toNat :=
        ⟨_, displaySetSysstatScreen_eq_some_iff.mpr ⟨haccepted, rfl⟩, rfl⟩
      refine ⟨{ d with texts := texts }, Option.bind_eq_some_iff.mpr ⟨texts, hstored, rfl⟩,
        ⟨h.current, h.last, h.iuUpdateCount, h.pbtUpdateCount⟩, ?_⟩
      rw [InTable, hused]
      exact haccepted.1

/-- Every event ends, and leaves the bounds as they are. -/
theorem Bounded.step {d : DisplayState} (h : Bounded d) (event : Readings × SwitchEvent) :
    ∃ d', switchStep d event = some d' ∧ Bounded d' := by
  obtain ⟨r, event⟩ := event
  cases event with
  | regularUpdate =>
      obtain ⟨d', hupdate, hauto⟩ := regularUpdate_automatic r h.toSettled
      refine ⟨d', hupdate, h.of_settled hauto.settled ?_⟩
      rw [hauto.texts]
  | setScreen newScreenId => exact h.set r newScreenId
  | clearAndSetCustomScreen =>
      have hbefore : Bounded { d with
          texts := displayCustomScreenClear d.texts
          lastScreenId := d.currentScreenId } :=
        h.of_settled ⟨h.current, h.current, h.iuUpdateCount, h.pbtUpdateCount⟩ rfl
      exact hbefore.set r .custom
  | returnToNormalScreen =>
      rw [switchStep, displayReturnToNormalScreen]
      split
      · obtain ⟨last, hlast⟩ := h.last
        rw [hlast]
        exact h.set r last
      · exact ⟨d, rfl, h⟩
  | text accepted => exact h.text accepted

/-! ## Runs -/

/-- In every run from the first screen each event returns with
`display_set_screen` nested at most `nesting` deep, however deep it may nest, and
every read of `sysstat_screen` passes its check. -/
theorem switching_of_run (r₀ : Readings) (lcd : Lcd) (behind : Nat → Byte) :
    ∃ start, firstScreen r₀ lcd behind = some start ∧
      ∀ (more : Nat) (run : List (Readings × SwitchEvent)),
        ∃ d, runFrom switchStep start run = some d ∧
          runFrom (switchStepChecked (nesting + more)) start run = some d ∧
          (∃ shown, d.currentScreenId = some shown) ∧
          d.iuUpdateCount ≤ switchScreenInterval ∧ d.pbtUpdateCount ≤ switchScreenInterval ∧
          d.texts.usedSysstatScreens ≤ countOfPossibleSysstatScreens := by
  obtain ⟨start, hstart, hsettled, -⟩ := firstScreen_settled r₀ lcd behind
  have hbounded : Bounded start := by
    refine ⟨hsettled, ?_⟩
    obtain ⟨d, shown, hset, -, -, hkept⟩ := sets_boot r₀ 2 (displayPowerOn (lcdInit lcd) behind)
    have hsame : d = start := Option.some.inj (hset.symm.trans hstart)
    rw [InTable, ← hsame, hkept.texts]
    exact Nat.zero_le _
  refine ⟨start, hstart, fun more run => ?_⟩
  obtain ⟨d, hrun, hd, hchecked⟩ := runFrom_total
    (fun past d => Bounded d ∧
      runFrom (switchStepChecked (nesting + more)) start past = some d)
    ⟨hbounded, runFrom_nil⟩
    (fun past before event hbefore => by
      obtain ⟨hb, hpast⟩ := hbefore
      obtain ⟨after, hstep, hafter⟩ := hb.step event
      exact ⟨after, hstep, hafter, runFrom_concat_eq_some.mpr
        ⟨before, hpast, switchStepChecked_of_switchStep more hb.inTable hstep⟩⟩) run
  exact ⟨d, hrun, hchecked, hd.current, hd.iuUpdateCount, hd.pbtUpdateCount, hd.inTable⟩

end WindradLogger.Display
