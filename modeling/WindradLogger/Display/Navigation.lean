import WindradLogger.Lib.History
import WindradLogger.Display.Screens

set_option autoImplicit false

/-!
# Leaving the custom screen (`task_display.c`, `rpc_func_freertos.c`)

`display_clear_and_set_custom_screen` remembers the screen it replaces, and
`display_return_to_normal_screen` goes back to it.  A second call while the custom
screen is shown remembers the custom screen itself.

Seen from outside the display is in one of three modes: it shows a normal screen,
the custom one, or the custom one with no way back.  The automatic changes of the
screens never enter or leave the custom screen, and every call ends with
`display_set_screen` nested no deeper than `nesting`.
-/

namespace WindradLogger.Display

open WindradLogger.Lib

/-! ## Setting a screen -/

/-- What setting a screen leaves alone. -/
structure Kept (d d' : DisplayState) : Prop where
  texts : d'.texts = d.texts
  lastScreenId : d'.lastScreenId = d.lastScreenId
  iuUpdateCount : d'.iuUpdateCount = d.iuUpdateCount
  pbtUpdateCount : d'.pbtUpdateCount = d.pbtUpdateCount

theorem Kept.refl (d : DisplayState) : Kept d d := ⟨rfl, rfl, rfl, rfl⟩

theorem Kept.trans {d d' d'' : DisplayState} (h : Kept d d') (h' : Kept d' d'') : Kept d d'' :=
  ⟨h'.texts.trans h.texts, h'.lastScreenId.trans h.lastScreenId,
    h'.iuUpdateCount.trans h.iuUpdateCount, h'.pbtUpdateCount.trans h.pbtUpdateCount⟩

/-- The state in which `display_set_screen` calls the update function. -/
def painted (r : Readings) (id : ScreenId) (d : DisplayState) : DisplayState :=
  { d with currentScreenId := some id, lcd := paintFunction r id d.lcd }

theorem displaySetScreen_succ (r : Readings) (depth : Nat) (id : ScreenId) (d : DisplayState) :
    displaySetScreen r (depth + 1) id d =
      if d.currentScreenId ≠ some id then
        updateFunction (displaySetScreen r depth) r .justSet id (painted r id d)
      else some d := rfl

/-- Setting `id` succeeds and ends with a screen `shown` that is acceptable. -/
def Sets (r : Readings) (depth : Nat) (id : ScreenId) (d : DisplayState)
    (Acceptable : ScreenId → Prop) : Prop :=
  ∃ d' shown, displaySetScreen r depth id d = some d' ∧ d'.currentScreenId = some shown ∧
    Acceptable shown ∧ Kept d d'

theorem sets_of_current {r : Readings} {depth : Nat} {id : ScreenId} {d : DisplayState}
    {Acceptable : ScreenId → Prop} (h : d.currentScreenId = some id) (hid : Acceptable id) :
    Sets r (depth + 1) id d Acceptable := by
  refine ⟨d, id, ?_, h, hid, Kept.refl d⟩
  rw [displaySetScreen_succ, if_neg (not_not.mpr h)]

/-- A screen whose update function only paints. -/
theorem sets_of_update {r : Readings} {depth : Nat} {id : ScreenId} {d : DisplayState}
    (h : ∀ before, Kept d before →
      ∃ lcd, updateFunction (displaySetScreen r depth) r .justSet id before =
        some { before with lcd := lcd }) :
    Sets r (depth + 1) id d (· = id) := by
  by_cases hcurrent : d.currentScreenId = some id
  · exact sets_of_current hcurrent rfl
  · obtain ⟨lcd, hupdate⟩ := h (painted r id d) ⟨rfl, rfl, rfl, rfl⟩
    refine ⟨{ painted r id d with lcd := lcd }, id, ?_, rfl, rfl, ⟨rfl, rfl, rfl, rfl⟩⟩
    rw [displaySetScreen_succ, if_pos hcurrent, hupdate]

theorem sets_boot (r : Readings) (depth : Nat) (d : DisplayState) :
    Sets r (depth + 1) .boot d (· = .boot) :=
  sets_of_update fun before _ => ⟨before.lcd, rfl⟩

theorem sets_custom (r : Readings) (depth : Nat) (d : DisplayState) :
    Sets r (depth + 1) .custom d (· = .custom) :=
  sets_of_update fun before _ => ⟨paintCustom r before.texts before.lcd, rfl⟩

theorem sets_iu (r : Readings) (depth : Nat) {d : DisplayState}
    (h : d.iuUpdateCount ≤ switchScreenInterval) :
    Sets r (depth + 1) .iu d (· = .iu) := by
  refine sets_of_update fun before hkept => ⟨iuFields r before.lcd, ?_⟩
  have hcount : ¬ before.iuUpdateCount > switchScreenInterval := by
    rw [hkept.iuUpdateCount]
    exact Nat.not_lt.mpr h
  exact if_neg hcount

theorem sets_pbt (r : Readings) (depth : Nat) {d : DisplayState}
    (h : d.pbtUpdateCount ≤ switchScreenInterval) :
    Sets r (depth + 1) .pbt d (· = .pbt) := by
  refine sets_of_update fun before hkept => ⟨pbtFields r before.lcd, ?_⟩
  have hcount : ¬ before.pbtUpdateCount > switchScreenInterval := by
    rw [hkept.pbtUpdateCount]
    exact Nat.not_lt.mpr h
  exact if_neg hcount

/-- `sysstat` goes on to `iu` when it has nothing to show. -/
theorem sets_sysstat (r : Readings) (depth : Nat) {d : DisplayState}
    (h : d.iuUpdateCount ≤ switchScreenInterval) :
    Sets r (depth + 2) .sysstat d fun shown => shown = .sysstat ∨ shown = .iu := by
  by_cases hcurrent : d.currentScreenId = some .sysstat
  · exact sets_of_current hcurrent (Or.inl rfl)
  · rw [Sets, displaySetScreen_succ, if_pos hcurrent, updateFunction, displayScreenSysStatUpdate]
    split
    · obtain ⟨d', shown, hset, hcurrent', hshown, hkept⟩ := sets_iu r depth
        (d := { painted r .sysstat d with
          currentSysstatScreensIndex :=
            counted .justSet (painted r .sysstat d).currentSysstatScreensIndex % 256 }) h
      refine ⟨{ d' with currentSysstatScreensIndex := 0 }, shown, ?_, hcurrent', Or.inr hshown, ?_⟩
      · rw [hset]
        rfl
      · exact ⟨hkept.texts, hkept.lastScreenId, hkept.iuUpdateCount, hkept.pbtUpdateCount⟩
    · exact ⟨_, .sysstat, rfl, rfl, Or.inl rfl, ⟨rfl, rfl, rfl, rfl⟩⟩

/-! ## Between the calls -/

/-- What holds between the calls, once a screen has been shown. -/
structure Settled (d : DisplayState) : Prop where
  current : ∃ shown, d.currentScreenId = some shown
  last : ∃ shown, d.lastScreenId = some shown
  iuUpdateCount : d.iuUpdateCount ≤ switchScreenInterval
  pbtUpdateCount : d.pbtUpdateCount ≤ switchScreenInterval

theorem Settled.of_kept {d d' : DisplayState} (h : Settled d) (hkept : Kept d d')
    {shown : ScreenId} (hcurrent : d'.currentScreenId = some shown) : Settled d' where
  current := ⟨shown, hcurrent⟩
  last := by
    rw [hkept.lastScreenId]
    exact h.last
  iuUpdateCount := by
    rw [hkept.iuUpdateCount]
    exact h.iuUpdateCount
  pbtUpdateCount := by
    rw [hkept.pbtUpdateCount]
    exact h.pbtUpdateCount

/-- Any screen can be set, and the custom screen is shown exactly when it was
asked for. -/
theorem sets_of_settled (r : Readings) (depth : Nat) {d : DisplayState} (h : Settled d)
    (id : ScreenId) :
    Sets r (depth + 2) id d fun shown => shown = .custom ↔ id = .custom := by
  cases id with
  | boot =>
      obtain ⟨d', shown, hset, hcurrent, hshown, hkept⟩ := sets_boot r (depth + 1) d
      exact ⟨d', shown, hset, hcurrent, by rw [hshown], hkept⟩
  | iu =>
      obtain ⟨d', shown, hset, hcurrent, hshown, hkept⟩ := sets_iu r (depth + 1) h.iuUpdateCount
      exact ⟨d', shown, hset, hcurrent, by rw [hshown], hkept⟩
  | pbt =>
      obtain ⟨d', shown, hset, hcurrent, hshown, hkept⟩ := sets_pbt r (depth + 1) h.pbtUpdateCount
      exact ⟨d', shown, hset, hcurrent, by rw [hshown], hkept⟩
  | sysstat =>
      obtain ⟨d', shown, hset, hcurrent, hshown, hkept⟩ := sets_sysstat r depth h.iuUpdateCount
      refine ⟨d', shown, hset, hcurrent, ?_, hkept⟩
      rcases hshown with hshown | hshown <;> simp [hshown]
  | custom =>
      obtain ⟨d', shown, hset, hcurrent, hshown, hkept⟩ := sets_custom r (depth + 1) d
      exact ⟨d', shown, hset, hcurrent, by rw [hshown], hkept⟩

/-- An automatic change: the display stays settled, neither enters nor leaves the
custom screen, and does not touch what the remote side has set. -/
structure Automatic (d d' : DisplayState) : Prop where
  settled : Settled d'
  custom : d'.currentScreenId = some .custom ↔ d.currentScreenId = some .custom
  lastScreenId : d'.lastScreenId = d.lastScreenId
  texts : d'.texts = d.texts

/-- A change from one screen to another that keeps what the remote side has set. -/
theorem automatic_of_switch {d d' : DisplayState} (h : Settled d) {before shown : ScreenId}
    (hbefore : d.currentScreenId = some before) (hcustom : before ≠ .custom)
    (hshown : d'.currentScreenId = some shown) (hcustom' : shown ≠ .custom)
    (hlast : d'.lastScreenId = d.lastScreenId) (htexts : d'.texts = d.texts)
    (hiu : d'.iuUpdateCount ≤ switchScreenInterval)
    (hpbt : d'.pbtUpdateCount ≤ switchScreenInterval) : Automatic d d' := by
  refine ⟨⟨⟨shown, hshown⟩, ?_, hiu, hpbt⟩, ?_, hlast, htexts⟩
  · rw [hlast]
    exact h.last
  · rw [hshown, hbefore]
    simp [hcustom, hcustom']

theorem iuUpdate_automatic (r : Readings) {d : DisplayState} (h : Settled d)
    (hcurrent : d.currentScreenId = some .iu) :
    ∃ d', displayScreenIuUpdate (displaySetScreen r nesting) r .regular d = some d' ∧
      Automatic d d' := by
  rw [displayScreenIuUpdate]
  split
  · obtain ⟨d', shown, hset, hcurrent', hshown, hkept⟩ := sets_pbt r 2
      (d := { d with iuUpdateCount := counted .regular d.iuUpdateCount }) h.pbtUpdateCount
    refine ⟨{ d' with iuUpdateCount := 0 }, ?_, automatic_of_switch h hcurrent (by decide)
      hcurrent' ?_ hkept.lastScreenId hkept.texts (Nat.zero_le _) ?_⟩
    · rw [nesting, hset]
      rfl
    · rw [hshown]
      decide
    · rw [hkept.pbtUpdateCount]
      exact h.pbtUpdateCount
  · rename_i hcount
    exact ⟨_, rfl, ⟨⟨.iu, hcurrent⟩, h.last, Nat.not_lt.mp hcount, h.pbtUpdateCount⟩, Iff.rfl, rfl,
      rfl⟩

theorem pbtUpdate_automatic (r : Readings) {d : DisplayState} (h : Settled d)
    (hcurrent : d.currentScreenId = some .pbt) :
    ∃ d', displayScreenPbtUpdate (displaySetScreen r nesting) r .regular d = some d' ∧
      Automatic d d' := by
  rw [displayScreenPbtUpdate]
  split
  · obtain ⟨d', shown, hset, hcurrent', hshown, hkept⟩ := sets_sysstat r 1
      (d := { d with pbtUpdateCount := counted .regular d.pbtUpdateCount }) h.iuUpdateCount
    refine ⟨{ d' with pbtUpdateCount := 0 }, ?_, automatic_of_switch h hcurrent (by decide)
      hcurrent' ?_ hkept.lastScreenId hkept.texts ?_ (Nat.zero_le _)⟩
    · rw [nesting, hset]
      rfl
    · rcases hshown with rfl | rfl <;> decide
    · rw [hkept.iuUpdateCount]
      exact h.iuUpdateCount
  · rename_i hcount
    exact ⟨_, rfl, ⟨⟨.pbt, hcurrent⟩, h.last, h.iuUpdateCount, Nat.not_lt.mp hcount⟩, Iff.rfl, rfl,
      rfl⟩

theorem sysStatUpdate_automatic (r : Readings) {d : DisplayState} (h : Settled d)
    (hcurrent : d.currentScreenId = some .sysstat) :
    ∃ d', displayScreenSysStatUpdate (displaySetScreen r nesting) .regular d = some d' ∧
      Automatic d d' := by
  rw [displayScreenSysStatUpdate]
  split
  · obtain ⟨d', shown, hset, hcurrent', hshown, hkept⟩ := sets_iu r 2
      (d := { d with
        currentSysstatScreensIndex := counted .regular d.currentSysstatScreensIndex % 256 })
      h.iuUpdateCount
    refine ⟨{ d' with currentSysstatScreensIndex := 0 }, ?_, automatic_of_switch h hcurrent
      (by decide) hcurrent' ?_ hkept.lastScreenId hkept.texts ?_ ?_⟩
    · rw [nesting, hset]
      rfl
    · rw [hshown]
      decide
    · rw [hkept.iuUpdateCount]
      exact h.iuUpdateCount
    · rw [hkept.pbtUpdateCount]
      exact h.pbtUpdateCount
  · exact ⟨_, rfl, ⟨⟨.sysstat, hcurrent⟩, h.last, h.iuUpdateCount, h.pbtUpdateCount⟩, Iff.rfl, rfl,
      rfl⟩

/-- A regular update is an automatic change. -/
theorem regularUpdate_automatic (r : Readings) {d : DisplayState} (h : Settled d) :
    ∃ d', regularUpdate r d = some d' ∧ Automatic d d' := by
  obtain ⟨current, hcurrent⟩ := h.current
  rw [regularUpdate, hcurrent]
  cases current with
  | boot => exact ⟨d, rfl, h, Iff.rfl, rfl, rfl⟩
  | iu => exact iuUpdate_automatic r h hcurrent
  | pbt => exact pbtUpdate_automatic r h hcurrent
  | sysstat => exact sysStatUpdate_automatic r h hcurrent
  | custom =>
      exact ⟨displayScreenCustomUpdate r d, rfl,
        ⟨h.current, h.last, h.iuUpdateCount, h.pbtUpdateCount⟩, Iff.rfl, rfl, rfl⟩

/-! ## Runs -/

/-- What happens to the display: the calls of the remote side, the updates by the
task, and the change to `iu` with which the task follows its first screen. -/
inductive DisplayEvent where
  | clearAndSetCustomScreen
  | returnToNormalScreen
  | text (call : TextCall)
  | regularUpdate
  | showIu
  deriving Inhabited

/-- One event, with what the screens read meanwhile; `none` is a failed
`assert`. -/
def displayStep (d : DisplayState) : Readings × DisplayEvent → Option DisplayState
  | (r, .clearAndSetCustomScreen) => displayClearAndSetCustomScreen r d
  | (r, .returnToNormalScreen) => displayReturnToNormalScreen r d
  | (_, .text call) => displayText call d
  | (r, .regularUpdate) => regularUpdate r d
  | (r, .showIu) => displaySetScreen r nesting .iu d

/-- The display and its variables before the task starts. -/
def displayPowerOn (lcd : Lcd) (behind : Nat → Byte) : DisplayState :=
  { lcd := lcd
    texts := startTexts behind
    currentScreenId := none
    currentSysstatScreensIndex := 0
    iuUpdateCount := 0
    pbtUpdateCount := 0
    lastScreenId := some .boot }

/-- The task has initialised the display and shown its first screen. -/
def firstScreen (r : Readings) (lcd : Lcd) (behind : Nat → Byte) : Option DisplayState :=
  displaySetScreen r nesting .boot (displayPowerOn (lcdInit lcd) behind)

/-- The first screen is shown. -/
theorem firstScreen_settled (r : Readings) (lcd : Lcd) (behind : Nat → Byte) :
    ∃ d, firstScreen r lcd behind = some d ∧ Settled d ∧ d.currentScreenId = some .boot := by
  obtain ⟨d, shown, hset, hcurrent, hshown, hkept⟩ :=
    sets_boot r 2 (displayPowerOn (lcdInit lcd) behind)
  subst hshown
  refine ⟨d, hset, ⟨⟨_, hcurrent⟩, ⟨.boot, hkept.lastScreenId⟩, ?_, ?_⟩, hcurrent⟩
  · rw [hkept.iuUpdateCount]
    exact Nat.zero_le _
  · rw [hkept.pbtUpdateCount]
    exact Nat.zero_le _

/-! ## The three modes -/

/-- What the remote side has to know about the display. -/
inductive Mode where
  /-- some other screen than the custom one -/
  | normal
  /-- the custom screen, in the place of another one -/
  | custom
  /-- the custom screen, in its own place -/
  | trapped
  deriving DecidableEq, Repr

/-- The mode after an event. -/
def Mode.after : Mode → DisplayEvent → Mode
  | .normal, .clearAndSetCustomScreen => .custom
  | .custom, .clearAndSetCustomScreen => .trapped
  | .trapped, .clearAndSetCustomScreen => .trapped
  | .custom, .returnToNormalScreen => .normal
  | mode, .returnToNormalScreen => mode
  | mode, .text _ => mode
  | mode, .regularUpdate => mode
  | _, .showIu => .normal

/-- The mode of a state. -/
def modeOf (d : DisplayState) : Mode :=
  if d.currentScreenId = some .custom then
    if d.lastScreenId = some .custom then .trapped else .custom
  else .normal

theorem modeOf_automatic {d d' : DisplayState} (h : Automatic d d') : modeOf d' = modeOf d := by
  unfold modeOf
  rw [h.lastScreenId]
  exact if_congr h.custom rfl rfl

/-- Setting a screen in a settled state. -/
theorem set_settled (r : Readings) {d : DisplayState} (h : Settled d) (id : ScreenId) :
    ∃ d', displaySetScreen r nesting id d = some d' ∧ Settled d' ∧
      (d'.currentScreenId = some .custom ↔ id = .custom) ∧ d'.lastScreenId = d.lastScreenId := by
  obtain ⟨d', shown, hset, hcurrent, hshown, hkept⟩ := sets_of_settled r 1 h id
  refine ⟨d', hset, h.of_kept hkept hcurrent, ?_, hkept.lastScreenId⟩
  rw [hcurrent, Option.some.injEq]
  exact hshown

/-- The screen is replaced by the custom one, which is remembered when it was
shown already. -/
theorem clearAndSet_settled (r : Readings) {d : DisplayState} (h : Settled d) :
    ∃ d', displayClearAndSetCustomScreen r d = some d' ∧ Settled d' ∧
      modeOf d' = (modeOf d).after .clearAndSetCustomScreen := by
  have hbefore : Settled { d with
      texts := displayCustomScreenClear d.texts
      lastScreenId := d.currentScreenId } :=
    ⟨h.current, h.current, h.iuUpdateCount, h.pbtUpdateCount⟩
  obtain ⟨d', hset, hsettled, hcustom, hlast⟩ := set_settled r hbefore .custom
  refine ⟨d', hset, hsettled, ?_⟩
  have hlast' : d'.lastScreenId = d.currentScreenId := hlast
  unfold modeOf
  rw [if_pos (hcustom.mpr rfl), hlast']
  by_cases hshown : d.currentScreenId = some .custom
  · rw [if_pos hshown, if_pos hshown]
    by_cases htrapped : d.lastScreenId = some .custom
    · rw [if_pos htrapped]
      rfl
    · rw [if_neg htrapped]
      rfl
  · rw [if_neg hshown, if_neg hshown]
    rfl

/-- Returning leaves the custom screen for the one remembered. -/
theorem return_settled (r : Readings) {d : DisplayState} (h : Settled d) :
    ∃ d', displayReturnToNormalScreen r d = some d' ∧ Settled d' ∧
      modeOf d' = (modeOf d).after .returnToNormalScreen := by
  rw [displayReturnToNormalScreen]
  by_cases hshown : d.currentScreenId = some .custom
  · obtain ⟨last, hlast⟩ := h.last
    obtain ⟨d', hset, hsettled, hcustom, hlast'⟩ := set_settled r h last
    rw [if_pos hshown, hlast]
    refine ⟨d', hset, hsettled, ?_⟩
    unfold modeOf
    rw [if_pos hshown, hlast', hlast]
    by_cases htrapped : last = .custom
    · rw [if_pos (hcustom.mpr htrapped), if_pos (congrArg some htrapped)]
      rfl
    · rw [if_neg fun hcurrent => htrapped (hcustom.mp hcurrent),
        if_neg fun hsame => htrapped (Option.some.inj hsame)]
      rfl
  · rw [if_neg hshown]
    refine ⟨d, rfl, h, ?_⟩
    unfold modeOf
    rw [if_neg hshown]
    rfl

/-- Texts do not change the screen. -/
theorem text_settled {d d' : DisplayState} (h : Settled d) {call : TextCall}
    (hstep : displayText call d = some d') : Settled d' ∧ modeOf d' = modeOf d := by
  have hkept : d'.currentScreenId = d.currentScreenId ∧ d'.lastScreenId = d.lastScreenId ∧
      d'.iuUpdateCount = d.iuUpdateCount ∧ d'.pbtUpdateCount = d.pbtUpdateCount := by
    cases call with
    | writeText row text =>
        rw [← Option.some.inj hstep]
        exact ⟨rfl, rfl, rfl, rfl⟩
    | setSysstatScreen countOfScreens screenIndex row text =>
        obtain ⟨texts, -, hd⟩ := Option.bind_eq_some_iff.mp hstep
        rw [← Option.some.inj hd]
        exact ⟨rfl, rfl, rfl, rfl⟩
  obtain ⟨hcurrent, hlast, hiu, hpbt⟩ := hkept
  refine ⟨⟨?_, ?_, ?_, ?_⟩, ?_⟩
  · rw [hcurrent]
    exact h.current
  · rw [hlast]
    exact h.last
  · rw [hiu]
    exact h.iuUpdateCount
  · rw [hpbt]
    exact h.pbtUpdateCount
  · unfold modeOf
    rw [hcurrent, hlast]

/-- One event takes a settled state to a settled state, and the mode along. -/
theorem displayStep_settled {d d' : DisplayState} {event : Readings × DisplayEvent}
    (h : Settled d) (hstep : displayStep d event = some d') :
    Settled d' ∧ modeOf d' = (modeOf d).after event.2 := by
  obtain ⟨r, event⟩ := event
  cases event with
  | clearAndSetCustomScreen =>
      obtain ⟨after, hset, hsettled, hmode⟩ := clearAndSet_settled r h
      rw [displayStep, hset] at hstep
      rw [← Option.some.inj hstep]
      exact ⟨hsettled, hmode⟩
  | returnToNormalScreen =>
      obtain ⟨after, hset, hsettled, hmode⟩ := return_settled r h
      rw [displayStep, hset] at hstep
      rw [← Option.some.inj hstep]
      exact ⟨hsettled, hmode⟩
  | text call =>
      obtain ⟨hsettled, hmode⟩ := text_settled h hstep
      refine ⟨hsettled, hmode.trans ?_⟩
      cases modeOf d <;> rfl
  | regularUpdate =>
      obtain ⟨after, hset, hauto⟩ := regularUpdate_automatic r h
      rw [displayStep, hset] at hstep
      rw [← Option.some.inj hstep]
      refine ⟨hauto.settled, (modeOf_automatic hauto).trans ?_⟩
      cases modeOf d <;> rfl
  | showIu =>
      obtain ⟨after, hset, hsettled, hcustom, -⟩ := set_settled r h .iu
      rw [displayStep, hset] at hstep
      rw [← Option.some.inj hstep]
      refine ⟨hsettled, ?_⟩
      unfold modeOf
      rw [if_neg fun hcurrent => absurd (hcustom.mp hcurrent) (by decide)]
      split <;> (try split) <;> rfl

/-- The mode after a run of events from the first screen. -/
def modeAfter (run : List (Readings × DisplayEvent)) : Mode :=
  run.foldl (fun mode event => mode.after event.2) .normal

/-- In every run the states are settled and their modes follow the events. -/
theorem run_settled {start d : DisplayState} (hsettled : Settled start)
    (hboot : start.currentScreenId = some .boot) {run : List (Readings × DisplayEvent)}
    (hrun : runFrom displayStep start run = some d) : Settled d ∧ modeOf d = modeAfter run := by
  refine runFrom_invariant (fun past d => Settled d ∧ modeOf d = modeAfter past) ?_ ?_ hrun
  · refine ⟨hsettled, ?_⟩
    unfold modeOf
    rw [hboot, if_neg (by decide)]
    rfl
  · rintro past before event after ⟨hbefore, hmode⟩ hstep
    obtain ⟨hafter, hmode'⟩ := displayStep_settled hbefore hstep
    refine ⟨hafter, ?_⟩
    rw [hmode', hmode, modeAfter, modeAfter, List.foldl_append]
    rfl

/-- After any run the display can be taken off the custom screen exactly when it
is not trapped there. -/
theorem return_leaves_custom_iff {r₀ : Readings} {lcd : Lcd} {behind : Nat → Byte}
    {start d : DisplayState} (hstart : firstScreen r₀ lcd behind = some start)
    {run : List (Readings × DisplayEvent)} (hrun : runFrom displayStep start run = some d)
    (r : Readings) :
    ∃ d', displayReturnToNormalScreen r d = some d' ∧
      (d'.currentScreenId ≠ some .custom ↔ modeAfter run ≠ .trapped) := by
  obtain ⟨start', hfirst, hsettled, hboot⟩ := firstScreen_settled r₀ lcd behind
  rw [hfirst] at hstart
  rw [Option.some.inj hstart] at hsettled hboot
  obtain ⟨hd, hmode⟩ := run_settled hsettled hboot hrun
  obtain ⟨d', hreturn, -, hmode'⟩ := return_settled r hd
  refine ⟨d', hreturn, ?_⟩
  rw [hmode] at hmode'
  have hnormal : d'.currentScreenId ≠ some .custom ↔ modeOf d' = .normal := by
    unfold modeOf
    split
    · rename_i hcustom
      refine ⟨fun hne => absurd hcustom hne, ?_⟩
      split <;> intro h <;> cases h
    · rename_i hcustom
      exact ⟨fun _ => rfl, fun _ => hcustom⟩
  rw [hnormal, hmode']
  cases modeAfter run <;> simp [Mode.after]

/-! ## No way back -/

/-- The custom screen is set twice. -/
def clearedTwice : List (Readings × DisplayEvent) :=
  [(zeroReadings, .clearAndSetCustomScreen), (zeroReadings, .clearAndSetCustomScreen)]

theorem run_clearedTwice {start : DisplayState} (h : Settled start) :
    ∃ d, runFrom displayStep start clearedTwice = some d := by
  obtain ⟨d₁, hfirst, hsettled, -⟩ := clearAndSet_settled zeroReadings h
  obtain ⟨d₂, hsecond, -, -⟩ := clearAndSet_settled zeroReadings hsettled
  refine ⟨d₂, ?_⟩
  have hone : runFrom displayStep start [(zeroReadings, .clearAndSetCustomScreen)] = some d₁ :=
    runFrom_concat_eq_some.mpr ⟨start, runFrom_nil, hfirst⟩
  have htwo : clearedTwice = [(zeroReadings, .clearAndSetCustomScreen)] ++
      [(zeroReadings, .clearAndSetCustomScreen)] := rfl
  rw [htwo]
  exact runFrom_concat_eq_some.mpr ⟨d₁, hone, hsecond⟩

theorem return_leaves_custom_iff_clearedTwice :
    ∃ start d d', firstScreen zeroReadings (powerUp 0 0 0 fun _ => blankCell) (fun _ => 0#8) =
        some start ∧
      runFrom displayStep start clearedTwice = some d ∧
      displayReturnToNormalScreen zeroReadings d = some d' ∧
      (d'.currentScreenId ≠ some .custom ↔ modeAfter clearedTwice ≠ .trapped) := by
  obtain ⟨start, hstart, hsettled, -⟩ :=
    firstScreen_settled zeroReadings (powerUp 0 0 0 fun _ => blankCell) fun _ => 0#8
  obtain ⟨d, hrun⟩ := run_clearedTwice hsettled
  obtain ⟨d', hreturn, hiff⟩ := return_leaves_custom_iff hstart hrun zeroReadings
  exact ⟨start, d, d', hstart, hrun, hreturn, hiff⟩

/-- After two calls of `display_clear_and_set_custom_screen` the display stays on
the custom screen. -/
theorem return_stays_on_custom :
    ¬ ∀ (r₀ : Readings) (lcd : Lcd) (behind : Nat → Byte) (start d : DisplayState)
      (run : List (Readings × DisplayEvent)) (r : Readings),
      firstScreen r₀ lcd behind = some start → runFrom displayStep start run = some d →
      ∃ d', displayReturnToNormalScreen r d = some d' ∧ d'.currentScreenId ≠ some .custom := by
  intro hclaim
  obtain ⟨start, hstart, hsettled, hboot⟩ :=
    firstScreen_settled zeroReadings (powerUp 0 0 0 fun _ => blankCell) fun _ => 0#8
  obtain ⟨d, hrun⟩ := run_clearedTwice hsettled
  obtain ⟨hd, hmode⟩ := run_settled hsettled hboot hrun
  obtain ⟨d₁, hreturn, hleaves⟩ := hclaim _ _ _ start d clearedTwice zeroReadings hstart hrun
  obtain ⟨d₂, hreturn', -, hmode'⟩ := return_settled zeroReadings hd
  rw [hreturn] at hreturn'
  rw [← Option.some.inj hreturn', hmode] at hmode'
  -- The mode is `trapped` and stays so.
  have htrapped : modeOf d₁ = .trapped := hmode'
  unfold modeOf at htrapped
  rw [if_neg hleaves] at htrapped
  cases htrapped

end WindradLogger.Display
