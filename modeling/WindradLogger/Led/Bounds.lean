import WindradLogger.Lib.Run
import WindradLogger.Led.Table
import Mathlib.Tactic.IntervalCases

set_option autoImplicit false

/-!
# Accesses to the table of patterns

The initialisation of `taskLED` gives the priority in the place of the LED and the
LED in that of the priority.  The third LED is then taken for a third priority,
which the table does not have.  All other accesses, those of the other code and
those of the loop, are to patterns of the table.
-/

namespace WindradLogger.Led

open WindradLogger.Lib

/-! ## What a call does -/

/-- What a call makes of `active`. -/
def PatternCall.activates : PatternCall → Bool
  | deactivate _ _ => false
  | _ => true

/-- The checks of the call hold. -/
def PatternCall.Accepted : PatternCall → Prop
  | setToMorse ledID _ _ morsePatternLength =>
      ledID < lidLedCount ∧ 9 > morsePatternLength ∧ morsePatternLength > 0
  | call => call.ledID < lidLedCount

instance : DecidablePred PatternCall.Accepted := fun call =>
  match call with
  | .setToMorse ledID _ _ morsePatternLength =>
      inferInstanceAs (Decidable (ledID < lidLedCount ∧ 9 > morsePatternLength ∧ _))
  | .setToFade ledID _ | .setToBlink ledID _ _ _ _ _ | .setToOff ledID _ | .deactivate ledID _ =>
      inferInstanceAs (Decidable (ledID < lidLedCount))

/-- The call goes through: it changes the pattern of its LED and priority. -/
theorem PatternCall.apply_of_accepted {call : PatternCall} (h : call.Accepted) (s : Leds) :
    ∃ change board,
      call.apply s = { s.modify call.ledID call.priority change with board := board } ∧
        ∀ p, (change p).active = call.activates := by
  cases call with
  | setToFade ledID priority => exact ⟨_, s.board, if_pos h, fun _ => rfl⟩
  | setToMorse ledID priority morsePattern morsePatternLength =>
      exact ⟨_, s.board, if_pos h, fun _ => rfl⟩
  | setToBlink ledID priority timeOn timeOff timePause repeats =>
      exact ⟨_, s.board, if_pos h, fun _ => rfl⟩
  | setToOff ledID priority =>
      exact ⟨_, boardSetLED ledID .off s.board, if_pos h, fun _ => rfl⟩
  | deactivate ledID priority =>
      exact ⟨_, boardSetLED ledID .off s.board, if_pos h, fun _ => rfl⟩

theorem PatternCall.apply_of_not_accepted {call : PatternCall} (h : ¬ call.Accepted) (s : Leds) :
    call.apply s = s := by
  cases call with
  | setToFade ledID priority => exact if_neg h
  | setToMorse ledID priority morsePattern morsePatternLength => exact if_neg h
  | setToBlink ledID priority timeOn timeOff timePause repeats => exact if_neg h
  | setToOff ledID priority => exact if_neg h
  | deactivate ledID priority => exact if_neg h

/-- No other memory changes. -/
theorem PatternCall.apply_memory (call : PatternCall) (s : Leds) {address : Int}
    (h : address ≠ addressOf call.cell) : (call.apply s).memory address = s.memory address := by
  rcases Decidable.em call.Accepted with haccepted | hrejected
  · obtain ⟨change, board, hchange, -⟩ := apply_of_accepted haccepted s
    rw [hchange]
    exact Function.update_of_ne h _ _
  · rw [apply_of_not_accepted hrejected]

/-- The accesses grow by at most that of the call's pattern. -/
theorem PatternCall.apply_accesses (call : PatternCall) (s : Leds) :
    ∃ new, (call.apply s).accesses = s.accesses ++ new ∧ ∀ cell ∈ new, cell = call.cell := by
  rcases Decidable.em call.Accepted with haccepted | hrejected
  · obtain ⟨change, board, hchange, -⟩ := apply_of_accepted haccepted s
    rw [hchange]
    exact ⟨[call.cell], rfl, fun _ hmem => List.mem_singleton.mp hmem⟩
  · rw [apply_of_not_accepted hrejected]
    exact ⟨[], (List.append_nil _).symm, fun _ hmem => absurd hmem List.not_mem_nil⟩

/-! ## The calls of a run -/

/-- The call that an event makes. -/
def callOf (s : LedTask) : LedEvent → Option PatternCall
  | .task =>
      match s.pending with
      | .call call :: _ => some call
      | _ => none
  | .other other => some other.call

/-- A call in the event changes its own pattern and nothing else. -/
def OwnPatternOnly (s : LedTask) (event : LedEvent) : Prop :=
  ∀ call, callOf s event = some call → ∀ address,
    (ledStep s event).leds.memory address ≠ s.leds.memory address →
      InTable call.cell ∧ address = addressOf call.cell

theorem taskStep_of_call {s : LedTask} {call : PatternCall} {rest : List TaskStep}
    (h : s.pending = .call call :: rest) :
    taskStep s = { s with pending := rest, leds := call.apply s.leds } := by
  rw [taskStep, h]
  rfl

theorem ledStep_of_call {s : LedTask} {event : LedEvent} {call : PatternCall}
    (h : callOf s event = some call) : (ledStep s event).leds = call.apply s.leds := by
  cases event with
  | task =>
      rw [callOf] at h
      split at h
      · rename_i first rest hpending
        rw [← Option.some.inj h, ledStep, taskStep_of_call hpending]
      · cases h
  | other other =>
      rw [← Option.some.inj h]
      rfl

/-- A call that is about a pattern of the table does as it should. -/
theorem ownPatternOnly_of_inTable {s : LedTask} {event : LedEvent} {call : PatternCall}
    (h : callOf s event = some call) (hin : InTable call.cell) : OwnPatternOnly s event := by
  intro call' hcall' address hchanged
  obtain rfl : call = call' := Option.some.inj (h.symm.trans hcall')
  refine ⟨hin, ?_⟩
  by_contra hne
  rw [ledStep_of_call h] at hchanged
  exact hchanged (call.apply_memory s.leds hne)

theorem OtherCall.inTable (other : OtherCall) : InTable other.call.cell := by
  obtain ⟨call, ⟨hled, hled'⟩, ⟨hprio, hprio'⟩⟩ := other
  have hled4 : call.ledID < 4 := hled'
  have hprio3 : call.priority < 3 := hprio'
  simp only [InTable, PatternCall.cell, cellOf, lidLedCount, lppPriorityCount]
  omega

/-! ## Up to the third priority -/

/-- The steps of the task in a run. -/
def taskSteps (run : List LedEvent) : Nat :=
  run.countP fun event => match event with
    | .task => true
    | .other _ => false

@[simp] theorem taskSteps_nil : taskSteps [] = 0 := rfl

@[simp] theorem taskSteps_concat_task (past : List LedEvent) :
    taskSteps (past ++ [.task]) = taskSteps past + 1 := by
  rw [taskSteps, List.countP_append]
  rfl

@[simp] theorem taskSteps_concat_other (past : List LedEvent) (other : OtherCall) :
    taskSteps (past ++ [.other other]) = taskSteps past := by
  rw [taskSteps, List.countP_append]
  rfl

theorem taskSteps_le_concat (past : List LedEvent) (event : LedEvent) :
    taskSteps past ≤ taskSteps (past ++ [event]) := by
  rw [taskSteps, taskSteps, List.countP_append]
  exact Nat.le_add_right _ _

section FromPowerOn

variable (behind : Int → LedBlinkPattern) (board : Board)

/-- The state after a run. -/
abbrev ledAfter (run : List LedEvent) : LedTask := run.foldl ledStep (ledPowerOn behind board)

theorem ledAfter_concat (past : List LedEvent) (event : LedEvent) :
    ledAfter behind board (past ++ [event]) = ledStep (ledAfter behind board past) event :=
  List.foldl_concat ..

/-- During the initialisation the task has its remaining calls to make. -/
theorem pending_of_run (run : List LedEvent) (h : taskSteps run ≤ initCalls.length) :
    (ledAfter behind board run).pending = (initCalls.drop (taskSteps run)).map .call := by
  revert h
  refine foldl_invariant (fun past (s : LedTask) => taskSteps past ≤ initCalls.length →
    s.pending = (initCalls.drop (taskSteps past)).map .call) (fun _ => rfl) ?_ run
  intro past event ih h
  cases event with
  | task =>
      rw [taskSteps_concat_task] at h ⊢
      have hpending := ih (Nat.le_of_succ_le h)
      rw [List.drop_eq_getElem_cons h, List.map_cons] at hpending
      rw [ledStep, taskStep_of_call hpending]
  | other other =>
      rw [taskSteps_concat_other] at h ⊢
      exact ih h

/-- The first four calls of the task, and all of the other code, are about
patterns of the table. -/
theorem callOf_of_few {past : List LedEvent} {event : LedEvent}
    (h : taskSteps (past ++ [event]) ≤ 4) :
    ∃ call, callOf (ledAfter behind board past) event = some call ∧ InTable call.cell := by
  cases event with
  | task =>
      rw [taskSteps_concat_task] at h
      have hlength : initCalls.length = 13 := rfl
      have hpending := pending_of_run behind board past (by omega)
      rw [callOf, hpending]
      have hfew : taskSteps past < 4 := h
      generalize taskSteps past = n at hfew
      interval_cases n
      · exact ⟨_, rfl, by decide⟩
      · exact ⟨_, rfl, by decide⟩
      · exact ⟨_, rfl, by decide⟩
      · exact ⟨_, rfl, by decide⟩
  | other other => exact ⟨other.call, rfl, other.inTable⟩

theorem accesses_of_few (run : List LedEvent) (h : taskSteps run ≤ 4) :
    ∀ cell ∈ (ledAfter behind board run).leds.accesses, InTable cell := by
  revert h
  refine foldl_invariant (fun past (s : LedTask) => taskSteps past ≤ 4 →
    ∀ cell ∈ s.leds.accesses, InTable cell) (fun _ _ hmem => absurd hmem List.not_mem_nil) ?_ run
  intro past event ih h
  obtain ⟨call, hcall, hin⟩ := callOf_of_few behind board h
  have hpast := ih (Nat.le_trans (taskSteps_le_concat past event) h)
  rw [ledStep_of_call hcall]
  obtain ⟨new, hnew, hcell⟩ := call.apply_accesses (ledAfter behind board past).leds
  rw [hnew]
  intro cell hmem
  rcases List.mem_append.mp hmem with hmem | hmem
  · exact hpast cell hmem
  · rw [hcell cell hmem]
    exact hin

end FromPowerOn

/-! ## Steps of the task -/

/-- A step of the task accesses a cell, given `maxPrio`. -/
def AccessedBy (maxPrio : Nat) (cell : Cell) : TaskStep → Prop
  | .call call => cell = call.cell
  | .find ledID => ∃ prio ∈ priorities, cell = cellOf ledID prio
  | .look ledID => cell = cellOf ledID maxPrio
  | .choose => False
  | .tick _ ledID => cell = cellOf ledID maxPrio

theorem firstActive_accesses (ledID : Nat) (prios : List Nat) (s : Leds) :
    ∃ new, (firstActive ledID prios s).2.accesses = s.accesses ++ new ∧
      ∀ cell ∈ new, ∃ prio ∈ prios, cell = cellOf ledID prio := by
  induction prios generalizing s with
  | nil => exact ⟨[], (List.append_nil _).symm, fun _ hmem => absurd hmem List.not_mem_nil⟩
  | cons prio rest ih =>
      have hfirst : ∀ cell, cell = cellOf ledID prio →
          ∃ prio' ∈ prio :: rest, cell = cellOf ledID prio' :=
        fun cell hcell => ⟨prio, List.mem_cons_self, hcell⟩
      rw [firstActive]
      split
      · exact ⟨[cellOf ledID prio], rfl, fun cell hmem =>
          hfirst cell (List.mem_singleton.mp hmem)⟩
      · obtain ⟨new, hnew, hcells⟩ := ih (s.access ledID prio)
        refine ⟨cellOf ledID prio :: new, ?_, fun cell hmem => ?_⟩
        · rw [hnew, Leds.access, List.append_assoc]
          rfl
        · rcases List.mem_cons.mp hmem with hcell | hmem
          · exact hfirst cell hcell
          · obtain ⟨prio', hprio', hcell⟩ := hcells cell hmem
            exact ⟨prio', List.mem_cons_of_mem _ hprio', hcell⟩

theorem firstActive_mem (ledID : Nat) (prios : List Nat) (s : Leds) :
    (firstActive ledID prios s).1 ∈ lppPriority1 :: prios := by
  induction prios generalizing s with
  | nil => exact List.mem_cons_self
  | cons prio rest ih =>
      rw [firstActive]
      split
      · exact List.mem_cons_of_mem _ List.mem_cons_self
      · rcases List.mem_cons.mp (ih (s.access ledID prio)) with hdefault | hrest
        · rw [hdefault]
          exact List.mem_cons_self
        · exact List.mem_cons_of_mem _ (List.mem_cons_of_mem _ hrest)

/-- What a step that ticks can do: tick, with or without a look at the style, or
look only. -/
theorem perform_tick_leds (s : LedTask) (tickWhen : TickWhen) (ledID : Nat) :
    (perform s (.tick tickWhen ledID)).leds = tickPattern ledID s.maxPrio s.leds ∨
      (perform s (.tick tickWhen ledID)).leds =
        tickPattern ledID s.maxPrio (s.leds.access ledID s.maxPrio) ∨
      (perform s (.tick tickWhen ledID)).leds = s.leds.access ledID s.maxPrio := by
  cases tickWhen with
  | always => exact Or.inl rfl
  | fade =>
      rw [perform]
      dsimp only [LedTask.fades]
      split
      · exact Or.inr (Or.inl rfl)
      · exact Or.inr (Or.inr rfl)
  | notFade =>
      rw [perform]
      dsimp only [LedTask.fades]
      split
      · exact Or.inr (Or.inr rfl)
      · exact Or.inr (Or.inl rfl)

/-- The accesses of a step come behind the earlier ones. -/
theorem perform_accesses (s : LedTask) (next : TaskStep) :
    ∃ new, (perform s next).leds.accesses = s.leds.accesses ++ new ∧
      ∀ cell ∈ new, AccessedBy s.maxPrio cell next := by
  have hone : ∀ cell ledID, cell ∈ [cellOf ledID s.maxPrio] → cell = cellOf ledID s.maxPrio :=
    fun _ _ hmem => List.mem_singleton.mp hmem
  cases next with
  | call call => exact call.apply_accesses s.leds
  | find ledID => exact firstActive_accesses ledID priorities s.leds
  | look ledID => exact ⟨[cellOf ledID s.maxPrio], rfl, fun cell hmem => hone cell ledID hmem⟩
  | choose => exact ⟨[], (List.append_nil _).symm, fun _ hmem => absurd hmem List.not_mem_nil⟩
  | tick tickWhen ledID =>
      rcases perform_tick_leds s tickWhen ledID with hticked | hboth | hlooked
      · rw [hticked]
        exact ⟨[cellOf ledID s.maxPrio], rfl, fun cell hmem => hone cell ledID hmem⟩
      · rw [hboth]
        refine ⟨[cellOf ledID s.maxPrio, cellOf ledID s.maxPrio], List.append_assoc .., ?_⟩
        intro cell hmem
        rcases List.mem_cons.mp hmem with hcell | hmem
        · exact hcell
        · exact hone cell ledID hmem
      · rw [hlooked]
        exact ⟨[cellOf ledID s.maxPrio], rfl, fun cell hmem => hone cell ledID hmem⟩

theorem accesses_taskStep (s : LedTask) :
    s.leds.accesses <+: (taskStep s).leds.accesses := by
  rw [taskStep]
  split
  · exact List.prefix_rfl
  · rename_i next rest hpending
    obtain ⟨new, hnew, -⟩ := perform_accesses { s with pending := rest } next
    rw [hnew]
    exact List.prefix_append _ _

theorem accesses_ledStep (s : LedTask) (event : LedEvent) :
    s.leds.accesses <+: (ledStep s event).leds.accesses := by
  cases event with
  | task => exact accesses_taskStep s
  | other other =>
      obtain ⟨new, hnew, -⟩ := other.call.apply_accesses s.leds
      rw [ledStep, hnew]
      exact List.prefix_append _ _

/-! ## From the third priority on -/

section FromPowerOn

variable (behind : Int → LedBlinkPattern) (board : Board)

/-- The fifth call of the task is about LED 1 and priority 3. -/
theorem access_of_many (run : List LedEvent) (h : 4 < taskSteps run) :
    cellOf 1 3 ∈ (ledAfter behind board run).leds.accesses := by
  revert h
  refine foldl_invariant (fun past (s : LedTask) => 4 < taskSteps past →
    cellOf 1 3 ∈ s.leds.accesses) (fun h => absurd h (by decide)) ?_ run
  intro past event ih h
  rcases Nat.lt_or_ge 4 (taskSteps past) with hmany | hfew
  · exact (accesses_ledStep _ event).subset (ih hmany)
  · cases event with
    | task =>
        rw [taskSteps_concat_task] at h
        have hfour : taskSteps past = 4 := Nat.le_antisymm hfew (Nat.le_of_lt_succ h)
        have hpending := pending_of_run behind board past (Nat.le_trans hfew (by decide))
        rw [hfour] at hpending
        rw [ledStep, taskStep_of_call hpending]
        exact List.mem_append_right _ List.mem_cons_self
    | other other =>
        rw [taskSteps_concat_other] at h
        exact absurd h (Nat.not_lt.mpr hfew)

/-! ## The loop -/

/-- A step as the task has them: a call of the initialisation, or a step of the
loop for an LED. -/
def Usual : TaskStep → Prop
  | .call call => call ∈ initCalls
  | .find ledID | .look ledID | .tick _ ledID => ledID ∈ ledIndices
  | .choose => True

instance : DecidablePred Usual := fun next =>
  match next with
  | .call call => inferInstanceAs (Decidable (call ∈ initCalls))
  | .find ledID | .look ledID | .tick _ ledID => inferInstanceAs (Decidable (ledID ∈ ledIndices))
  | .choose => inferInstanceAs (Decidable True)

theorem mem_roundSteps {containsFadePatterns : Bool} {next : TaskStep}
    (h : next ∈ roundSteps containsFadePatterns) : ∃ tickWhen, next ∈ tickSteps tickWhen := by
  rw [roundSteps] at h
  split at h
  · rcases List.mem_append.mp h with hmem | hmem
    · obtain ⟨steps, hsteps, hmem⟩ := List.mem_flatten.mp hmem
      rw [(List.mem_replicate.mp hsteps).2] at hmem
      exact ⟨_, hmem⟩
    · exact ⟨_, hmem⟩
  · exact ⟨_, h⟩

theorem usual_tickSteps (tickWhen : TickWhen) : ∀ next ∈ tickSteps tickWhen, Usual next := by
  cases tickWhen <;> decide

theorem usual_lookSteps : ∀ next ∈ lookSteps, Usual next := by decide

theorem usual_initCalls : ∀ next ∈ initCalls.map .call, Usual next := by decide

/-- What the task knows about itself: its steps are as usual, and `maxPrio` is a
priority. -/
structure OnCourse (s : LedTask) : Prop where
  usual : ∀ next ∈ s.pending, Usual next
  maxPrio : s.maxPrio ∈ priorities

theorem OnCourse.perform {s : LedTask} (h : OnCourse s) (next : TaskStep) :
    OnCourse (perform s next) := by
  cases next with
  | call call => exact ⟨h.usual, h.maxPrio⟩
  | find ledID =>
      have hfound : (firstActive ledID priorities s.leds).1 ∈ priorities := by
        rcases List.mem_cons.mp (firstActive_mem ledID priorities s.leds) with hdefault | hmem
        · rw [hdefault]
          decide
        · exact hmem
      exact ⟨h.usual, hfound⟩
  | look ledID => exact ⟨h.usual, h.maxPrio⟩
  | choose =>
      refine ⟨fun step hmem => ?_, h.maxPrio⟩
      obtain ⟨tickWhen, hstep⟩ := mem_roundSteps hmem
      exact usual_tickSteps tickWhen step hstep
  | tick tickWhen ledID =>
      cases tickWhen <;> exact ⟨h.usual, h.maxPrio⟩

/-- The next step is a usual one, and the others remain. -/
theorem OnCourse.next {s : LedTask} (h : OnCourse s) {next : TaskStep} {rest : List TaskStep}
    (hpending : s.pending = next :: rest) :
    Usual next ∧ OnCourse { s with pending := rest } := by
  have husual := h.usual
  rw [hpending] at husual
  exact ⟨husual next List.mem_cons_self,
    ⟨fun step hmem => husual step (List.mem_cons_of_mem _ hmem), h.maxPrio⟩⟩

theorem OnCourse.ledStep {s : LedTask} (h : OnCourse s) (event : LedEvent) :
    OnCourse (ledStep s event) := by
  cases event with
  | task =>
      rw [Led.ledStep, taskStep]
      split
      · exact ⟨usual_lookSteps, h.maxPrio⟩
      · rename_i next rest hpending
        exact (h.next hpending).2.perform next
  | other other => exact ⟨h.usual, h.maxPrio⟩

/-- In the table, or with the third priority as the initialisation has it. -/
def InTableOrInit (cell : Cell) : Prop :=
  InTable cell ∨ cell = cellOf 1 3 ∨ cell = cellOf 2 3

/-- A usual step accesses the table, but for the calls with a third priority. -/
theorem cell_of_usual {maxPrio : Nat} (hprio : maxPrio ∈ priorities) {next : TaskStep}
    (h : Usual next) {cell : Cell} (hcell : AccessedBy maxPrio cell next) :
    InTableOrInit cell := by
  have hin : ∀ ledID ∈ ledIndices, ∀ prio ∈ priorities, InTable (cellOf ledID prio) := by decide
  cases next with
  | call call =>
      have hinit : ∀ call ∈ initCalls,
          InTable call.cell ∨ call.cell = cellOf 1 3 ∨ call.cell = cellOf 2 3 := by decide
      have hcell' : cell = call.cell := hcell
      rw [hcell']
      exact hinit call h
  | find ledID =>
      obtain ⟨prio, hmem, rfl⟩ := hcell
      exact Or.inl (hin ledID h prio hmem)
  | look ledID =>
      have hcell' : cell = cellOf ledID maxPrio := hcell
      rw [hcell']
      exact Or.inl (hin ledID h maxPrio hprio)
  | choose => exact absurd hcell (fun hfalse => hfalse)
  | tick tickWhen ledID =>
      have hcell' : cell = cellOf ledID maxPrio := hcell
      rw [hcell']
      exact Or.inl (hin ledID h maxPrio hprio)

theorem OnCourse.accesses {s : LedTask} (h : OnCourse s)
    (hpast : ∀ cell ∈ s.leds.accesses, InTableOrInit cell) (event : LedEvent) :
    ∀ cell ∈ (Led.ledStep s event).leds.accesses, InTableOrInit cell := by
  cases event with
  | task =>
      rw [Led.ledStep, taskStep]
      split
      · exact hpast
      · rename_i next rest hpending
        obtain ⟨husual, hrest⟩ := h.next hpending
        obtain ⟨new, hnew, hcells⟩ := perform_accesses { s with pending := rest } next
        rw [hnew]
        intro cell hmem
        rcases List.mem_append.mp hmem with hmem | hmem
        · exact hpast cell hmem
        · exact cell_of_usual hrest.maxPrio husual (hcells cell hmem)
  | other other =>
      obtain ⟨new, hnew, hcells⟩ := other.call.apply_accesses s.leds
      rw [Led.ledStep, hnew]
      intro cell hmem
      rcases List.mem_append.mp hmem with hmem | hmem
      · exact hpast cell hmem
      · rw [hcells cell hmem]
        exact Or.inl other.inTable

/-- In every run the only accesses behind the table are those of the
initialisation to a third priority. -/
theorem access_of_run (run : List LedEvent) :
    ∀ cell ∈ (ledAfter behind board run).leds.accesses, InTableOrInit cell := by
  have hstart : OnCourse (ledPowerOn behind board) :=
    ⟨usual_initCalls, List.mem_cons_of_mem _ List.mem_cons_self⟩
  have hrun := foldl_invariant (fun _ (s : LedTask) => OnCourse s ∧
      ∀ cell ∈ s.leds.accesses, InTableOrInit cell)
    ⟨hstart, fun cell hmem => absurd hmem List.not_mem_nil⟩
    (fun past event h => ⟨h.1.ledStep event, h.1.accesses h.2 event⟩) run
  exact hrun.2

end FromPowerOn

/-! ## Active patterns -/

theorem action_active (p : LedBlinkPattern) (b : Board) : (action p b).1.active = p.active := by
  rw [action]
  split
  · rw [morseAction]
    dsimp only
    split <;> rfl
  · split
    · rw [blinkAction]
      dsimp only
      split <;> rfl
    · split
      · rfl
      · rfl

theorem ledTick_active (p : LedBlinkPattern) (b : Board) :
    (ledTick (p, b)).1.active = p.active := by
  have hdue : ∀ q : LedBlinkPattern,
      (if q.nextActionTime = 0 then action q b else (q, b)).1.active = q.active := by
    intro q
    split
    · exact action_active q b
    · rfl
  rw [ledTick]
  split
  · exact hdue _
  · exact hdue _

theorem tickPattern_active (ledID maxPrio : Nat) (s : Leds) (address : Int) :
    ((tickPattern ledID maxPrio s).memory address).active = (s.memory address).active := by
  rcases eq_or_ne address (addressOf (cellOf ledID maxPrio)) with hself | hother
  · have htick : (tickPattern ledID maxPrio s).memory address =
        (ledTick (s.pattern ledID maxPrio, s.board)).1 := by
      rw [hself]
      exact Function.update_self _ _ _
    rw [htick, ledTick_active, hself, Leds.pattern]
  · exact congrArg _ (Function.update_of_ne hother _ _)

theorem firstActive_memory (ledID : Nat) (prios : List Nat) (s : Leds) :
    (firstActive ledID prios s).2.memory = s.memory := by
  induction prios generalizing s with
  | nil => rfl
  | cons prio rest ih =>
      rw [firstActive]
      split
      · rfl
      · exact ih (s.access ledID prio)

/-- The loop neither activates a pattern nor ends one. -/
theorem perform_active (s : LedTask) {next : TaskStep} (h : ∀ call, next ≠ .call call)
    (address : Int) :
    ((perform s next).leds.memory address).active = (s.leds.memory address).active := by
  cases next with
  | call call => exact absurd rfl (h call)
  | find ledID =>
      have hfind : (perform s (.find ledID)).leds.memory = s.leds.memory :=
        firstActive_memory ledID priorities s.leds
      rw [hfind]
  | look ledID => rfl
  | choose => rfl
  | tick tickWhen ledID =>
      rcases perform_tick_leds s tickWhen ledID with hticked | hboth | hlooked
      · rw [hticked]
        exact tickPattern_active ledID s.maxPrio s.leds address
      · rw [hboth]
        exact tickPattern_active ledID s.maxPrio (s.leds.access ledID s.maxPrio) address
      · rw [hlooked]
        rfl

/-- What a call makes of the pattern at an address. -/
theorem PatternCall.apply_active {call : PatternCall} (h : call.Accepted) (s : Leds)
    (address : Int) :
    ((call.apply s).memory address).active =
      if address = addressOf call.cell then call.activates else (s.memory address).active := by
  obtain ⟨change, board, hchange, hactive⟩ := apply_of_accepted h s
  rw [hchange]
  split
  · rename_i hself
    subst hself
    have hmemory : (s.modify call.ledID call.priority change).memory (addressOf call.cell) =
        change (s.pattern call.ledID call.priority) := Function.update_self _ _ _
    exact (congrArg _ hmemory).trans (hactive _)
  · rename_i hother
    exact congrArg _ (Function.update_of_ne hother _ _)

/-- Whether the last of the calls about an address activated the pattern there. -/
def lastActivation (calls : List PatternCall) (address : Int) : Bool :=
  calls.foldl
    (fun active call => if address = addressOf call.cell then call.activates else active) false

theorem accepted_of_init : ∀ call ∈ initCalls, call.Accepted := by decide

/-! ## After the initialisation -/

/-- The calls of the initialisation have been made. -/
def Initialised (s : LedTask) : Prop := ∀ call, TaskStep.call call ∉ s.pending

theorem noCall_lookSteps (call : PatternCall) : TaskStep.call call ∉ lookSteps := by
  simp [lookSteps, ledIndices]

theorem noCall_roundSteps (containsFadePatterns : Bool) (call : PatternCall) :
    TaskStep.call call ∉ roundSteps containsFadePatterns := by
  intro hmem
  obtain ⟨tickWhen, hstep⟩ := mem_roundSteps hmem
  simp [tickSteps] at hstep

theorem Initialised.ledStep {s : LedTask} (h : Initialised s) (event : LedEvent) :
    Initialised (ledStep s event) := by
  cases event with
  | task =>
      rw [Led.ledStep, taskStep]
      split
      · exact noCall_lookSteps
      · rename_i next rest hpending
        have hrest : ∀ call, TaskStep.call call ∉ rest := by
          intro call hmem
          refine h call ?_
          rw [hpending]
          exact List.mem_cons_of_mem _ hmem
        cases next with
        | call call => exact hrest
        | find ledID => exact hrest
        | look ledID => exact hrest
        | choose => exact noCall_roundSteps _
        | tick tickWhen ledID => cases tickWhen <;> exact hrest
  | other other => exact h

section FromPowerOn

variable (behind : Int → LedBlinkPattern) (board : Board)

/-- The initialisation takes as many steps of the task as it has calls. -/
theorem initialised_iff (run : List LedEvent) :
    Initialised (ledAfter behind board run) ↔ initCalls.length ≤ taskSteps run := by
  constructor
  · intro h
    by_contra hfew
    have hlt := Nat.not_le.mp hfew
    have hpending := pending_of_run behind board run (Nat.le_of_lt hlt)
    rw [List.drop_eq_getElem_cons hlt, List.map_cons] at hpending
    refine h initCalls[taskSteps run] ?_
    rw [hpending]
    exact List.mem_cons_self
  · refine foldl_invariant (fun past (s : LedTask) => initCalls.length ≤ taskSteps past →
      Initialised s) (fun h => absurd h (by decide)) ?_ run
    intro past event ih h
    rcases Nat.lt_or_ge (taskSteps past) initCalls.length with hbefore | hafter
    · cases event with
      | task =>
          rw [taskSteps_concat_task] at h
          have hlast : taskSteps (past ++ [.task]) = initCalls.length := by
            rw [taskSteps_concat_task]
            exact Nat.le_antisymm hbefore h
          have hpending := pending_of_run behind board (past ++ [.task]) (Nat.le_of_eq hlast)
          rw [hlast, List.drop_length, ledAfter_concat] at hpending
          intro call hmem
          rw [hpending] at hmem
          exact absurd hmem List.not_mem_nil
      | other other =>
          rw [taskSteps_concat_other] at h
          exact absurd h (Nat.not_le.mpr hbefore)
    · exact (ih hafter).ledStep event

/-- Other code has made a call about the pattern. -/
def SetByOthers (run : List LedEvent) (cell : Cell) : Prop :=
  ∃ other : OtherCall, .other other ∈ run ∧ other.call.cell = cell

theorem addressOf_injective {cell cell' : Cell} (h : InTable cell) (h' : InTable cell')
    (hsame : addressOf cell = addressOf cell') : cell = cell' := by
  obtain ⟨row, column⟩ := cell
  obtain ⟨row', column'⟩ := cell'
  simp only [InTable, addressOf, lppPriorityCount, lidLedCount] at h h' hsame
  rw [Prod.mk.injEq]
  omega

theorem Initialised.taskStep_active {s : LedTask} (h : Initialised s) (address : Int) :
    ((taskStep s).leds.memory address).active = (s.leds.memory address).active := by
  rw [taskStep]
  split
  · rfl
  · rename_i next rest hpending
    refine perform_active { s with pending := rest } (fun call hcall => h call ?_) address
    rw [hpending, hcall]
    exact List.mem_cons_self

/-- A step of the task sets a pattern as its call of the initialisation does, and after
the initialisation none. -/
theorem active_taskStep (run : List LedEvent) {address : Int}
    (h : ((ledAfter behind board run).leds.memory address).active =
      lastActivation (initCalls.take (taskSteps run)) address) :
    ((taskStep (ledAfter behind board run)).leds.memory address).active =
      lastActivation (initCalls.take (taskSteps run + 1)) address := by
  rcases Nat.lt_or_ge (taskSteps run) initCalls.length with hbefore | hafter
  · have hpending := pending_of_run behind board run (Nat.le_of_lt hbefore)
    rw [List.drop_eq_getElem_cons hbefore, List.map_cons] at hpending
    have haccepted := accepted_of_init _ (List.getElem_mem hbefore)
    rw [taskStep_of_call hpending, List.take_succ_eq_append_getElem hbefore, lastActivation,
      List.foldl_concat, ← lastActivation, ← h]
    exact PatternCall.apply_active haccepted _ _
  · have hinit := (initialised_iff behind board run).mpr hafter
    rw [List.take_of_length_le hafter] at h
    rw [List.take_of_length_le (Nat.le_succ_of_le hafter), ← h]
    exact hinit.taskStep_active _

/-- A pattern that no other code has set is as the initialisation has left it. -/
theorem active_of_run (run : List LedEvent) {cell : Cell} (hcell : InTable cell)
    (hothers : ¬ SetByOthers run cell) :
    ((ledAfter behind board run).leds.memory (addressOf cell)).active =
      lastActivation (initCalls.take (taskSteps run)) (addressOf cell) := by
  revert hothers
  refine foldl_invariant (fun past (s : LedTask) => ¬ SetByOthers past cell →
    (s.leds.memory (addressOf cell)).active =
      lastActivation (initCalls.take (taskSteps past)) (addressOf cell)) ?_ ?_ run
  · intro _
    have hzero : (ledPowerOn behind board).leds.memory (addressOf cell) = zeroPattern := by
      refine if_pos ?_
      simp only [InTable, addressOf, lppPriorityCount, lidLedCount] at hcell ⊢
      omega
    rw [hzero]
    rfl
  · intro past event ih hothers
    have hpast := ih fun ⟨other, hmem, hset⟩ =>
      hothers ⟨other, List.mem_append_left _ hmem, hset⟩
    cases event with
    | task =>
        rw [taskSteps_concat_task]
        exact active_taskStep behind board past hpast
    | other other =>
        rw [taskSteps_concat_other, ← hpast]
        have hne : addressOf cell ≠ addressOf other.call.cell := by
          intro hsame
          exact hothers ⟨other, List.mem_append_right _ List.mem_cons_self,
            (addressOf_injective hcell other.inTable hsame).symm⟩
        exact congrArg _ (other.call.apply_memory _ hne)

theorem inTable_cases {cell : Cell} (h : InTable cell) :
    cell ∈ priorities.flatMap fun prio => ledIndices.map fun ledID => cellOf ledID prio := by
  obtain ⟨row, column⟩ := cell
  obtain ⟨⟨hrow, hrow'⟩, ⟨hcolumn, hcolumn'⟩⟩ := h
  simp only [lppPriorityCount, lidLedCount] at hrow hrow' hcolumn hcolumn'
  interval_cases row <;> interval_cases column <;> decide

/-- After the initialisation every pattern that no other code has set is inactive,
except for the one of the red LED. -/
theorem initialised_active_iff (run : List LedEvent)
    (hinit : Initialised (ledAfter behind board run)) {cell : Cell} (hcell : InTable cell)
    (hothers : ¬ SetByOthers run cell) :
    ((ledAfter behind board run).leds.memory (addressOf cell)).active = true ↔
      cell = cellOf lidRed lppPriority1 := by
  have hcells : ∀ cell ∈ (priorities.flatMap fun prio => ledIndices.map fun ledID =>
      cellOf ledID prio), lastActivation initCalls (addressOf cell) = true ↔
        cell = cellOf lidRed lppPriority1 := by decide
  rw [active_of_run behind board run hcell hothers,
    List.take_of_length_le ((initialised_iff behind board run).mp hinit)]
  exact hcells cell (inTable_cases hcell)

/-! ## Runs -/

/-- The table is accessed within its bounds, a call changes its own pattern only,
and after the initialisation no pattern is active that nobody has set, except for
the one of the red LED. -/
structure TableSafe (run : List LedEvent) : Prop where
  accesses : ∀ cell ∈ (ledAfter behind board run).leds.accesses, InTable cell
  calls : EachStep ledStep OwnPatternOnly (ledPowerOn behind board) run
  initialised : Initialised (ledAfter behind board run) →
    ∀ cell, InTable cell → ¬ SetByOthers run cell →
      (((ledAfter behind board run).leds.memory (addressOf cell)).active = true ↔
        cell = cellOf lidRed lppPriority1)

/-- With its fifth call the initialisation leaves the table. -/
theorem taskSteps_le_of_tableSafe {run : List LedEvent} (h : TableSafe behind board run) :
    taskSteps run ≤ 4 := by
  by_contra hmany
  have hcell := h.accesses _ (access_of_many behind board run (Nat.not_le.mp hmany))
  exact absurd hcell (by decide)

/-- The first four calls of the initialisation stay in it. -/
theorem tableSafe_of_few {run : List LedEvent} (hfew : taskSteps run ≤ 4) :
    TableSafe behind board run where
  accesses := accesses_of_few behind board run hfew
  calls := by
    refine EachStep.of_prefixes fun past event hinitial => ?_
    have hsteps : taskSteps (past ++ [event]) ≤ 4 :=
      Nat.le_trans (hinitial.sublist.countP_le) hfew
    obtain ⟨call, hcall, hin⟩ := callOf_of_few behind board hsteps
    exact ownPatternOnly_of_inTable hcall hin
  initialised := fun hinit _ hcell hothers =>
    initialised_active_iff behind board run hinit hcell hothers

/-- The table is safe exactly as long as the task has not come to the third LED. -/
theorem tableSafe_iff (run : List LedEvent) :
    TableSafe behind board run ↔ taskSteps run ≤ 4 :=
  ⟨taskSteps_le_of_tableSafe behind board, tableSafe_of_few behind board⟩

end FromPowerOn

/-- The task alone, up to the third LED: the pattern accessed there does not
exist. -/
theorem not_tableSafe :
    ¬ TableSafe (fun _ => zeroPattern) ⟨fun _ => .off, .off, .off⟩ (List.replicate 5 .task) := by
  intro h
  exact absurd (taskSteps_le_of_tableSafe _ _ h) (by decide)

end WindradLogger.Led
