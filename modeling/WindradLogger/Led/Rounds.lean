import WindradLogger.Led.Bounds
import Mathlib.Logic.Function.Iterate

set_option autoImplicit false

/-!
# Rounds of the LED task (`task_led.c`)

A round of `taskLEDPatternLoop` takes 50 ms, in one step or, if any LED fades, in
fifty.  The pattern that an LED shows is ticked once in a round, or fifty times if it
fades.  Neither the other LEDs nor the code that sets their patterns, at whatever
time, can change that.
-/

namespace WindradLogger.Led

open WindradLogger.Lib

/-! ## What a tick is about -/

/-- What is seen of a pattern and of its LED. -/
def ownView (i : Nat) (s : LedBlinkPattern × Board) : LedBlinkPattern × LedState :=
  (s.1, s.2.given i)

/-- The board after a pattern has acted, if it set its LED. -/
def boardAfter (ledID : Nat) (shown : Option LedState) (b : Board) : Board :=
  match shown with
  | some ledState => boardSetLED ledID ledState b
  | none => b

/-- A step of a pattern that does not look at the board, sets no LED but its own, and
leaves alone what the pattern is. -/
def Own (p : LedBlinkPattern) (act : LedBlinkPattern → Board → LedBlinkPattern × Board) : Prop :=
  ∃ p' shown, (∀ b, act p b = (p', boardAfter p.ledID shown b)) ∧
    p'.active = p.active ∧ p'.ledID = p.ledID ∧ p'.patternStyle = p.patternStyle

theorem own_morseAction (p : LedBlinkPattern) : Own p morseAction := by
  unfold Own morseAction
  dsimp only
  split
  · exact ⟨_, some .on, fun _ => rfl, rfl, rfl, rfl⟩
  · exact ⟨_, some .on, fun _ => rfl, rfl, rfl, rfl⟩
  · exact ⟨_, some .off, fun _ => rfl, rfl, rfl, rfl⟩
  · exact ⟨_, some .off, fun _ => rfl, rfl, rfl, rfl⟩

theorem own_blinkAction (p : LedBlinkPattern) : Own p blinkAction := by
  unfold Own blinkAction
  dsimp only
  split
  · exact ⟨_, some .off, fun _ => rfl, rfl, rfl, rfl⟩
  · exact ⟨_, some .off, fun _ => rfl, rfl, rfl, rfl⟩
  · exact ⟨_, some .on, fun _ => rfl, rfl, rfl, rfl⟩

theorem own_fadeAction (p : LedBlinkPattern) : Own p fadeAction :=
  ⟨_, some _, fun _ => rfl, rfl, rfl, rfl⟩

theorem own_action (p : LedBlinkPattern) : Own p action := by
  unfold Own action
  split
  · exact own_morseAction p
  · split
    · exact own_blinkAction p
    · split
      · exact own_fadeAction p
      · exact ⟨p, none, fun _ => rfl, rfl, rfl, rfl⟩

theorem own_ledTick (p : LedBlinkPattern) : Own p fun p b => ledTick (p, b) := by
  unfold Own ledTick
  dsimp only
  have hdue : ∀ q : LedBlinkPattern, q.active = p.active → q.ledID = p.ledID →
      q.patternStyle = p.patternStyle → ∃ p' shown,
        (∀ b, (if q.nextActionTime = 0 then action q b else (q, b)) =
          (p', boardAfter p.ledID shown b)) ∧
        p'.active = p.active ∧ p'.ledID = p.ledID ∧ p'.patternStyle = p.patternStyle := by
    intro q hactive hledID hstyle
    split
    · obtain ⟨p', shown, hact, hactive', hledID', hstyle'⟩ := own_action q
      rw [hledID] at hact
      exact ⟨p', shown, hact, hactive'.trans hactive, hledID'.trans hledID, hstyle'.trans hstyle⟩
    · exact ⟨q, none, fun _ => rfl, hactive, hledID, hstyle⟩
  split
  · exact hdue _ rfl rfl rfl
  · exact hdue _ rfl rfl rfl

theorem given_boardAfter (ledID : Nat) (shown : Option LedState) {i : Nat} {b b' : Board}
    (h : b.given i = b'.given i) :
    (boardAfter ledID shown b).given i = (boardAfter ledID shown b').given i := by
  cases shown with
  | none => exact h
  | some ledState =>
      rcases eq_or_ne i ledID with rfl | hother
      · exact (boardSetLED_given i ledState b).trans (boardSetLED_given i ledState b').symm
      · exact (Function.update_of_ne hother _ _).trans
          (h.trans (Function.update_of_ne hother _ _).symm)

theorem given_boardAfter_of_ne {ledID i : Nat} (h : i ≠ ledID) (shown : Option LedState)
    (b : Board) : (boardAfter ledID shown b).given i = b.given i := by
  cases shown with
  | none => rfl
  | some ledState => exact Function.update_of_ne h _ _

/-- The other LEDs have no part in a tick. -/
theorem ownView_ledTick {i : Nat} {s t : LedBlinkPattern × Board}
    (h : ownView i s = ownView i t) : ownView i (ledTick s) = ownView i (ledTick t) := by
  obtain ⟨p, b⟩ := s
  obtain ⟨q, b'⟩ := t
  obtain ⟨rfl, hgiven⟩ := Prod.mk.inj h
  obtain ⟨p', shown, htick, -⟩ := own_ledTick p
  have hs : ledTick (p, b) = (p', boardAfter p.ledID shown b) := htick b
  have ht : ledTick (p, b') = (p', boardAfter p.ledID shown b') := htick b'
  rw [hs, ht]
  exact Prod.ext rfl (given_boardAfter p.ledID shown hgiven)

/-- What a pattern is does not change with ticks. -/
theorem ledTick_fixed (s : LedBlinkPattern × Board) :
    (ledTick s).1.active = s.1.active ∧ (ledTick s).1.ledID = s.1.ledID ∧
      (ledTick s).1.patternStyle = s.1.patternStyle := by
  obtain ⟨p', shown, htick, hfixed⟩ := own_ledTick s.1
  have hself : ledTick s = (p', boardAfter s.1.ledID shown s.2) := htick s.2
  rw [hself]
  exact hfixed

theorem iterate_ledTick_fixed (k : Nat) (s : LedBlinkPattern × Board) :
    (ledTick^[k] s).1.active = s.1.active ∧ (ledTick^[k] s).1.patternStyle = s.1.patternStyle := by
  induction k with
  | zero => exact ⟨rfl, rfl⟩
  | succ k ih =>
      obtain ⟨hactive, -, hstyle⟩ := ledTick_fixed (ledTick^[k] s)
      rw [Function.iterate_succ_apply']
      exact ⟨hactive.trans ih.1, hstyle.trans ih.2⟩

/-! ## Addresses of different LEDs -/

/-- The table has a place of its own for every LED and priority. -/
theorem address_inj {i j prio prio' : Nat} (hi : i ∈ ledIndices) (hj : j ∈ ledIndices)
    (h : addressOf (cellOf i prio) = addressOf (cellOf j prio')) : i = j ∧ prio = prio' := by
  obtain ⟨hi, hi'⟩ := List.mem_range'_1.mp hi
  obtain ⟨hj, hj'⟩ := List.mem_range'_1.mp hj
  simp only [addressOf, cellOf, lidLedCount] at *
  omega

/-- Every pattern of the table says that its LED is the one it is for, or none. -/
def OwnIds (s : Leds) : Prop :=
  ∀ j ∈ ledIndices, ∀ prio ∈ priorities,
    (s.pattern j prio).ledID = j ∨ (s.pattern j prio).ledID = 0

/-- A call that goes through leaves its LED in the pattern, and sets no other LED. -/
theorem apply_of_accepted_own {call : PatternCall} (h : call.Accepted) (s : Leds) :
    ((call.apply s).pattern call.ledID call.priority).ledID = call.ledID ∧
      ∃ shown, (call.apply s).board = boardAfter call.ledID shown s.board := by
  have hmodified : ∀ (change : LedBlinkPattern → LedBlinkPattern) (board : Board),
      ({ s.modify call.ledID call.priority change with board := board } : Leds).pattern call.ledID
        call.priority = change (s.pattern call.ledID call.priority) :=
    fun change _ => s.pattern_modify call.ledID call.priority change
  cases call with
  | setToFade ledID priority =>
      have hcall : PatternCall.apply (.setToFade ledID priority) s = _ := if_pos h
      rw [hcall]
      exact ⟨congrArg LedBlinkPattern.ledID (hmodified _ s.board), none, rfl⟩
  | setToMorse ledID priority morsePattern morsePatternLength =>
      have hcall : PatternCall.apply (.setToMorse ledID priority morsePattern morsePatternLength)
          s = _ := if_pos h
      rw [hcall]
      exact ⟨congrArg LedBlinkPattern.ledID (hmodified _ s.board), none, rfl⟩
  | setToBlink ledID priority timeOn timeOff timePause repeats =>
      have hcall : PatternCall.apply (.setToBlink ledID priority timeOn timeOff timePause repeats)
          s = _ := if_pos h
      rw [hcall]
      exact ⟨congrArg LedBlinkPattern.ledID (hmodified _ s.board), none, rfl⟩
  | setToOff ledID priority =>
      have hcall : PatternCall.apply (.setToOff ledID priority) s = _ := if_pos h
      rw [hcall]
      exact ⟨congrArg LedBlinkPattern.ledID (hmodified _ _), some .off, rfl⟩
  | deactivate ledID priority =>
      have hcall : PatternCall.apply (.deactivate ledID priority) s = _ := if_pos h
      rw [hcall]
      exact ⟨congrArg LedBlinkPattern.ledID (hmodified _ _), some .off, rfl⟩

theorem board_apply (call : PatternCall) (s : Leds) :
    ∃ shown, (call.apply s).board = boardAfter call.ledID shown s.board := by
  rcases Decidable.em call.Accepted with haccepted | hrejected
  · exact (apply_of_accepted_own haccepted s).2
  · rw [PatternCall.apply_of_not_accepted hrejected]
    exact ⟨none, rfl⟩

/-- A call changes no pattern of another LED. -/
theorem pattern_apply {call : PatternCall} {i : Nat} (hi : i ∈ ledIndices)
    (hcall : call.ledID ∈ ledIndices) (hother : i ≠ call.ledID) (s : Leds) (prio : Nat) :
    (call.apply s).pattern i prio = s.pattern i prio :=
  call.apply_memory s fun heq => hother (address_inj hi hcall heq).1

theorem OwnIds.apply {s : Leds} (h : OwnIds s) {call : PatternCall}
    (hcall : call.ledID ∈ ledIndices) : OwnIds (call.apply s) := by
  rcases Decidable.em call.Accepted with haccepted | hrejected
  · intro j hj prio hprio
    rcases Decidable.em (addressOf (cellOf j prio) = addressOf call.cell) with hself | hother
    · obtain ⟨rfl, rfl⟩ := address_inj hj hcall hself
      exact Or.inl (apply_of_accepted_own haccepted s).1
    · have hkept : (call.apply s).pattern j prio = s.pattern j prio := call.apply_memory s hother
      rw [hkept]
      exact h j hj prio hprio
  · rw [PatternCall.apply_of_not_accepted hrejected]
    exact h

/-! ## Ticks in the table -/

/-- The pattern that `tickPattern` ticks, and every other one. -/
theorem pattern_tickPattern_self (j maxPrio : Nat) (s : Leds) :
    (tickPattern j maxPrio s).pattern j maxPrio = (ledTick (s.pattern j maxPrio, s.board)).1 :=
  Function.update_self _ _ _

theorem pattern_tickPattern_of_ne {i j prio maxPrio : Nat} (hi : i ∈ ledIndices)
    (hj : j ∈ ledIndices) (hne : ¬ (i = j ∧ prio = maxPrio)) (s : Leds) :
    (tickPattern j maxPrio s).pattern i prio = s.pattern i prio :=
  Function.update_of_ne (fun heq => hne (address_inj hi hj heq)) _ _

theorem board_tickPattern (j maxPrio : Nat) (s : Leds) :
    (tickPattern j maxPrio s).board = (ledTick (s.pattern j maxPrio, s.board)).2 := rfl

theorem OwnIds.tickPattern {s : Leds} (h : OwnIds s) {j maxPrio : Nat} (hj : j ∈ ledIndices) :
    OwnIds (tickPattern j maxPrio s) := by
  intro i hi prio hprio
  rcases Decidable.em (i = j ∧ prio = maxPrio) with ⟨rfl, rfl⟩ | hother
  · rw [pattern_tickPattern_self, (ledTick_fixed _).2.1]
    exact h i hi prio hprio
  · rw [pattern_tickPattern_of_ne hi hj hother]
    exact h i hi prio hprio

/-- A tick of another LED's pattern does not show on an LED. -/
theorem given_tickPattern_of_ne {s : Leds} (h : OwnIds s) {i j maxPrio : Nat}
    (hi : i ∈ ledIndices) (hj : j ∈ ledIndices) (hprio : maxPrio ∈ priorities) (hne : i ≠ j) :
    (tickPattern j maxPrio s).board.given i = s.board.given i := by
  obtain ⟨p', shown, htick, -⟩ := own_ledTick (s.pattern j maxPrio)
  have hself : ledTick (s.pattern j maxPrio, s.board) =
      (p', boardAfter (s.pattern j maxPrio).ledID shown s.board) := htick s.board
  rw [board_tickPattern, hself]
  refine given_boardAfter_of_ne ?_ shown s.board
  obtain ⟨hpos, -⟩ := List.mem_range'_1.mp hi
  rcases h j hj maxPrio hprio with hown | hzero
  · rw [hown]
    exact hne
  · rw [hzero]
    omega

/-! ## Where a round is -/

/-- The remaining steps of the first part of a round, at the begin of an LED. -/
inductive Looking : List TaskStep → Prop where
  | choose : Looking [.choose]
  | look {j : Nat} {rest : List TaskStep} (hj : j ∈ ledIndices) (hrest : Looking rest) :
      Looking (.find j :: .look j :: rest)

/-- The remaining steps of the second part. -/
inductive Ticking : List TaskStep → Prop where
  | nil : Ticking []
  | tick {w : TickWhen} {j : Nat} {rest : List TaskStep} (hj : j ∈ ledIndices)
      (hrest : Ticking rest) : Ticking (.find j :: .tick w j :: rest)

theorem Ticking.append {steps rest : List TaskStep} (h : Ticking steps) (hrest : Ticking rest) :
    Ticking (steps ++ rest) := by
  induction h with
  | nil => exact hrest
  | tick hj _ ih => exact .tick hj ih

theorem ticking_tickSteps (w : TickWhen) : Ticking (tickSteps w) :=
  .tick (by decide) (.tick (by decide) (.tick (by decide) .nil))

theorem ticking_roundSteps (containsFadePatterns : Bool) :
    Ticking (roundSteps containsFadePatterns) := by
  unfold roundSteps
  split
  · refine Ticking.append ?_ (ticking_tickSteps .notFade)
    generalize 50 = n
    induction n with
    | zero => exact .nil
    | succ n ih =>
        rw [List.replicate_succ, List.flatten_cons]
        exact (ticking_tickSteps .fade).append ih
  · exact ticking_tickSteps .always

theorem looking_lookSteps : Looking lookSteps :=
  .look (by decide) (.look (by decide) (.look (by decide) .choose))

/-- Whether a pass ticks a pattern that fades, or one that does not. -/
def TickWhen.fires : TickWhen → (fades : Bool) → Bool
  | .fade, fades => fades
  | .notFade, fades => !fades
  | .always, _ => true

/-- How often a pattern is ticked in a round. -/
def ticksPerRound (fades : Bool) : Nat := if fades then 50 else 1

/-- A step ticks the pattern of an LED. -/
def ticksLed (fades : Bool) (i : Nat) : TaskStep → Bool
  | .tick w j => decide (j = i) && w.fires fades
  | _ => false

/-- How often the remaining steps of a round tick the pattern of an LED. -/
def ticksLeft (fades : Bool) (i : Nat) (pending : List TaskStep) : Nat :=
  pending.countP (ticksLed fades i)

theorem ticksLeft_tickSteps (fades : Bool) {i : Nat} (hi : i ∈ ledIndices) (w : TickWhen) :
    ticksLeft fades i (tickSteps w) = if w.fires fades then 1 else 0 := by
  have hall : ∀ i ∈ ledIndices, ∀ w ∈ [TickWhen.fade, .notFade, .always], ∀ fades : Bool,
      ticksLeft fades i (tickSteps w) = if w.fires fades then 1 else 0 := by decide
  exact hall i hi w (by cases w <;> decide) fades

/-- A round has the ticks of every LED, if it knows that one of them fades. -/
theorem ticksLeft_roundSteps {fades containsFadePatterns : Bool} {i : Nat} (hi : i ∈ ledIndices)
    (hknown : fades = true → containsFadePatterns = true) :
    ticksLeft fades i (roundSteps containsFadePatterns) = ticksPerRound fades := by
  have hpasses : ∀ n, ticksLeft fades i (List.replicate n (tickSteps .fade)).flatten =
      n * if fades then 1 else 0 := by
    intro n
    induction n with
    | zero => rw [Nat.zero_mul]; rfl
    | succ n ih =>
        have hone := ticksLeft_tickSteps fades hi .fade
        unfold ticksLeft at hone ih ⊢
        rw [List.replicate_succ, List.flatten_cons, List.countP_append, ih, hone, TickWhen.fires,
          Nat.succ_mul, Nat.add_comm]
  have hrest := ticksLeft_tickSteps fades hi .notFade
  have halways := ticksLeft_tickSteps fades hi .always
  have hfifty := hpasses 50
  unfold roundSteps ticksLeft at *
  cases containsFadePatterns with
  | true =>
      rw [if_pos rfl, List.countP_append, hfifty, hrest]
      cases fades <;> rfl
  | false =>
      have hnot : fades = false := by
        cases fades with
        | false => rfl
        | true => exact absurd (hknown rfl) Bool.false_ne_true
      rw [if_neg Bool.false_ne_true, halways, hnot]
      rfl

/-- Where the task is, and how often the round will still tick the pattern of LED `i`
and priority `prio`. -/
inductive Place (i prio : Nat) (fades : Bool) (s : LedTask) : Nat → Prop where
  | looking (hpending : Looking s.pending)
      (hknown : fades = true → .find i ∈ s.pending ∨ s.containsFadePatterns = true) :
      Place i prio fades s (ticksPerRound fades)
  | look {j : Nat} {rest : List TaskStep} (hpending : s.pending = .look j :: rest)
      (hrest : Looking rest) (hmaxPrio : j = i → s.maxPrio = prio)
      (hknown : fades = true → j = i ∨ .find i ∈ rest ∨ s.containsFadePatterns = true) :
      Place i prio fades s (ticksPerRound fades)
  | ticking (hpending : Ticking s.pending) : Place i prio fades s (ticksLeft fades i s.pending)
  | tick {w : TickWhen} {j : Nat} {rest : List TaskStep} (hpending : s.pending = .tick w j :: rest)
      (hrest : Ticking rest) (hj : j ∈ ledIndices) (hmaxPrio : j = i → s.maxPrio = prio)
      (hprio : s.maxPrio ∈ priorities) : Place i prio fades s (ticksLeft fades i s.pending)

/-! ## What an LED shows -/

/-- LED `i` shows the pattern of `prio`, which has been ticked so often since `start`. -/
structure Shows (i prio : Nat) (start : LedBlinkPattern × Board) (leds : Leds) (ticks : Nat) :
    Prop where
  ownIds : OwnIds leds
  view : ownView i (leds.pattern i prio, leds.board) = ownView i (ledTick^[ticks] start)
  found : (getMaxPatternPriority i leds).1 = prio

theorem firstActive_congr {i : Nat} {prios : List Nat} {s t : Leds}
    (h : ∀ prio ∈ prios, (s.pattern i prio).active = (t.pattern i prio).active) :
    (firstActive i prios s).1 = (firstActive i prios t).1 := by
  induction prios generalizing s t with
  | nil => rfl
  | cons prio rest ih =>
      rw [firstActive, firstActive, h prio List.mem_cons_self]
      split
      · rfl
      · exact ih fun prio' hprio' => h prio' (List.mem_cons_of_mem _ hprio')

theorem firstActive_board (i : Nat) (prios : List Nat) (s : Leds) :
    (firstActive i prios s).2.board = s.board := by
  induction prios generalizing s with
  | nil => rfl
  | cons prio rest ih =>
      rw [firstActive]
      split
      · rfl
      · exact ih (s.access i prio)

namespace Shows

variable {i prio : Nat} {start : LedBlinkPattern × Board} {leds leds' : Leds} {ticks : Nat}

/-- The accesses do not matter. -/
theorem congr (h : Shows i prio start leds ticks) (hmemory : leds'.memory = leds.memory)
    (hboard : leds'.board = leds.board) : Shows i prio start leds' ticks := by
  have hpattern : ∀ j q, leds'.pattern j q = leds.pattern j q :=
    fun j q => congrFun hmemory _
  refine ⟨?_, ?_, ?_⟩
  · intro j hj q hq
    rw [hpattern]
    exact h.ownIds j hj q hq
  · rw [hpattern, hboard]
    exact h.view
  · refine Eq.trans ?_ h.found
    exact firstActive_congr fun q _ => congrArg LedBlinkPattern.active (hpattern i q)

/-- Whether the pattern fades does not change. -/
theorem patternStyle (h : Shows i prio start leds ticks) :
    (leds.pattern i prio).patternStyle = start.1.patternStyle := by
  have hpattern : leds.pattern i prio = (ledTick^[ticks] start).1 := congrArg Prod.fst h.view
  rw [hpattern, (iterate_ledTick_fixed ticks start).2]

/-- Other code sets a pattern of another LED. -/
theorem call (h : Shows i prio start leds ticks) (hi : i ∈ ledIndices) {call : PatternCall}
    (hcall : call.ledID ∈ ledIndices) (hother : i ≠ call.ledID) :
    Shows i prio start (call.apply leds) ticks := by
  have hpattern : ∀ q, (call.apply leds).pattern i q = leds.pattern i q :=
    pattern_apply hi hcall hother leds
  obtain ⟨shown, hboard⟩ := board_apply call leds
  refine ⟨h.ownIds.apply hcall, ?_, ?_⟩
  · rw [← h.view, hpattern, hboard]
    exact Prod.ext rfl (given_boardAfter_of_ne hother shown leds.board)
  · refine Eq.trans ?_ h.found
    exact firstActive_congr fun q _ => congrArg LedBlinkPattern.active (hpattern q)

/-- The pattern of another LED is ticked. -/
theorem tick_other (h : Shows i prio start leds ticks) (hi : i ∈ ledIndices) {j maxPrio : Nat}
    (hj : j ∈ ledIndices) (hprio : maxPrio ∈ priorities) (hne : i ≠ j) :
    Shows i prio start (tickPattern j maxPrio leds) ticks := by
  have hpattern : ∀ q, (tickPattern j maxPrio leds).pattern i q = leds.pattern i q :=
    fun q => pattern_tickPattern_of_ne hi hj (fun heq => hne heq.1) leds
  refine ⟨h.ownIds.tickPattern hj, ?_, ?_⟩
  · rw [← h.view, hpattern]
    exact Prod.ext rfl (given_tickPattern_of_ne h.ownIds hi hj hprio hne)
  · refine Eq.trans ?_ h.found
    exact firstActive_congr fun q _ => congrArg LedBlinkPattern.active (hpattern q)

/-- The pattern is ticked itself. -/
theorem tick_own (h : Shows i prio start leds ticks) (hi : i ∈ ledIndices) :
    Shows i prio start (tickPattern i prio leds) (ticks + 1) := by
  refine ⟨h.ownIds.tickPattern hi, ?_, ?_⟩
  · rw [pattern_tickPattern_self, board_tickPattern, Function.iterate_succ_apply']
    exact ownView_ledTick h.view
  · refine (firstActive_congr fun q _ => ?_).trans h.found
    rcases eq_or_ne q prio with rfl | hne
    · rw [pattern_tickPattern_self, (ledTick_fixed _).1]
    · rw [pattern_tickPattern_of_ne hi hi (fun heq => hne heq.2)]

end Shows

/-- What a step that ticks does, up to the accesses. -/
theorem perform_tick_eq (s : LedTask) (w : TickWhen) (j : Nat) :
    ∃ leds, leds.memory = s.leds.memory ∧ leds.board = s.leds.board ∧
      perform s (.tick w j) = { s with
        leds :=
          if w.fires (decide ((s.leds.pattern j s.maxPrio).patternStyle =
            ledBlinkPatternStyleFade)) then tickPattern j s.maxPrio leds else leds } := by
  cases w with
  | always => exact ⟨s.leds, rfl, rfl, rfl⟩
  | fade => exact ⟨s.leds.access j s.maxPrio, rfl, rfl, rfl⟩
  | notFade =>
      refine ⟨s.leds.access j s.maxPrio, rfl, rfl, ?_⟩
      rw [perform]
      dsimp only [LedTask.fades, TickWhen.fires]
      cases decide ((s.leds.pattern j s.maxPrio).patternStyle = ledBlinkPatternStyleFade) <;> rfl

/-! ## Rounds -/

/-- The task begins a round. -/
def begins (s : LedTask) : LedEvent → Bool
  | .task => s.pending.isEmpty
  | .other _ => false

/-- How many rounds begin in a run. -/
def roundsBegun : LedTask → List LedEvent → Nat
  | _, [] => 0
  | s, event :: run => (if begins s event then 1 else 0) + roundsBegun (ledStep s event) run

section Undisturbed

variable {i prio : Nat} {start : LedBlinkPattern × Board} {fades : Bool} {s : LedTask}
  {ticks owed : Nat}

/-- What the ticks so far, and those that the round still has, come to. -/
def Goes (i prio : Nat) (start : LedBlinkPattern × Board) (fades : Bool) (s : LedTask)
    (total : Nat) : Prop :=
  ∃ ticks owed, Shows i prio start s.leds ticks ∧ Place i prio fades s owed ∧ ticks + owed = total

/-- A round begins. -/
theorem goes_begin (hshows : Shows i prio start s.leds ticks) (hi : i ∈ ledIndices)
    (hpending : s.pending = []) : Goes i prio start fades (taskStep s)
      (ticks + ticksPerRound fades) := by
  have hfind : ∀ i ∈ ledIndices, TaskStep.find i ∈ lookSteps := by decide
  rw [taskStep, hpending]
  exact ⟨ticks, _, hshows, .looking looking_lookSteps fun _ => Or.inl (hfind i hi), rfl⟩

theorem goes_find (hshows : Shows i prio start s.leds ticks) {j : Nat} (rest : List TaskStep) :
    let after := perform { s with pending := rest } (.find j)
    Shows i prio start after.leds ticks ∧ after.pending = rest ∧
      after.containsFadePatterns = s.containsFadePatterns ∧ (j = i → after.maxPrio = prio) ∧
      after.maxPrio ∈ priorities := by
  refine ⟨?_, rfl, rfl, ?_, ?_⟩
  · exact hshows.congr (firstActive_memory j priorities s.leds)
      (firstActive_board j priorities s.leds)
  · rintro rfl
    exact hshows.found
  · rcases List.mem_cons.mp (firstActive_mem j priorities s.leds) with hdefault | hmem
    · have hmaxPrio : (perform { s with pending := rest } (.find j)).maxPrio = lppPriority1 :=
        hdefault
      rw [hmaxPrio]
      decide
    · exact hmem

/-- The pattern of an LED is ticked or not. -/
theorem goes_tick (hshows : Shows i prio start s.leds ticks) (hi : i ∈ ledIndices)
    (hfades : fades = decide (start.1.patternStyle = ledBlinkPatternStyleFade))
    {w : TickWhen} {j : Nat} {rest : List TaskStep} (hpending : s.pending = .tick w j :: rest)
    (hrest : Ticking rest) (hj : j ∈ ledIndices) (hmaxPrio : j = i → s.maxPrio = prio)
    (hprio : s.maxPrio ∈ priorities) :
    Goes i prio start fades (perform { s with pending := rest } (.tick w j))
      (ticks + ticksLeft fades i s.pending) := by
  obtain ⟨leds, hmemory, hboard, hperform⟩ := perform_tick_eq { s with pending := rest } w j
  have hbefore := hshows.congr hmemory hboard
  rw [hperform, hpending]
  unfold ticksLeft
  rw [List.countP_cons]
  rcases eq_or_ne i j with rfl | hne
  · rw [hmaxPrio rfl] at *
    have hown : decide ((s.leds.pattern i prio).patternStyle = ledBlinkPatternStyleFade) =
        fades := by
      rw [hshows.patternStyle, hfades]
    dsimp only
    rw [hown]
    cases hfires : w.fires fades with
    | true =>
        refine ⟨ticks + 1, _, hbefore.tick_own hi, .ticking hrest, ?_⟩
        simp only [ticksLeft, ticksLed, hfires, decide_true, Bool.and_self, if_true]
        omega
    | false =>
        refine ⟨ticks, _, hbefore, .ticking hrest, ?_⟩
        simp only [ticksLeft, ticksLed, hfires, Bool.and_false, Bool.false_eq_true, if_false]
        omega
  · have hnot : ticksLed fades i (.tick w j) = false := by
      simp only [ticksLed, decide_eq_false (Ne.symm hne), Bool.false_and]
    dsimp only
    split
    · refine ⟨ticks, _, hbefore.tick_other hi hj hprio hne, .ticking hrest, ?_⟩
      rw [hnot]
      rfl
    · refine ⟨ticks, _, hbefore, .ticking hrest, ?_⟩
      rw [hnot]
      rfl

/-- The first part goes on: it looks for the pattern of an LED, or it ends. -/
theorem goes_looking (hshows : Shows i prio start s.leds ticks) (hi : i ∈ ledIndices)
    (hpending : Looking s.pending)
    (hknown : fades = true → .find i ∈ s.pending ∨ s.containsFadePatterns = true) :
    Goes i prio start fades (taskStep s) (ticks + ticksPerRound fades) := by
  rw [taskStep]
  generalize s.pending = pending at hpending hknown
  cases hpending with
  | choose =>
      have hdecided : fades = true → s.containsFadePatterns = true := by
        intro hfade
        rcases hknown hfade with hfind | hcontains
        · cases List.mem_singleton.mp hfind
        · exact hcontains
      exact ⟨ticks, _, hshows, .ticking (ticking_roundSteps s.containsFadePatterns),
        congrArg (ticks + ·) (ticksLeft_roundSteps hi hdecided)⟩
  | @look j rest hj hrest =>
      obtain ⟨hafter, hpending', hcontains, hmaxPrio, -⟩ := goes_find hshows (j := j)
        (.look j :: rest)
      refine ⟨ticks, _, hafter, .look hpending' hrest hmaxPrio fun hfade => ?_, rfl⟩
      rw [hcontains]
      rcases hknown hfade with hfind | hcontains'
      · rcases List.mem_cons.mp hfind with hself | htail
        · exact Or.inl (TaskStep.find.inj hself).symm
        · rcases List.mem_cons.mp htail with hlook | hmem
          · cases hlook
          · exact Or.inr (Or.inl hmem)
      · exact Or.inr (Or.inr hcontains')

/-- It looks at the style of the pattern it has found. -/
theorem goes_look (hshows : Shows i prio start s.leds ticks)
    (hfades : fades = decide (start.1.patternStyle = ledBlinkPatternStyleFade)) {j : Nat}
    {rest : List TaskStep} (hrest : Looking rest) (hmaxPrio : j = i → s.maxPrio = prio)
    (hknown : fades = true → j = i ∨ .find i ∈ rest ∨ s.containsFadePatterns = true) :
    Goes i prio start fades (perform { s with pending := rest } (.look j))
      (ticks + ticksPerRound fades) := by
  have hlooking : fades = true → .find i ∈ rest ∨
      (s.containsFadePatterns || decide ((s.leds.pattern j s.maxPrio).patternStyle =
        ledBlinkPatternStyleFade)) = true := by
    intro hfade
    rw [Bool.or_eq_true]
    rcases hknown hfade with rfl | hmem | hcontains
    · rw [hmaxPrio rfl, hshows.patternStyle, ← hfades]
      exact Or.inr (Or.inr hfade)
    · exact Or.inl hmem
    · exact Or.inr (Or.inl hcontains)
  exact ⟨ticks, _, hshows.congr rfl rfl, .looking hrest hlooking, rfl⟩

/-- The second part goes on with an LED, or the round has ended and another begins. -/
theorem goes_ticking (hshows : Shows i prio start s.leds ticks) (hi : i ∈ ledIndices)
    (hpending : Ticking s.pending) :
    Goes i prio start fades (taskStep s) (ticks + ticksLeft fades i s.pending +
      if begins s .task then ticksPerRound fades else 0) := by
  rcases hsteps : s.pending with _ | ⟨next, rest⟩
  · have hbegins : begins s .task = true := congrArg List.isEmpty hsteps
    rw [if_pos hbegins]
    exact goes_begin hshows hi hsteps
  · have hgoes : begins s .task = false := congrArg List.isEmpty hsteps
    rw [hgoes, if_neg Bool.false_ne_true, Nat.add_zero, taskStep, hsteps]
    rw [hsteps] at hpending
    cases hpending with
    | @tick w j rest hj hrest =>
        obtain ⟨hafter, hpending', -, hmaxPrio, hprio⟩ := goes_find hshows (j := j)
          (.tick w j :: rest)
        refine ⟨ticks, _, hafter, .tick hpending' hrest hj hmaxPrio hprio, ?_⟩
        rw [hpending']
        rfl

/-- The place does not depend on the patterns. -/
theorem Place.withLeds {owed : Nat} (h : Place i prio fades s owed) (leds : Leds) :
    Place i prio fades { s with leds := leds } owed := by
  cases h with
  | looking hpending hknown => exact .looking hpending hknown
  | look hpending hrest hmaxPrio hknown => exact .look hpending hrest hmaxPrio hknown
  | ticking hpending => exact .ticking hpending
  | tick hpending hrest hj hmaxPrio hprio => exact .tick hpending hrest hj hmaxPrio hprio

/-- A step of the task that has something to do begins no round. -/
theorem begins_of_pending {next : TaskStep} {rest : List TaskStep}
    (h : s.pending = next :: rest) : begins s .task = false :=
  congrArg List.isEmpty h

/-- A call about another LED, or none. -/
def Spares (i : Nat) : LedEvent → Prop
  | .task => True
  | .other other => i ≠ other.call.ledID

instance (i : Nat) : DecidablePred (Spares i)
  | .task => inferInstanceAs (Decidable True)
  | .other other => inferInstanceAs (Decidable (i ≠ other.call.ledID))

/-- The ticks of LED `i` come to those of the rounds that have begun. -/
theorem goes_step {total : Nat} (h : Goes i prio start fades s total) (hi : i ∈ ledIndices)
    (hfades : fades = decide (start.1.patternStyle = ledBlinkPatternStyleFade)) {event : LedEvent}
    (hspares : Spares i event) :
    Goes i prio start fades (ledStep s event)
      (total + if begins s event then ticksPerRound fades else 0) := by
  obtain ⟨ticks, owed, hshows, hplace, rfl⟩ := h
  cases event with
  | other other =>
      have hcall : other.call.ledID ∈ ledIndices := List.mem_range'_1.mpr other.ledID
      exact ⟨ticks, owed, hshows.call hi hcall hspares, hplace.withLeds _, rfl⟩
  | task =>
      cases hplace with
      | looking hpending hknown =>
          have hgoes : begins s .task = false := by
            generalize hsteps : s.pending = pending at hpending
            cases hpending with
            | choose => exact begins_of_pending hsteps
            | look => exact begins_of_pending hsteps
          rw [hgoes]
          exact goes_looking hshows hi hpending hknown
      | look hpending hrest hmaxPrio hknown =>
          rw [begins_of_pending hpending, ledStep, taskStep, hpending]
          exact goes_look hshows hfades hrest hmaxPrio hknown
      | ticking hpending => exact goes_ticking hshows hi hpending
      | tick hpending hrest hj hmaxPrio hprio =>
          rw [begins_of_pending hpending, ledStep, taskStep]
          have hgoes := goes_tick hshows hi hfades hpending hrest hj hmaxPrio hprio
          rw [hpending] at hgoes ⊢
          exact hgoes

theorem goes_run {total : Nat} (h : Goes i prio start fades s total) (hi : i ∈ ledIndices)
    (hfades : fades = decide (start.1.patternStyle = ledBlinkPatternStyleFade))
    {run : List LedEvent} (hspares : ∀ event ∈ run, Spares i event) :
    Goes i prio start fades (run.foldl ledStep s)
      (total + roundsBegun s run * ticksPerRound fades) := by
  induction run generalizing s total with
  | nil =>
      rw [roundsBegun, Nat.zero_mul]
      exact h
  | cons event rest ih =>
      have hfirst := goes_step h hi hfades (hspares event List.mem_cons_self)
      have hrest := ih hfirst fun event' hmem => hspares event' (List.mem_cons_of_mem _ hmem)
      have htotal : (total + if begins s event then ticksPerRound fades else 0) +
          roundsBegun (ledStep s event) rest * ticksPerRound fades =
            total + roundsBegun s (event :: rest) * ticksPerRound fades := by
        rw [roundsBegun, Nat.add_mul, ← Nat.add_assoc]
        split
        · rw [Nat.one_mul]
        · rw [Nat.zero_mul]
      rw [← htotal]
      exact hrest

/-- Between two rounds nothing is owed. -/
theorem Goes.shows_of_boundary {total : Nat} (h : Goes i prio start fades s total)
    (hpending : s.pending = []) : Shows i prio start s.leds total := by
  obtain ⟨ticks, owed, hshows, hplace, rfl⟩ := h
  have howed : owed = 0 := by
    cases hplace with
    | looking hlooking =>
        rw [hpending] at hlooking
        cases hlooking
    | look hlook => cases hlook.symm.trans hpending
    | ticking => exact congrArg (ticksLeft fades i) hpending
    | tick htick => cases htick.symm.trans hpending
  rw [howed, Nat.add_zero]
  exact hshows

end Undisturbed

/-! ## From power-on -/

section FromPowerOn

variable (behind : Int → LedBlinkPattern) (board : Board)

theorem ownIds_ledPowerOn : OwnIds (ledPowerOn behind board).leds := by
  intro j hj prio hprio
  have hin : ∀ j ∈ ledIndices, ∀ prio ∈ priorities, 0 ≤ addressOf (cellOf j prio) ∧
      addressOf (cellOf j prio) < (lppPriorityCount - 1) * (lidLedCount - 1) := by decide
  have hzero : (ledPowerOn behind board).leds.pattern j prio = zeroPattern :=
    if_pos (hin j hj prio hprio)
  rw [hzero]
  exact Or.inr rfl

/-- Every usual step keeps them. -/
theorem OwnIds.perform {s : LedTask} (h : OwnIds s.leds) {next : TaskStep} (husual : Usual next) :
    OwnIds (perform s next).leds := by
  cases next with
  | call call =>
      have hcalls : ∀ call ∈ initCalls, call.ledID ∈ ledIndices := by decide
      exact h.apply (hcalls call husual)
  | find ledID =>
      intro j hj prio hprio
      have hmemory := congrFun (firstActive_memory ledID priorities s.leds)
        (addressOf (cellOf j prio))
      have hpattern : (Led.perform s (.find ledID)).leds.pattern j prio = s.leds.pattern j prio :=
        hmemory
      rw [hpattern]
      exact h j hj prio hprio
  | look ledID => exact h
  | choose => exact h
  | tick w ledID =>
      obtain ⟨leds, hmemory, -, hperform⟩ := perform_tick_eq s w ledID
      have hbefore : OwnIds leds := by
        intro j hj prio hprio
        have hpattern : leds.pattern j prio = s.leds.pattern j prio := congrFun hmemory _
        rw [hpattern]
        exact h j hj prio hprio
      rw [hperform]
      dsimp only
      split
      · exact hbefore.tickPattern husual
      · exact hbefore

theorem ownIds_of_run (run : List LedEvent) : OwnIds (ledAfter behind board run).leds := by
  have hstart : OnCourse (ledPowerOn behind board) :=
    ⟨usual_initCalls, List.mem_cons_of_mem _ List.mem_cons_self⟩
  have hrun := foldl_invariant (fun _ (s : LedTask) => OnCourse s ∧ OwnIds s.leds)
    ⟨hstart, ownIds_ledPowerOn behind board⟩ (fun past event h => ⟨h.1.ledStep event, ?_⟩) run
  · exact hrun.2
  · cases event with
    | task =>
        rw [ledStep, taskStep]
        split
        · exact h.2
        · rename_i next rest hpending
          obtain ⟨husual, -⟩ := h.1.next hpending
          exact OwnIds.perform (s := { past.foldl ledStep (ledPowerOn behind board) with
            pending := rest }) h.2 husual
    | other other => exact h.2.apply (List.mem_range'_1.mpr other.ledID)

/-- Between two rounds of which the first is over: as long as no call is about an LED, it
goes on to show the same pattern, which has been ticked once for each round since, or
fifty times if it fades, whatever is called for the other LEDs and whenever. -/
theorem rounds_tick {past later : List LedEvent} {i : Nat} (hi : i ∈ ledIndices)
    (hbefore : (ledAfter behind board past).pending = [])
    (hspares : ∀ event ∈ later, Spares i event)
    (hafter : (ledAfter behind board (past ++ later)).pending = []) :
    let s := ledAfter behind board past
    let s' := ledAfter behind board (past ++ later)
    let prio := (getMaxPatternPriority i s.leds).1
    let start := (s.leds.pattern i prio, s.leds.board)
    let fades := decide (start.1.patternStyle = ledBlinkPatternStyleFade)
    (getMaxPatternPriority i s'.leds).1 = prio ∧
      ownView i (s'.leds.pattern i prio, s'.leds.board) =
        ownView i (ledTick^[roundsBegun s later * ticksPerRound fades] start) := by
  intro s s' prio start fades
  have hshows : Shows i prio start s.leds 0 := ⟨ownIds_of_run behind board past, rfl, rfl⟩
  have hticking : Ticking s.pending := by
    rw [hbefore]
    exact .nil
  have howed : ticksLeft fades i s.pending = 0 := by
    rw [hbefore]
    rfl
  have hgoes : Goes i prio start fades s 0 :=
    ⟨0, _, hshows, .ticking hticking, (Nat.zero_add _).trans howed⟩
  have hrun := goes_run hgoes hi rfl hspares
  have hlater : later.foldl ledStep s = s' := List.foldl_append.symm
  rw [hlater, Nat.zero_add] at hrun
  have hlast := hrun.shows_of_boundary hafter
  exact ⟨hlast.found, hlast.view⟩

end FromPowerOn

/-- Fourteen steps of the task, in which other code sets the red LED to fade. -/
def fadeCalled : List LedEvent :=
  List.replicate 5 .task ++
    .other ⟨.setToFade lidRed 1, by decide, by decide⟩ :: List.replicate 9 .task

/-- This is a round, and the yellow LED is ticked once. -/
theorem rounds_tick_yellow :
    let s := ledAfter (fun _ => zeroPattern) ⟨fun _ => .off, .off, .off⟩ (.replicate 13 .task)
    let s' := ledAfter (fun _ => zeroPattern) ⟨fun _ => .off, .off, .off⟩
      (.replicate 13 .task ++ fadeCalled)
    let prio := (getMaxPatternPriority lidYellow s.leds).1
    (getMaxPatternPriority lidYellow s'.leds).1 = prio ∧
      ownView lidYellow (s'.leds.pattern lidYellow prio, s'.leds.board) =
        ownView lidYellow (ledTick^[1 * ticksPerRound false]
          (s.leds.pattern lidYellow prio, s.leds.board)) :=
  @rounds_tick (fun _ => zeroPattern) ⟨fun _ => .off, .off, .off⟩ (.replicate 13 .task) fadeCalled
    lidYellow (by decide) (by decide) (by decide) (by decide)

end WindradLogger.Led
