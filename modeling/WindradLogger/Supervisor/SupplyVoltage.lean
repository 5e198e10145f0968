import WindradLogger.Lib.Run
import Mathlib.Data.List.DropRight

set_option autoImplicit false

/-!
# The check of the supply voltage (`task_supervisor.c`)

The supervisor looks at the supply voltage at regular intervals.  When it is low,
the Raspberry Pi is told to shut down, and after a time of grace its supply is to
be cut; when the voltage is high again, this is called off.  The time at which the
Raspberry Pi was told is kept in a static variable, where 0 stands for none.

Every check at which the voltage is low tells the Raspberry Pi anew.  Once it has
been on, the time of grace then starts again, and never ends.
-/

namespace WindradLogger.Supervisor

open WindradLogger.Lib

/-- `THRESHOLD_SUPPLY_VOLTAGE_OFF_10mV` -/
def thresholdSupplyVoltageOff10mV : UInt16 := 2400
/-- `THRESHOLD_SUPPLY_VOLTAGE_ON_10mV` -/
def thresholdSupplyVoltageOn10mV : UInt16 := 2500
/-- `TIME_FOR_RASPI_TO_SHUTDOWN_s` -/
def timeForRaspiToShutdownS : UInt32 := 30
/-- `portTICK_RATE_MS` -/
def portTickRateMs : UInt32 := 1

/-! ## The check -/

/-- The static variables and the two pins that are set. -/
structure SupervisorState where
  /-- `time_of_shutdown_command_s` -/
  timeOfShutdownCommandS : UInt32
  raspiWasOnOnce : Bool
  /-- the pin behind `CLEAR_RASP_IRQ` -/
  raspIrq : Bool
  /-- the pin behind `CLEAR_SHUTDOWN`: an output, and not set -/
  shutdownCleared : Bool

/-- What a check finds: the supply voltage, and the clock when the Raspberry Pi is
told and when the times are compared. -/
structure Check where
  supplySense : UInt16
  notifyTicks : UInt32
  compareTicks : UInt32
  deriving DecidableEq

/-- The clock in seconds. -/
def seconds (ticks : UInt32) : UInt32 := ticks / portTickRateMs / 1000

/-- `notify_raspy_to_shut_down` -/
def notifyRaspyToShutDown (ticks : UInt32) (s : SupervisorState) : SupervisorState :=
  { s with timeOfShutdownCommandS := seconds ticks }

/-- `notify_raspy_not_to_shut_down` -/
def notifyRaspyNotToShutDown (s : SupervisorState) : SupervisorState :=
  { s with timeOfShutdownCommandS := 0, raspIrq := false }

/-- `superisor_check_supply_voltage`.  The result also says whether the condition
for the shutdown holds; the shutdown itself is not compiled. -/
def superisorCheckSupplyVoltage (check : Check) (s : SupervisorState) : SupervisorState × Bool :=
  let s :=
    if check.supplySense < thresholdSupplyVoltageOff10mV then
      let s := notifyRaspyToShutDown check.notifyTicks s
      if s.raspiWasOnOnce = false then
        { s with timeOfShutdownCommandS :=
            s.timeOfShutdownCommandS + (timeForRaspiToShutdownS + 1) }
      else s
    else s
  let s :=
    if check.supplySense > thresholdSupplyVoltageOn10mV then
      notifyRaspyNotToShutDown { s with raspiWasOnOnce := true, shutdownCleared := true }
    else s
  (s, decide (s.timeOfShutdownCommandS ≠ 0 ∧
    s.timeOfShutdownCommandS + timeForRaspiToShutdownS < seconds check.compareTicks))

/-- The voltage is low. -/
def Check.low (check : Check) : Bool := check.supplySense < thresholdSupplyVoltageOff10mV

/-- The voltage is high. -/
def Check.high (check : Check) : Bool := check.supplySense > thresholdSupplyVoltageOn10mV

theorem Check.not_high_of_low {check : Check} (h : check.low = true) : check.high = false := by
  have hlow : check.supplySense.toNat < 2400 :=
    UInt16.lt_iff_toNat_lt.mp (of_decide_eq_true h)
  refine decide_eq_false fun hhigh => ?_
  have hhigh' : 2500 < check.supplySense.toNat := UInt16.lt_iff_toNat_lt.mp hhigh
  omega

section Step

variable {check : Check} {s : SupervisorState}

/-- A high voltage calls the shutdown off. -/
theorem check_of_high (h : check.high = true) :
    (superisorCheckSupplyVoltage check s).1.timeOfShutdownCommandS = 0 ∧
      (superisorCheckSupplyVoltage check s).1.raspiWasOnOnce = true ∧
      (superisorCheckSupplyVoltage check s).2 = false := by
  have hhigh : check.supplySense > thresholdSupplyVoltageOn10mV := of_decide_eq_true h
  simp [superisorCheckSupplyVoltage, hhigh, notifyRaspyNotToShutDown]

/-- A low voltage, once the Raspberry Pi has been on, starts the time of grace. -/
theorem check_of_low (h : check.low = true) (hon : s.raspiWasOnOnce = true) :
    (superisorCheckSupplyVoltage check s).1 =
        { s with timeOfShutdownCommandS := seconds check.notifyTicks } ∧
      ((superisorCheckSupplyVoltage check s).2 = true ↔ seconds check.notifyTicks ≠ 0 ∧
        seconds check.notifyTicks + timeForRaspiToShutdownS < seconds check.compareTicks) := by
  have hlow : check.supplySense < thresholdSupplyVoltageOff10mV := of_decide_eq_true h
  have hhigh : ¬ check.supplySense > thresholdSupplyVoltageOn10mV :=
    of_decide_eq_false (Check.not_high_of_low h)
  simp [superisorCheckSupplyVoltage, hlow, hhigh, hon, notifyRaspyToShutDown]

/-- That the Raspberry Pi has been on is not forgotten. -/
theorem check_raspiWasOnOnce :
    (superisorCheckSupplyVoltage check s).1.raspiWasOnOnce =
      (s.raspiWasOnOnce || check.high) := by
  rcases Bool.eq_false_or_eq_true check.high with hhigh | hhigh
  · rw [(check_of_high hhigh).2.1, hhigh, Bool.or_true]
  · have hnot : ¬ check.supplySense > thresholdSupplyVoltageOn10mV := of_decide_eq_false hhigh
    rw [hhigh, Bool.or_false]
    simp only [superisorCheckSupplyVoltage, if_neg hnot]
    split
    · split
      · rfl
      · rfl
    · rfl

end Step

/-! ## Runs -/

/-- The static variables at start, with any pins. -/
def supervisorStart (raspIrq shutdownCleared : Bool) : SupervisorState :=
  { timeOfShutdownCommandS := 0
    raspiWasOnOnce := false
    raspIrq := raspIrq
    shutdownCleared := shutdownCleared }

section Runs

variable (start : SupervisorState)

/-- The state after a run of checks. -/
def afterChecks (run : List Check) : SupervisorState :=
  run.foldl (fun s check => (superisorCheckSupplyVoltage check s).1) start

/-- Whether the condition for the shutdown holds at a check behind a run. -/
def shutdownDue (past : List Check) (check : Check) : Bool :=
  (superisorCheckSupplyVoltage check (afterChecks start past)).2

theorem afterChecks_concat (past : List Check) (check : Check) :
    afterChecks start (past ++ [check]) =
      (superisorCheckSupplyVoltage check (afterChecks start past)).1 :=
  List.foldl_concat ..

/-- The Raspberry Pi has been seen on. -/
def SeenOn (past : List Check) : Prop := ∃ check ∈ past, check.high = true

theorem SeenOn.append {past : List Check} (h : SeenOn past) (later : List Check) :
    SeenOn (past ++ later) := by
  obtain ⟨check, hmem, hhigh⟩ := h
  exact ⟨check, List.mem_append_left _ hmem, hhigh⟩

theorem raspiWasOnOnce_of_seenOn {run : List Check} (h : SeenOn run) :
    (afterChecks start run).raspiWasOnOnce = true := by
  revert h
  refine foldl_invariant (fun past (s : SupervisorState) => SeenOn past →
    s.raspiWasOnOnce = true) (fun ⟨_, hmem, _⟩ => absurd hmem List.not_mem_nil) ?_ run
  intro past check ih hseen
  rw [check_raspiWasOnOnce, Bool.or_eq_true]
  obtain ⟨on, hmem, hhigh⟩ := hseen
  rcases List.mem_append.mp hmem with hpast | hlast
  · exact Or.inl (ih ⟨on, hpast, hhigh⟩)
  · rw [List.mem_singleton.mp hlast] at hhigh
    exact Or.inr hhigh

/-- A check at which the voltage is low leaves its own time. -/
theorem time_of_low {past : List Check} (hseen : SeenOn past) {check : Check}
    (hlow : check.low = true) :
    (afterChecks start (past ++ [check])).timeOfShutdownCommandS = seconds check.notifyTicks := by
  rw [afterChecks_concat, (check_of_low hlow (raspiWasOnOnce_of_seenOn start hseen)).1]

/-! ## The time of grace -/

/-- From the first low voltage on, for as long as the voltage stays low, the time
of that check is kept, and the shutdown is due when the time of grace has passed
since. -/
def KeepsDeadline (run : List Check) : Prop :=
  ∀ past first rest last, past ++ first :: rest <+: run → SeenOn past →
    (∀ check ∈ past.getLast?, check.low = false) →
    (∀ check ∈ first :: rest, check.low = true) → (first :: rest).getLast? = some last →
      (afterChecks start (past ++ first :: rest)).timeOfShutdownCommandS =
          seconds first.notifyTicks ∧
        ((seconds first.notifyTicks).toNat + timeForRaspiToShutdownS.toNat <
            (seconds last.compareTicks).toNat →
          shutdownDue start (past ++ (first :: rest).dropLast) last = true)

/-- At a high voltage no shutdown is pending. -/
def CancelsWhenHigh (run : List Check) : Prop :=
  ∀ past check, past ++ [check] <+: run → check.high = true →
    (afterChecks start (past ++ [check])).timeOfShutdownCommandS = 0 ∧
      shutdownDue start past check = false

/-- Once the Raspberry Pi has been on, a low voltage does not last from one second
to another. -/
def LowWithinSecond (run : List Check) : Prop :=
  ∀ past check next, past ++ [check, next] <+: run → SeenOn past → check.low = true →
    next.low = true → seconds next.notifyTicks = seconds check.notifyTicks

theorem cancelsWhenHigh (run : List Check) : CancelsWhenHigh start run := by
  intro past check _ hhigh
  obtain ⟨htime, -, hdue⟩ := check_of_high (s := afterChecks start past) hhigh
  rw [afterChecks_concat]
  exact ⟨htime, hdue⟩

/-- The low checks at the end of a run, and what comes before them. -/
theorem lowStretch {past : List Check} {check : Check} (hseen : SeenOn past)
    (hlow : check.low = true) :
    ∃ before first rest, past ++ [check] = before ++ first :: rest ∧ SeenOn before ∧
      (∀ c ∈ before.getLast?, c.low = false) ∧ (∀ c ∈ first :: rest, c.low = true) ∧
      (first :: rest).getLast? = some check := by
  have hsplit : List.rdropWhile Check.low (past ++ [check]) ++
      List.rtakeWhile Check.low (past ++ [check]) = past ++ [check] :=
    List.rdropWhile_append_rtakeWhile
  have hall : ∀ c ∈ List.rtakeWhile Check.low (past ++ [check]), c.low = true :=
    fun c hmem => List.mem_rtakeWhile_imp hmem
  have hlast : (List.rtakeWhile Check.low (past ++ [check])).getLast? = some check := by
    rw [List.rtakeWhile_concat_pos _ _ _ hlow, List.getLast?_concat]
  cases hstretch : List.rtakeWhile Check.low (past ++ [check]) with
  | nil =>
      rw [hstretch] at hlast
      cases hlast
  | cons first rest =>
      rw [hstretch] at hsplit hall hlast
      refine ⟨List.rdropWhile Check.low (past ++ [check]), first, rest, hsplit.symm, ?_, ?_, hall,
        hlast⟩
      · obtain ⟨on, hmem, hhigh⟩ := hseen.append [check]
        rw [← hsplit] at hmem
        rcases List.mem_append.mp hmem with hbefore | hin
        · exact ⟨on, hbefore, hhigh⟩
        · rw [Check.not_high_of_low (hall on hin)] at hhigh
          cases hhigh
      · intro c hc
        obtain ⟨hne, hlastc⟩ := List.mem_getLast?_eq_getLast hc
        have hnot := List.rdropWhile_last_not Check.low (past ++ [check]) hne
        rw [← hlastc] at hnot
        exact Bool.eq_false_iff.mpr hnot

theorem lowWithinSecond_of_keepsDeadline {run : List Check} (h : KeepsDeadline start run) :
    LowWithinSecond run := by
  intro past check next hrun hseen hlow hnext
  obtain ⟨before, first, rest, hsplit, hon, hbefore, hall, hlast⟩ := lowStretch hseen hlow
  have hcheck : past ++ [check] <+: run :=
    List.IsPrefix.trans ⟨[next], by rw [List.append_assoc]; rfl⟩ hrun
  have hboth : past ++ [check, next] = before ++ first :: (rest ++ [next]) := by
    rw [← List.cons_append, ← List.append_assoc, ← hsplit, List.append_assoc]
    rfl
  rw [hsplit] at hcheck
  rw [hboth] at hrun
  have hallNext : ∀ c ∈ first :: (rest ++ [next]), c.low = true := by
    intro c hmem
    rw [← List.cons_append] at hmem
    rcases List.mem_append.mp hmem with hmem | hmem
    · exact hall c hmem
    · rw [List.mem_singleton.mp hmem]
      exact hnext
  have hfirst := (h before first rest check hcheck hon hbefore hall hlast).1
  have hsecond := (h before first (rest ++ [next]) next hrun hon hbefore hallNext
    (by rw [← List.cons_append, List.getLast?_concat])).1
  rw [← hsplit, time_of_low start hseen hlow] at hfirst
  have hsame : past ++ [check, next] = (past ++ [check]) ++ [next] := by
    rw [List.append_assoc]
    rfl
  rw [← hboth, hsame, time_of_low start (hseen.append [check]) hnext] at hsecond
  exact hsecond.trans hfirst.symm

/-- Then all the checks of a stretch are in the second of the first. -/
theorem seconds_of_lowWithinSecond {run : List Check} (h : LowWithinSecond run)
    {before : List Check} (hseen : SeenOn before) {first : Check} (rest : List Check)
    (hrun : before ++ first :: rest <+: run) (hall : ∀ c ∈ first :: rest, c.low = true)
    {last : Check} (hlast : (first :: rest).getLast? = some last) :
    seconds last.notifyTicks = seconds first.notifyTicks := by
  induction rest using List.reverseRecOn generalizing last with
  | nil =>
      rw [List.getLast?_singleton] at hlast
      rw [Option.some.inj hlast]
  | append_singleton rest next ih =>
      rw [← List.cons_append, List.getLast?_concat] at hlast
      obtain rfl := Option.some.inj hlast
      rw [← List.cons_append] at hrun hall
      have hearlier : before ++ first :: rest <+: run :=
        List.IsPrefix.trans ⟨[next], List.append_assoc ..⟩ hrun
      have hallEarlier : ∀ c ∈ first :: rest, c.low = true :=
        fun c hmem => hall c (List.mem_append_left _ hmem)
      obtain ⟨previous, hprevious⟩ : ∃ previous, (first :: rest).getLast? = some previous :=
        ⟨_, List.getLast?_eq_some_getLast (List.cons_ne_nil first rest)⟩
      obtain ⟨stretch, hstretch⟩ := List.getLast?_eq_some_iff.mp hprevious
      have hsplit : before ++ (first :: rest ++ [next]) =
          (before ++ stretch) ++ [previous, next] := by
        rw [hstretch, List.append_assoc, List.append_assoc]
        rfl
      rw [hsplit] at hrun
      have hlowPrevious : previous.low = true :=
        hallEarlier previous (List.mem_of_mem_getLast? hprevious)
      have hlowNext : next.low = true := hall next (List.mem_append_right _ List.mem_cons_self)
      rw [h _ previous next hrun (hseen.append stretch) hlowPrevious hlowNext]
      exact ih hearlier hallEarlier hprevious

theorem seconds_toNat (ticks : UInt32) : (seconds ticks).toNat = ticks.toNat / 1000 := by
  rw [seconds, UInt32.toNat_div, UInt32.toNat_div]
  exact congrArg (· / 1000) (Nat.div_one _)

/-- The deadline does not overflow. -/
theorem deadline_lt_iff (ticks compareTicks : UInt32) :
    seconds ticks + timeForRaspiToShutdownS < seconds compareTicks ↔
      (seconds ticks).toNat + timeForRaspiToShutdownS.toNat < (seconds compareTicks).toNat := by
  have hticks := ticks.toNat_lt
  have hgrace : timeForRaspiToShutdownS.toNat = 30 := rfl
  rw [UInt32.lt_iff_toNat_lt, UInt32.toNat_add, seconds_toNat, hgrace]
  rw [Nat.mod_eq_of_lt (by omega)]

theorem keepsDeadline_of_lowWithinSecond {run : List Check} (h : LowWithinSecond run)
    (hpos : ∀ check ∈ run, seconds check.notifyTicks ≠ 0) : KeepsDeadline start run := by
  intro before first rest last hrun hseen _ hall hlast
  have hseconds := seconds_of_lowWithinSecond h hseen rest hrun hall hlast
  have hlow : last.low = true := hall last (List.mem_of_mem_getLast? hlast)
  have hsplit : before ++ first :: rest = (before ++ (first :: rest).dropLast) ++ [last] := by
    rw [List.append_assoc, List.dropLast_append_getLast? last hlast]
  have hseen' := hseen.append (first :: rest).dropLast
  constructor
  · rw [hsplit, time_of_low start hseen' hlow, hseconds]
  · intro hpassed
    have hon := raspiWasOnOnce_of_seenOn start hseen'
    have hfirst : first ∈ run :=
      hrun.subset (List.mem_append_right _ List.mem_cons_self)
    rw [shutdownDue, (check_of_low hlow hon).2, hseconds, deadline_lt_iff]
    exact ⟨hpos first hfirst, hpassed⟩

/-- The deadline is kept and called off as it should be exactly when the voltage
is never low from one second to another. -/
theorem graceTime_iff {run : List Check} (hpos : ∀ check ∈ run, seconds check.notifyTicks ≠ 0) :
    (KeepsDeadline start run ∧ CancelsWhenHigh start run) ↔ LowWithinSecond run :=
  ⟨fun h => lowWithinSecond_of_keepsDeadline start h.1,
    fun h => ⟨keepsDeadline_of_lowWithinSecond start h hpos, cancelsWhenHigh start run⟩⟩

/-- While the voltage is low, no shutdown ever becomes due, however long ago it
fell. -/
theorem not_shutdownDue_of_low {past : List Check} (hseen : SeenOn past) {check : Check}
    (hlow : check.low = true) (hclock : check.compareTicks = check.notifyTicks) :
    shutdownDue start past check = false := by
  have hon := raspiWasOnOnce_of_seenOn start hseen
  rw [← Bool.not_eq_true, shutdownDue, (check_of_low hlow hon).2, hclock, deadline_lt_iff]
  omega

end Runs

/-- The voltage is high, and a second later low. -/
def falling : List Check := [⟨2600, 1000, 1000⟩, ⟨2300, 2000, 2000⟩]

theorem graceTime_iff_falling :
    KeepsDeadline (supervisorStart false true) falling ∧
      CancelsWhenHigh (supervisorStart false true) falling := by
  refine (graceTime_iff _ (by decide)).mpr ?_
  intro past check next hrun hseen
  have hlength := hrun.length_le
  rw [List.length_append] at hlength
  have hnil : past = [] :=
    List.length_eq_zero_iff.mp (Nat.le_zero.mp (Nat.le_of_add_le_add_right hlength))
  obtain ⟨on, hmem, -⟩ := hseen
  rw [hnil] at hmem
  cases hmem

/-- The voltage is low at two checks, of which the second is 31 seconds later. -/
def fallen : List Check := falling ++ [⟨2300, 33000, 33000⟩]

/-- The deadline has moved to the second of them. -/
theorem not_graceTime :
    ¬ (KeepsDeadline (supervisorStart false true) fallen ∧
      CancelsWhenHigh (supervisorStart false true) fallen) := by
  intro h
  have hwithin := lowWithinSecond_of_keepsDeadline _ h.1
  have hsame := hwithin [⟨2600, 1000, 1000⟩] ⟨2300, 2000, 2000⟩ ⟨2300, 33000, 33000⟩
    List.prefix_rfl ⟨_, List.mem_cons_self, rfl⟩ rfl rfl
  exact absurd hsame (by decide)

end WindradLogger.Supervisor
