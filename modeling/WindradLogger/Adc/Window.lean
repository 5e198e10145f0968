import WindradLogger.Adc.Task
import WindradLogger.Lib.History
import WindradLogger.Lib.Mean

set_option autoImplicit false

/-!
# Averaging windows (`task_external_adc.c`)

The records between two closes form a window.  The accumulators hold the sums
over the window in progress, and what is published at a close are the means over
the window that ends there: the sums fit their types for every window shorter
than `2 ^ 32` records, and a mean fits the type of a sample.
-/

namespace WindradLogger.Adc

open WindradLogger.Lib

/-- The records of a run, divided by the closes of the averaging period: the tick
at which the current window began, its records so far, and the windows closed
before, in order.  The last two fields are the windows closed since the previous
call of the respective function. -/
structure Windows where
  start : UInt32
  current : List Record
  closed : List (List Record)
  unreadCurrents : List (List Record)
  unreadVoltages : List (List Record)

namespace Windows

/-- No record has been completed. -/
def begin (tick : UInt32) : Windows :=
  { start := tick, current := [], closed := [], unreadCurrents := [], unreadVoltages := [] }

/-- The current window is closed, and the next one begins at `closeTick`. -/
def close (w : Windows) (closeTick : UInt32) : Windows :=
  { start := closeTick
    current := []
    closed := w.closed ++ [w.current]
    unreadCurrents := w.unreadCurrents ++ [w.current]
    unreadVoltages := w.unreadVoltages ++ [w.current] }

/-- One event divides the records further. -/
def observe (w : Windows) : AdcTask.Event → Windows
  | .record record tick closeTick =>
      let w' := { w with current := w.current ++ [record] }
      if w.start + effectiveCalculationPeriodLengthMs < tick then w'.close closeTick else w'
  | .getCurrentsMax => { w with unreadCurrents := [] }
  | .getVoltagesMax => { w with unreadVoltages := [] }

theorem observe_open {w : Windows} {record : Record} {tick closeTick : UInt32}
    (hopen : ¬w.start + effectiveCalculationPeriodLengthMs < tick) :
    w.observe (.record record tick closeTick) = { w with current := w.current ++ [record] } :=
  if_neg hopen

theorem observe_over {w : Windows} {record : Record} {tick closeTick : UInt32}
    (hover : w.start + effectiveCalculationPeriodLengthMs < tick) :
    w.observe (.record record tick closeTick) =
      close { w with current := w.current ++ [record] } closeTick :=
  if_pos hover

/-- The windows of a run of events. -/
def of (tick : UInt32) (events : List AdcTask.Event) : Windows :=
  events.foldl observe (begin tick)

theorem of_concat (tick : UInt32) (events : List AdcTask.Event) (e : AdcTask.Event) :
    of tick (events ++ [e]) = (of tick events).observe e := by
  simp [of]

end Windows

/-- The records of a run, oldest first. -/
def recordsOf (events : List AdcTask.Event) : List Record :=
  events.filterMap fun
    | .record record _ _ => some record
    | _ => none

/-- Every record of a run is in exactly one window, in the order of the run. -/
theorem Windows.records_of (tick : UInt32) (events : List AdcTask.Event) :
    (of tick events).closed.flatten ++ (of tick events).current = recordsOf events := by
  induction events using List.reverseRecOn with
  | nil => rfl
  | append_singleton past e ih =>
      rw [of_concat, recordsOf, List.filterMap_append]
      change _ = recordsOf past ++ _
      rw [← ih]
      cases e with
      | record record tick closeTick =>
          unfold observe
          dsimp only
          split
          · simp [close]
          · simp
      | getCurrentsMax => simp [observe]
      | getVoltagesMax => simp [observe]

/-! ## The arithmetic of one record -/

/-- A channel's value as an integer. -/
def value (channel : ExtAdcValue) (record : Record) : Int := (record channel).toInt

/-- The power `volt_l32 * curr_l3 - volt_l21 * curr_l1` of a record. -/
def power (record : Record) : Int :=
  value .voltL32 record * value .currL3 record - value .voltL21 record * value .currL1 record

theorem value_bounds (channel : ExtAdcValue) (record : Record) :
    -2 ^ 15 ≤ value channel record ∧ value channel record ≤ 2 ^ 15 - 1 := by
  have hlow := (record channel).le_toInt
  have hhigh := (record channel).toInt_lt
  unfold value
  omega

/-- The product of two samples is far from the ends of `int`. -/
theorem product_bounds {a b : Int} (ha : -2 ^ 15 ≤ a ∧ a ≤ 2 ^ 15 - 1)
    (hb : -2 ^ 15 ≤ b ∧ b ≤ 2 ^ 15 - 1) : -(2 ^ 30 - 2 ^ 15) ≤ a * b ∧ a * b ≤ 2 ^ 30 := by
  obtain ⟨ha, ha'⟩ := ha
  obtain ⟨hb, hb'⟩ := hb
  refine ⟨?_, ?_⟩
  · nlinarith
  · nlinarith

/-- The product for `p3` is exact. -/
theorem toInt_p3 (record : Record) :
    (AdcTask.p3 record).toInt = value .voltL32 record * value .currL3 record := by
  have hproduct := product_bounds (value_bounds .voltL32 record) (value_bounds .currL3 record)
  unfold value at hproduct ⊢
  unfold AdcTask.p3
  rw [Int32.toInt_toInt64, Int32.toInt_mul, Int16.toInt_toInt32, Int16.toInt_toInt32]
  exact Int.bmod_eq_of_le (by omega) (by omega)

/-- The negation and the product for `p2` are exact. -/
theorem toInt_p2 (record : Record) :
    (AdcTask.p2 record).toInt = -value .voltL21 record * value .currL1 record := by
  have hproduct := product_bounds (value_bounds .voltL21 record) (value_bounds .currL1 record)
  have hbounds := value_bounds .voltL21 record
  unfold value at hproduct hbounds ⊢
  unfold AdcTask.p2
  have hneg : (-(record .voltL21).toInt32).toInt = -(record .voltL21).toInt := by
    rw [Int32.toInt_neg, Int16.toInt_toInt32]
    exact Int.bmod_eq_of_le (by omega) (by omega)
  rw [Int32.toInt_toInt64, Int32.toInt_mul, hneg, Int16.toInt_toInt32, Int.neg_mul]
  exact Int.bmod_eq_of_le (by omega) (by omega)

theorem power_bounds (record : Record) :
    -(2 ^ 31 - 2 ^ 15) ≤ power record ∧ power record ≤ 2 ^ 31 - 2 ^ 15 := by
  have hp3 := product_bounds (value_bounds .voltL32 record) (value_bounds .currL3 record)
  have hp2 := product_bounds (value_bounds .voltL21 record) (value_bounds .currL1 record)
  unfold power
  omega

/-- The sum of the two products is exact. -/
theorem toInt_p3_add_p2 (record : Record) :
    (AdcTask.p3 record + AdcTask.p2 record).toInt = power record := by
  have hpower := power_bounds record
  rw [Int64.toInt_add, toInt_p3, toInt_p2, Int.neg_mul, ← Int.sub_eq_add_neg]
  exact Int.bmod_eq_of_le (by unfold power at hpower; omega) (by unfold power at hpower; omega)

/-- The count of records is a positive `int64_t`, not a negative one. -/
theorem toInt_int64OfUInt32 (n : UInt32) : (int64OfUInt32 n).toInt = n.toNat := by
  have hlt := n.toNat_lt
  have hofNat : int64OfUInt32 n = Int64.ofNat n.toNat := by
    unfold int64OfUInt32
    rw [← UInt64.toInt64_ofNat']
    congr 1
    exact UInt64.toNat_inj.mp (by simp)
  rw [hofNat, Int64.toInt_ofNat_of_lt (by omega)]

/-- The division by a count never overflows. -/
theorem toInt_div_int64OfUInt32 (total : Int64) (n : UInt32) :
    (total / int64OfUInt32 n).toInt = total.toInt.tdiv n.toNat := by
  have hne : int64OfUInt32 n ≠ -1 := by
    intro h
    have hcount := toInt_int64OfUInt32 n
    rw [h] at hcount
    simp at hcount
  rw [Int64.toInt_div_of_ne_right _ _ hne, toInt_int64OfUInt32]

/-! ## The sums over a window -/

/-- The accumulators count the records of the window in progress, up to the width
of their types. -/
structure Summed (w : Windows) (s : AdcTask) : Prop where
  start : s.effectiveCalculationPeriodStartMs = w.start
  count : s.effectivingN = UInt32.ofNat w.current.length
  guard : s.effectivingTestPossibleOverflow = UInt64.ofNat (4096 * 4096 * w.current.length)
  power : s.powerAvging = Int64.ofInt (w.current.map power).sum
  currents : ∀ i : CurrentIndex,
    s.currentsAvging i = Int64.ofInt (w.current.map (value i.channel)).sum
  voltages : ∀ i : VoltageIndex,
    s.voltagesAvging i = Int64.ofInt (w.current.map (value i.channel)).sum

/-- The accumulators hold the exact sums over a window. -/
structure SumsExact (window : List Record) (s : AdcTask) : Prop where
  power : s.powerAvging.toInt = (window.map power).sum
  currents : ∀ i : CurrentIndex, (s.currentsAvging i).toInt = (window.map (value i.channel)).sum
  voltages : ∀ i : VoltageIndex, (s.voltagesAvging i).toInt = (window.map (value i.channel)).sum

/-- The published averages are the means over a window. -/
structure PublishesMeans (window : List Record) (s : AdcTask) : Prop where
  power : s.powerPower.toInt = truncatedMean (window.map power)
  currents : ∀ i : CurrentIndex,
    (s.powerCurrentsAverage i).toInt = truncatedMean (window.map (value i.channel))
  voltages : ∀ i : VoltageIndex,
    (s.powerVoltagesAverage i).toInt = truncatedMean (window.map (value i.channel))

namespace Summed

theorem initial (tick : UInt32) : Summed (.begin tick) (.initial tick) where
  start := rfl
  count := rfl
  guard := rfl
  power := rfl
  currents := fun _ => rfl
  voltages := fun _ => rfl

theorem ofInt_sum_concat (f : Record → Int) (window : List Record) (record : Record) :
    Int64.ofInt ((window ++ [record]).map f).sum =
      Int64.ofInt (window.map f).sum + Int64.ofInt (f record) := by
  simp

variable {w : Windows} {s : AdcTask}

/-- Counting a record keeps the sums those of the window with the record. -/
theorem addRecord (inv : Summed w s) (record : Record) :
    Summed { w with current := w.current ++ [record] } (s.addRecord record) where
  start := by
    rw [AdcTask.addRecord_effectiveCalculationPeriodStartMs]
    exact inv.start
  count := by
    rw [AdcTask.addRecord_effectivingN, inv.count]
    simp
  guard := by
    rw [AdcTask.addRecord_effectivingTestPossibleOverflow, inv.guard, List.length_append,
      List.length_singleton, Nat.mul_add, UInt64.ofNat_add]
    rfl
  power := by
    rw [AdcTask.addRecord_powerAvging, inv.power, ofInt_sum_concat, ← toInt_p3_add_p2,
      Int64.ofInt_toInt]
  currents := by
    intro i
    rw [AdcTask.addRecord_currentsAvging, inv.currents, ofInt_sum_concat, value,
      ← Int16.toInt_toInt64, Int64.ofInt_toInt]
  voltages := by
    intro i
    rw [AdcTask.addRecord_voltagesAvging, inv.voltages, ofInt_sum_concat, value,
      ← Int16.toInt_toInt64, Int64.ofInt_toInt]

/-- A close leaves nothing of the window behind in the sums. -/
theorem closeWindow (w : Windows) (roundSqrt : UInt64 → UInt16) (s : AdcTask)
    (closeTick : UInt32) : Summed (w.close closeTick) (s.closeWindow roundSqrt closeTick) where
  start := rfl
  count := rfl
  guard := rfl
  power := rfl
  currents := fun _ => rfl
  voltages := fun _ => rfl

theorem periodOver (inv : Summed w s) (tick : UInt32) :
    s.periodOver tick = decide (w.start + effectiveCalculationPeriodLengthMs < tick) := by
  unfold AdcTask.periodOver
  rw [inv.start]

/-- What a record does to the windows and to the task: both go on with the window
in progress, or both close it. -/
theorem record_cases {roundSqrt : UInt64 → UInt16} {record : Record} {tick closeTick : UInt32}
    {s' : AdcTask} (inv : Summed w s)
    (h : s.step roundSqrt (.record record tick closeTick) = some s') :
    w.observe (.record record tick closeTick) = { w with current := w.current ++ [record] } ∧
      s' = s.addRecord record ∨
    w.observe (.record record tick closeTick) =
        Windows.close { w with current := w.current ++ [record] } closeTick ∧
      s' = (s.addRecord record).closeWindow roundSqrt closeTick := by
  rw [AdcTask.step] at h
  obtain ⟨hopen, rfl⟩ | ⟨hover, rfl⟩ := AdcTask.evaluateRecord_cases h
  · rw [AdcTask.addRecord_periodOver, inv.periodOver, decide_eq_false_iff_not] at hopen
    exact Or.inl ⟨Windows.observe_open hopen, rfl⟩
  · rw [AdcTask.addRecord_periodOver, inv.periodOver, decide_eq_true_iff] at hover
    exact Or.inr ⟨Windows.observe_over hover, rfl⟩

/-- Every event keeps the sums those of the window in progress. -/
theorem step {roundSqrt : UInt64 → UInt16} {e : AdcTask.Event} {s' : AdcTask} (inv : Summed w s)
    (h : s.step roundSqrt e = some s') : Summed (w.observe e) s' := by
  cases e with
  | record record tick closeTick =>
      obtain ⟨hwindows, rfl⟩ | ⟨hwindows, rfl⟩ := inv.record_cases h
      · rw [hwindows]
        exact inv.addRecord record
      · rw [hwindows]
        exact closeWindow _ roundSqrt _ closeTick
  | getCurrentsMax =>
      cases h
      exact ⟨inv.start, inv.count, inv.guard, inv.power, inv.currents, inv.voltages⟩
  | getVoltagesMax =>
      cases h
      exact ⟨inv.start, inv.count, inv.guard, inv.power, inv.currents, inv.voltages⟩

/-- In every run the sums are those of the window in progress. -/
theorem of_run {roundSqrt : UInt64 → UInt16} {tick : UInt32} {events : List AdcTask.Event}
    (hrun : runFrom (AdcTask.step roundSqrt) (.initial tick) events = some s) :
    Summed (.of tick events) s := by
  refine runFrom_invariant (fun past s => Summed (.of tick past) s) (initial tick) ?_ hrun
  intro past before e after inv hstep
  rw [Windows.of_concat]
  exact inv.step hstep

/-- `effectiving_n` counts fewer than `2 ^ 32` records exactly. -/
theorem count_toNat (inv : Summed w s) (hlength : w.current.length < 2 ^ 32) :
    s.effectivingN.toNat = w.current.length := by
  rw [inv.count, UInt32.toNat_ofNat']
  exact Nat.mod_eq_of_lt hlength

/-- Fewer than `2 ^ 32` records do not trip the overflow guard. -/
theorem guard_lt (inv : Summed w s) (hlength : w.current.length < 2 ^ 32) :
    s.effectivingTestPossibleOverflow < (1 : UInt64) <<< 63 := by
  rw [inv.guard, UInt64.lt_iff_toNat_lt, UInt64.toNat_ofNat']
  change 4096 * 4096 * w.current.length % 2 ^ 64 < 2 ^ 63
  omega

/-- A record that makes a window of fewer than `2 ^ 32` is evaluated. -/
theorem evaluateRecord (inv : Summed w s) (roundSqrt : UInt64 → UInt16) (record : Record)
    (tick closeTick : UInt32) (hlength : w.current.length + 1 < 2 ^ 32) :
    s.evaluateRecord roundSqrt record tick closeTick =
      if s.periodOver tick then some ((s.addRecord record).closeWindow roundSqrt closeTick)
      else some (s.addRecord record) := by
  have hadded := inv.addRecord record
  have hshort : (w.current ++ [record]).length < 2 ^ 32 := by
    rw [List.length_append, List.length_singleton]
    exact hlength
  have hcount := hadded.count_toNat hshort
  have hpositive : (s.addRecord record).effectivingN ≠ 0 := by
    intro hzero
    rw [hzero, List.length_append] at hcount
    exact absurd hcount.symm (Nat.succ_ne_zero _)
  exact AdcTask.evaluateRecord_of_counts (hadded.guard_lt hshort) hpositive

/-- The sum over fewer than `2 ^ 32` records fits an `int64_t`. -/
theorem toInt_ofInt_sum {f : Record → Int} {window : List Record}
    (hf : ∀ record, -(2 ^ 31 - 2 ^ 15) ≤ f record ∧ f record ≤ 2 ^ 31 - 2 ^ 15)
    (hlength : window.length < 2 ^ 32) :
    (Int64.ofInt (window.map f).sum).toInt = (window.map f).sum := by
  have hlow : ((window.map f).length : Int) * (-(2 ^ 31 - 2 ^ 15)) ≤ (window.map f).sum := by
    refine length_mul_le_sum ?_
    intro x hx
    obtain ⟨record, _, rfl⟩ := List.mem_map.mp hx
    exact (hf record).1
  have hhigh : (window.map f).sum ≤ ((window.map f).length : Int) * (2 ^ 31 - 2 ^ 15) := by
    refine sum_le_length_mul ?_
    intro x hx
    obtain ⟨record, _, rfl⟩ := List.mem_map.mp hx
    exact (hf record).2
  rw [List.length_map] at hlow hhigh
  exact Int64.toInt_ofInt_of_le (by omega) (by omega)

theorem value_within (channel : ExtAdcValue) (record : Record) :
    -(2 ^ 31 - 2 ^ 15) ≤ value channel record ∧ value channel record ≤ 2 ^ 31 - 2 ^ 15 := by
  have hbounds := value_bounds channel record
  omega

/-- No sum over a window of fewer than `2 ^ 32` records overflows. -/
theorem sumsExact (inv : Summed w s) (hlength : w.current.length < 2 ^ 32) :
    SumsExact w.current s where
  power := by
    rw [inv.power]
    exact toInt_ofInt_sum power_bounds hlength
  currents := by
    intro i
    rw [inv.currents]
    exact toInt_ofInt_sum (value_within i.channel) hlength
  voltages := by
    intro i
    rw [inv.voltages]
    exact toInt_ofInt_sum (value_within i.channel) hlength

end Summed

/-- Dividing an exact sum by the count gives the mean. -/
theorem toInt_div_eq_mean {total : Int64} {n : UInt32} {window : List Record}
    {f : Record → Int} (htotal : total.toInt = (window.map f).sum) (hn : n.toNat = window.length) :
    (total / int64OfUInt32 n).toInt = truncatedMean (window.map f) := by
  rw [toInt_div_int64OfUInt32, htotal, hn, truncatedMean, List.length_map]

/-- A mean of samples within bounds is within them. -/
theorem mean_bounds {f : Record → Int} {low high : Int} {window : List Record}
    (hne : window ≠ []) (hf : ∀ record, low ≤ f record ∧ f record ≤ high) :
    low ≤ truncatedMean (window.map f) ∧ truncatedMean (window.map f) ≤ high := by
  refine truncatedMean_bounds ?_ ?_
  · simpa using hne
  · intro x hx
    obtain ⟨record, _, rfl⟩ := List.mem_map.mp hx
    exact hf record

/-- With exact sums the close of a window publishes its means, and storing them
in the narrower types loses nothing. -/
theorem SumsExact.publishesMeans {window : List Record} {s : AdcTask} (h : SumsExact window s)
    (hn : s.effectivingN.toNat = window.length) (hne : window ≠ [])
    (roundSqrt : UInt64 → UInt16) (closeTick : UInt32) :
    PublishesMeans window (s.closeWindow roundSqrt closeTick) where
  power := by
    have hmean := mean_bounds hne power_bounds
    change (s.powerAvging / int64OfUInt32 s.effectivingN).toInt32.toInt = _
    rw [Int64.toInt_toInt32, toInt_div_eq_mean h.power hn]
    exact Int.bmod_eq_of_le (by omega) (by omega)
  currents := by
    intro i
    have hmean := mean_bounds hne (value_bounds i.channel)
    change (s.currentsAvging i / int64OfUInt32 s.effectivingN).toInt16.toInt = _
    rw [Int64.toInt_toInt16, toInt_div_eq_mean (h.currents i) hn]
    exact Int.bmod_eq_of_le (by omega) (by omega)
  voltages := by
    intro i
    have hmean := mean_bounds hne (value_bounds i.channel)
    change (s.voltagesAvging i / int64OfUInt32 s.effectivingN).toInt16.toInt = _
    rw [Int64.toInt_toInt16, toInt_div_eq_mean (h.voltages i) hn]
    exact Int.bmod_eq_of_le (by omega) (by omega)

/-- The published averages are exactly the means over the windows.  In every run
the windows divide the records of the run, in their order; for every next record
that makes the window in progress one of fewer than `2 ^ 32` records, no product
and no sum overflows; and if that record ends the window, the task does not stop
and publishes the truncated means over exactly the records of this window. -/
theorem published_means {roundSqrt : UInt64 → UInt16} {bootTick : UInt32}
    {events : List AdcTask.Event} {s : AdcTask}
    (hrun : runFrom (AdcTask.step roundSqrt) (.initial bootTick) events = some s) :
    let w := Windows.of bootTick events
    w.closed.flatten ++ w.current = recordsOf events ∧
    ∀ record, w.current.length + 1 < 2 ^ 32 →
      (AdcTask.p3 record).toInt = value .voltL32 record * value .currL3 record ∧
      (AdcTask.p2 record).toInt = -value .voltL21 record * value .currL1 record ∧
      (AdcTask.p3 record + AdcTask.p2 record).toInt = power record ∧
      SumsExact (w.current ++ [record]) (s.addRecord record) ∧
      ∀ tick closeTick, s.periodOver tick = true →
        ∃ s', s.step roundSqrt (.record record tick closeTick) = some s' ∧
          (w.observe (.record record tick closeTick)).closed =
            w.closed ++ [w.current ++ [record]] ∧
          PublishesMeans (w.current ++ [record]) s' := by
  intro w
  refine ⟨Windows.records_of bootTick events, ?_⟩
  intro record hlength
  have inv : Summed w s := Summed.of_run hrun
  have hadded := inv.addRecord record
  have hshort : (w.current ++ [record]).length < 2 ^ 32 := by
    rw [List.length_append, List.length_singleton]
    exact hlength
  have hsums := hadded.sumsExact hshort
  refine ⟨toInt_p3 record, toInt_p2 record, toInt_p3_add_p2 record, hsums, ?_⟩
  intro tick closeTick hover
  refine ⟨(s.addRecord record).closeWindow roundSqrt closeTick, ?_, ?_, ?_⟩
  · rw [AdcTask.step, inv.evaluateRecord roundSqrt record tick closeTick hlength, if_pos hover]
  · rw [inv.periodOver, decide_eq_true_iff] at hover
    rw [Windows.observe_over hover]
    rfl
  · exact hsums.publishesMeans (hadded.count_toNat hshort) (by simp) roundSqrt closeTick

/-- A record in which only `curr_l1` and `volt_l21` differ from 0. -/
def phaseRecord (currL1 voltL21 : Int16) : Record := fun channel =>
  if channel = .currL1 then currL1 else if channel = .voltL21 then voltL21 else 0

/-- A window of two records, the second of which is a crossing and closes it. -/
theorem published_means_two :
    ∃ s s', runFrom (AdcTask.step fun _ => 0) (.initial 0)
        [.record (phaseRecord 7 100) 0 0] = some s ∧
      s.step (fun _ => 0) (.record (phaseRecord (-10) (-100)) 1001 1002) = some s' ∧
      s'.powerCurrentsAverage .l1 = -1 ∧ s'.powerPower = -850 := by
  obtain ⟨s, hrun⟩ : ∃ s, runFrom (AdcTask.step fun _ => 0) (.initial 0)
      [.record (phaseRecord 7 100) 0 0] = some s := ⟨_, rfl⟩
  have hover : s.periodOver 1001 = true := by
    cases hrun
    decide
  obtain ⟨_, hrecord⟩ := published_means hrun
  obtain ⟨_, _, _, _, hclose⟩ := hrecord (phaseRecord (-10) (-100)) (by decide)
  obtain ⟨s', hstep, _, hmeans⟩ := hclose 1001 1002 hover
  exact ⟨s, s', hrun, hstep, Int16.toInt_inj.mp (hmeans.currents .l1),
    Int32.toInt_inj.mp hmeans.power⟩

end WindradLogger.Adc
