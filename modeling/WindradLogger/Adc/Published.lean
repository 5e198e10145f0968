import WindradLogger.Adc.OverflowGuard

set_option autoImplicit false

/-!
# What a window publishes (`task_external_adc.c`)

At a close the task publishes averages, effective values and the power, all of the
window that ends there, and until the next close it changes none of them.  In every
state of a run they are those of the last closed window, and zero before the first
close.
-/

namespace WindradLogger.Adc

open WindradLogger.Lib

namespace Windows

/-- The last closed window, without records before the first close. -/
def last (w : Windows) : List Record := w.closed.getLastD []

/-- The windows closed are kept, and at most one more is closed. -/
theorem closed_observe (w : Windows) (e : AdcTask.Event) : w.closed <+: (w.observe e).closed := by
  cases e with
  | record record tick closeTick =>
      unfold observe
      dsimp only
      split
      · exact List.prefix_append _ _
      · exact List.prefix_rfl
  | getCurrentsMax => exact List.prefix_rfl
  | getVoltagesMax => exact List.prefix_rfl

/-- The windows of a part of a run are windows of the run. -/
theorem closed_append (tick : UInt32) (events later : List AdcTask.Event) :
    (of tick events).closed <+: (of tick (events ++ later)).closed := by
  induction later using List.reverseRecOn with
  | nil =>
      rw [List.append_nil]
  | append_singleton past e ih =>
      rw [← List.append_assoc, of_concat]
      exact ih.trans (closed_observe _ e)

/-- Every window of a run that is closed has fewer than `2 ^ 32` records. -/
def Short (w : Windows) : Prop := ∀ window ∈ w.closed, window.length < 2 ^ 32

theorem Short.of_prefix {w w' : Windows} (h : w'.Short) (hclosed : w.closed <+: w'.closed) :
    w.Short :=
  fun window hwindow => h window (hclosed.subset hwindow)

end Windows

/-! ## Squares and temperatures -/

/-- The mean of the squares of a channel's values in a window, rounded down. -/
def meanSquare (channel : ExtAdcValue) (window : List Record) : Nat :=
  (window.map fun record => (value channel record).natAbs ^ 2).sum / window.length

/-- The effective value of a channel in a window. -/
def effectiveValue (roundSqrt : UInt64 → UInt16) (channel : ExtAdcValue) :
    List Record → UInt16
  | [] => 0
  | record :: rest => roundSqrt (UInt64.ofNat (meanSquare channel (record :: rest)))

/-- The sums of squares and of temperatures are those of the window in progress, up
to the width of their types. -/
structure Squared (w : Windows) (s : AdcTask) : Prop where
  effective : ∀ i : EffectiveIndex, s.effectiving i =
    UInt64.ofNat (w.current.map fun record => (value i.channel record).natAbs ^ 2).sum
  temperatures : ∀ i : TemperatureIndex,
    s.temperaturesAvging i = Int64.ofInt (w.current.map (value i.channel)).sum

/-- The sums of a task with the same arrays. -/
theorem EffectiveIndex.effective_same {s s' : AdcTask}
    (hcurrents : s'.currentsEffectiving = s.currentsEffectiving)
    (hvoltages : s'.voltagesEffectiving = s.voltagesEffectiving) (i : EffectiveIndex) :
    s'.effectiving i = s.effectiving i := by
  cases i with
  | current i => exact congrFun hcurrents i
  | voltage i line => exact congrFun hvoltages i

namespace Squared

variable {w : Windows} {s : AdcTask}

theorem initial (tick : UInt32) : Squared (.begin tick) (.initial tick) where
  effective := fun i => AdcTask.initial_effectiving i tick
  temperatures := fun _ => rfl

theorem addRecord (inv : Squared w s) (record : Record) :
    Squared { w with current := w.current ++ [record] } (s.addRecord record) where
  effective := by
    intro i
    have hsquare : AdcTask.square (record i.channel) =
        UInt64.ofNat ((value i.channel record).natAbs ^ 2) := by
      rw [value, ← toNat_square, UInt64.ofNat_toNat]
    rw [AdcTask.addRecord_effectiving, inv.effective, hsquare, List.map_append, List.sum_append,
      UInt64.ofNat_add]
    rfl
  temperatures := by
    intro i
    have hadded : (s.addRecord record).temperaturesAvging i =
        s.temperaturesAvging i + (record i.channel).toInt64 := by
      obtain ⟨_, _, _, _, h⟩ := s.detectCrossing_frame record
      rw [AdcTask.addRecord, h, AdcTask.accumulate]
    rw [hadded, inv.temperatures, Summed.ofInt_sum_concat, value, ← Int16.toInt_toInt64,
      Int64.ofInt_toInt]

theorem closeWindow (w : Windows) (roundSqrt : UInt64 → UInt16) (s : AdcTask)
    (closeTick : UInt32) : Squared (w.close closeTick) (s.closeWindow roundSqrt closeTick) where
  effective := fun i => s.closeWindow_effectiving i roundSqrt closeTick
  temperatures := fun _ => rfl

/-- Every event keeps the sums those of the window in progress. -/
theorem step {roundSqrt : UInt64 → UInt16} {e : AdcTask.Event} {s' : AdcTask} (inv : Squared w s)
    (sums : Summed w s) (h : s.step roundSqrt e = some s') : Squared (w.observe e) s' := by
  cases e with
  | record record tick closeTick =>
      obtain ⟨hwindows, rfl⟩ | ⟨hwindows, rfl⟩ := sums.record_cases h
      · rw [hwindows]
        exact inv.addRecord record
      · rw [hwindows]
        exact closeWindow _ roundSqrt _ closeTick
  | getCurrentsMax =>
      cases h
      exact ⟨fun i => (EffectiveIndex.effective_same rfl rfl i).trans (inv.effective i),
        inv.temperatures⟩
  | getVoltagesMax =>
      cases h
      exact ⟨fun i => (EffectiveIndex.effective_same rfl rfl i).trans (inv.effective i),
        inv.temperatures⟩

/-- In every run the sums are those of the window in progress. -/
theorem of_run {roundSqrt : UInt64 → UInt16} {tick : UInt32} {events : List AdcTask.Event}
    (hrun : runFrom (AdcTask.step roundSqrt) (.initial tick) events = some s) :
    Squared (.of tick events) s := by
  refine runFrom_induction (fun past s => Squared (.of tick past) s) (initial tick) ?_ hrun
  intro past before e after hpast inv hstep
  rw [Windows.of_concat]
  exact inv.step (Summed.of_run hpast) hstep

/-- The mean of the squares, from a sum of fewer than `2 ^ 32` of them. -/
theorem toNat_sum_div (channel : ExtAdcValue) {window : List Record}
    (hlength : window.length < 2 ^ 32) {n : UInt32} (hn : n.toNat = window.length) :
    UInt64.ofNat (window.map fun record => (value channel record).natAbs ^ 2).sum / n.toUInt64 =
      UInt64.ofNat (meanSquare channel window) := by
  have hsum : (window.map fun record => (value channel record).natAbs ^ 2).sum ≤
      window.length * 2 ^ 30 := by
    have hbound := List.sum_le_card_nsmul
      (window.map fun record => (value channel record).natAbs ^ 2) (2 ^ 30)
    rw [List.length_map, nsmul_eq_mul, Nat.cast_id] at hbound
    refine hbound fun x hx => ?_
    obtain ⟨record, -, rfl⟩ := List.mem_map.mp hx
    have hvalue := value_bounds channel record
    exact Nat.pow_le_pow_left (by omega : (value channel record).natAbs ≤ 2 ^ 15) 2
  have hmean : meanSquare channel window ≤
      (window.map fun record => (value channel record).natAbs ^ 2).sum := Nat.div_le_self _ _
  refine UInt64.toNat_inj.mp ?_
  rw [UInt64.toNat_div, UInt64.toNat_ofNat', UInt64.toNat_ofNat', UInt32.toNat_toUInt64, hn,
    Nat.mod_eq_of_lt (by omega), Nat.mod_eq_of_lt (by omega)]
  rfl

end Squared

/-- Storing an `int64_t` in a `uint16_t` keeps its lower bits. -/
theorem toInt16_toUInt16_toUInt64 (x : Int64) : x.toUInt64.toUInt16.toInt16 = x.toInt16 :=
  Int16.toBitVec.inj (by simp [BitVec.signExtend_eq_setWidth_of_le])

/-! ## Along a run -/

/-- What is published is of the last closed window. -/
structure Published (roundSqrt : UInt64 → UInt16) (w : Windows) (s : AdcTask) : Prop where
  means : PublishesMeans w.last s
  temperatures : ∀ i : TemperatureIndex,
    (s.temparaturesAverage i).toInt16.toInt = truncatedMean (w.last.map (value i.channel))
  currentsEffective : ∀ i : CurrentIndex,
    s.powerCurrentsEffective i = effectiveValue roundSqrt i.channel w.last
  voltagesEffective : ∀ i : VoltageIndex, i ≠ .aux →
    s.powerVoltagesEffective i = effectiveValue roundSqrt i.channel w.last

namespace Published

variable {roundSqrt : UInt64 → UInt16} {w : Windows} {s : AdcTask}

theorem initial (tick : UInt32) : Published roundSqrt (.begin tick) (.initial tick) := by
  have hlast : (Windows.begin tick).last = [] := List.getLastD_nil
  have hmean : ∀ f : Record → Int, truncatedMean ((Windows.begin tick).last.map f) = 0 := by
    intro f
    rw [hlast, List.map_nil]
    rfl
  refine ⟨⟨(hmean _).symm, fun _ => (hmean _).symm, fun _ => (hmean _).symm⟩,
    fun _ => (hmean _).symm, ?_, ?_⟩
  · rw [hlast]
    exact fun _ => rfl
  · rw [hlast]
    exact fun _ _ => rfl

/-- A record that does not end the window publishes nothing. -/
theorem addRecord (h : Published roundSqrt w s) (record : Record) :
    Published roundSqrt { w with current := w.current ++ [record] } (s.addRecord record) := by
  obtain ⟨_, _, _, _, hframe⟩ := s.detectCrossing_frame record
  rw [AdcTask.addRecord, hframe]
  exact ⟨⟨h.means.power, h.means.currents, h.means.voltages⟩, h.temperatures,
    h.currentsEffective, h.voltagesEffective⟩

/-- A close publishes the window that it ends. -/
theorem closeWindow (sums : Summed w s) (squares : Squared w s)
    (hlength : w.current.length < 2 ^ 32) (hne : w.current ≠ []) (closeTick : UInt32) :
    Published roundSqrt (w.close closeTick) (s.closeWindow roundSqrt closeTick) := by
  have hlast : (w.close closeTick).last = w.current := by
    rw [Windows.last, Windows.close, List.getLastD_concat]
  have hcount := sums.count_toNat hlength
  have hexact := sums.sumsExact hlength
  have heffective : ∀ i : EffectiveIndex,
      roundSqrt (s.effectiving i / s.effectivingN.toUInt64) =
        effectiveValue roundSqrt i.channel w.current := by
    intro i
    rw [squares.effective, Squared.toNat_sum_div i.channel hlength hcount]
    obtain ⟨record, rest, hwindow⟩ := List.exists_cons_of_ne_nil hne
    rw [hwindow, effectiveValue]
  rw [← hlast] at hexact hcount hne
  refine ⟨?_, ?_, ?_, ?_⟩
  · exact hexact.publishesMeans hcount hne roundSqrt closeTick
  · intro i
    have hmean := mean_bounds hne (value_bounds i.channel)
    have htotal : (s.temperaturesAvging i).toInt =
        (((w.close closeTick).last).map (value i.channel)).sum := by
      rw [squares.temperatures, hlast]
      exact Summed.toInt_ofInt_sum (Summed.value_within i.channel) hlength
    have hquotient := toInt_div_eq_mean htotal hcount
    have hnarrow : ((s.closeWindow roundSqrt closeTick).temparaturesAverage i).toInt16 =
        (s.temperaturesAvging i / int64OfUInt32 s.effectivingN).toInt16 :=
      toInt16_toUInt16_toUInt64 _
    rw [hnarrow, Int64.toInt_toInt16, hquotient]
    exact Int.bmod_eq_of_le (by omega) (by omega)
  · intro i
    rw [hlast]
    exact heffective (.current i)
  · intro i line
    have hvoltage : (s.closeWindow roundSqrt closeTick).powerVoltagesEffective i =
        roundSqrt (s.effectiving (.voltage i line) / s.effectivingN.toUInt64) := if_neg line
    rw [hlast, hvoltage, heffective]
    rfl

/-- Every event keeps what is published that of the last closed window. -/
theorem step {e : AdcTask.Event} {s' : AdcTask} (h : Published roundSqrt w s) (sums : Summed w s)
    (squares : Squared w s) (hshort : (w.observe e).Short)
    (hstep : s.step roundSqrt e = some s') : Published roundSqrt (w.observe e) s' := by
  cases e with
  | record record tick closeTick =>
      obtain ⟨hwindows, rfl⟩ | ⟨hwindows, rfl⟩ := sums.record_cases hstep
      · rw [hwindows]
        exact h.addRecord record
      · rw [hwindows] at hshort ⊢
        refine closeWindow (sums.addRecord record) (squares.addRecord record) ?_ ?_ closeTick
        · exact hshort _ (List.mem_append_right _ (List.mem_singleton_self _))
        · exact List.append_ne_nil_of_right_ne_nil _ (List.cons_ne_nil _ _)
  | getCurrentsMax =>
      cases hstep
      exact ⟨⟨h.means.power, h.means.currents, h.means.voltages⟩, h.temperatures,
        h.currentsEffective, h.voltagesEffective⟩
  | getVoltagesMax =>
      cases hstep
      exact ⟨⟨h.means.power, h.means.currents, h.means.voltages⟩, h.temperatures,
        h.currentsEffective, h.voltagesEffective⟩

/-- In every run what is published is of the last closed window. -/
theorem of_run {tick : UInt32} {events : List AdcTask.Event}
    (hrun : runFrom (AdcTask.step roundSqrt) (.initial tick) events = some s)
    (hshort : (Windows.of tick events).Short) :
    Published roundSqrt (.of tick events) s := by
  revert hshort
  refine runFrom_induction
    (fun past s => (Windows.of tick past).Short → Published roundSqrt (.of tick past) s)
    (fun _ => initial tick) ?_ hrun
  intro past before e after hpast inv hstep hshort
  have hbefore := hshort.of_prefix (Windows.closed_append tick past [e])
  rw [Windows.of_concat] at hshort ⊢
  exact (inv hbefore).step (Summed.of_run hpast) (Squared.of_run hpast) hshort hstep

end Published

end WindradLogger.Adc
