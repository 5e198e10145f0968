import WindradLogger.Adc.Window
import WindradLogger.Lib.Width

set_option autoImplicit false

/-!
# Peak values (`task_external_adc.c`)

A peak goes from the maximum of the window in progress, kept without sign, to the
published maximum, and from there to the caller that reads and clears it.  The
published maximum of a voltage is unsigned; that of a current is an `int16_t`,
in which the magnitude of the most negative sample becomes the smallest value of
all, so that the next window overwrites it.
-/

namespace WindradLogger.Adc

open WindradLogger.Lib

/-- `abs_i16` is exact, also for the most negative sample. -/
theorem toNat_absI16 (val : Int16) : (absI16 val).toNat = val.toInt.natAbs := by
  have hlow := val.le_toInt
  have hhigh := val.toInt_lt
  unfold absI16
  split
  · rename_i hneg
    rw [Int16.lt_iff_toInt_lt] at hneg
    change val.toInt < 0 at hneg
    have hopposite : (-val.toInt32).toInt = -val.toInt := by
      rw [Int32.toInt_neg, Int16.toInt_toInt32]
      exact Int.bmod_eq_of_le (by omega) (by omega)
    have hpos : 0 ≤ -val.toInt32 := by
      rw [Int32.le_iff_toInt_le, hopposite]
      change 0 ≤ _
      omega
    rw [UInt32.toNat_toUInt16, Int32.toNat_toUInt32_of_le hpos, Int32.toNatClampNeg, hopposite]
    omega
  · rename_i hpos
    rw [Int16.not_lt, Int16.le_iff_toInt_le] at hpos
    change 0 ≤ val.toInt at hpos
    rw [Int16.toNat_toUInt16_of_le (Int16.le_iff_toInt_le.mpr hpos), Int16.toNatClampNeg]
    omega

/-! ## The peaks of windows -/

/-- The magnitude of a channel's value. -/
def magnitude (channel : ExtAdcValue) (record : Record) : Nat := (value channel record).natAbs

/-- The largest magnitude of a channel in a window. -/
def windowPeak (channel : ExtAdcValue) (window : List Record) : Nat :=
  peak (window.map (magnitude channel))

theorem magnitude_le (channel : ExtAdcValue) (record : Record) :
    magnitude channel record ≤ 2 ^ 15 := by
  have hbounds := value_bounds channel record
  unfold magnitude
  omega

theorem windowPeak_le (channel : ExtAdcValue) (window : List Record) :
    windowPeak channel window ≤ 2 ^ 15 := by
  refine peak_le ?_
  intro x hx
  obtain ⟨record, _, rfl⟩ := List.mem_map.mp hx
  exact magnitude_le channel record

theorem windowPeak_concat (channel : ExtAdcValue) (window : List Record) (record : Record) :
    windowPeak channel (window ++ [record]) =
      max (windowPeak channel window) (magnitude channel record) := by
  simp [windowPeak]

/-- The peak over several windows is the peak of their peaks. -/
theorem windowPeak_flatten (channel : ExtAdcValue) (windows : List (List Record)) :
    windowPeak channel windows.flatten = peak (windows.map (windowPeak channel)) := by
  induction windows with
  | nil => rfl
  | cons window rest ih =>
      rw [List.flatten_cons, List.map_cons, peak_cons, ← ih]
      simp [windowPeak]

/-! ## A maximum kept in a signed variable -/

/-- What is left in a cleared `int16_t` after each of the peaks has been stored
in it if it was larger than the content. -/
def storedMax (peaks : List Nat) : Int :=
  peaks.foldl (fun stored x => if stored < x then (x : Int).bmod (2 ^ 16) else stored) 0

theorem storedMax_concat (peaks : List Nat) (x : Nat) :
    storedMax (peaks ++ [x]) =
      if storedMax peaks < x then (x : Int).bmod (2 ^ 16) else storedMax peaks := by
  simp [storedMax]

theorem peak_lt_of_notMem {peaks : List Nat} (hpeaks : ∀ x ∈ peaks, x ≤ 2 ^ 15)
    (hnone : 2 ^ 15 ∉ peaks) : peak peaks < 2 ^ 15 := by
  have hle : peak peaks ≤ 2 ^ 15 - 1 := by
    refine peak_le ?_
    intro x hx
    have hle := hpeaks x hx
    have hne : x ≠ 2 ^ 15 := by
      intro heq
      exact hnone (heq ▸ hx)
    omega
  omega

/-- The largest possible peak is stored as the smallest value if it came last; it
leaves no trace if another peak came after it; without it the variable holds the
maximum. -/
theorem storedMax_cases {peaks : List Nat} (hpeaks : ∀ x ∈ peaks, x ≤ 2 ^ 15) :
    peaks.getLast? = some (2 ^ 15) ∧ storedMax peaks = -2 ^ 15 ∨
    2 ^ 15 ∉ peaks ∧ storedMax peaks = peak peaks ∨
    (2 ^ 15 ∈ peaks ∧ peaks.getLast? ≠ some (2 ^ 15)) ∧
      0 ≤ storedMax peaks ∧ storedMax peaks < 2 ^ 15 := by
  induction peaks using List.reverseRecOn with
  | nil => exact Or.inr (Or.inl ⟨List.not_mem_nil, rfl⟩)
  | append_singleton peaks x ih =>
      have hbefore : ∀ y ∈ peaks, y ≤ 2 ^ 15 := fun y hy => hpeaks y (List.mem_append_left _ hy)
      have hx : x ≤ 2 ^ 15 := hpeaks x (by simp)
      have hlast : (peaks ++ [x]).getLast? = some x := by simp
      have ih := ih hbefore
      rw [storedMax_concat, hlast]
      rcases Nat.lt_or_eq_of_le hx with hsmall | hlargest
      · have hexact : (x : Int).bmod (2 ^ 16) = x := Int.bmod_eq_of_le (by omega) (by omega)
        have hnotlast : some x ≠ some (2 ^ 15) := by
          intro h
          exact absurd (Option.some.inj h) (Nat.ne_of_lt hsmall)
        rw [hexact]
        obtain ⟨hpeak, hstored⟩ | ⟨hnone, hstored⟩ | ⟨⟨hmem, _⟩, hstored⟩ := ih
        · have hmem : 2 ^ 15 ∈ peaks := List.mem_of_getLast? hpeak
          refine Or.inr (Or.inr ⟨⟨List.mem_append_left _ hmem, hnotlast⟩, ?_⟩)
          rw [hstored, if_pos (by omega)]
          omega
        · refine Or.inr (Or.inl ⟨?_, ?_⟩)
          · rw [List.mem_append, List.mem_singleton]
            intro h
            cases h with
            | inl hmem => exact hnone hmem
            | inr heq => omega
          · rw [hstored, peak_append, peak_cons, peak_nil]
            split
            · omega
            · omega
        · refine Or.inr (Or.inr ⟨⟨List.mem_append_left _ hmem, hnotlast⟩, ?_⟩)
          split
          · omega
          · exact hstored
      · have hbelow : storedMax peaks < x := by
          obtain ⟨_, hstored⟩ | ⟨hnone, hstored⟩ | ⟨_, hstored⟩ := ih
          · omega
          · have := peak_lt_of_notMem hbefore hnone
            omega
          · omega
        refine Or.inl ⟨by rw [hlargest], ?_⟩
        rw [if_pos hbelow, hlargest]
        rfl

/-- Read without sign, the variable holds the maximum unless the largest possible
peak was stored and is not the last. -/
theorem storedMax_emod_eq_peak_iff {peaks : List Nat} (hpeaks : ∀ x ∈ peaks, x ≤ 2 ^ 15) :
    storedMax peaks % 2 ^ 16 = peak peaks ↔
      2 ^ 15 ∉ peaks ∨ peaks.getLast? = some (2 ^ 15) := by
  obtain ⟨hpeak, hstored⟩ | ⟨hnone, hstored⟩ | ⟨⟨hmem, hnotlast⟩, hstored⟩ := storedMax_cases hpeaks
  · have hmax : peak peaks = 2 ^ 15 :=
      Nat.le_antisymm (peak_le hpeaks) (le_peak (List.mem_of_getLast? hpeak))
    rw [hstored, hmax]
    exact iff_of_true rfl (Or.inr hpeak)
  · have hlt := peak_lt_of_notMem hpeaks hnone
    refine iff_of_true ?_ (Or.inl hnone)
    rw [hstored]
    omega
  · have hmax : peak peaks = 2 ^ 15 := Nat.le_antisymm (peak_le hpeaks) (le_peak hmem)
    refine iff_of_false ?_ ?_
    · rw [hmax]
      omega
    · intro h
      cases h with
      | inl hnone => exact hnone hmem
      | inr hlast => exact hnotlast hlast

/-! ## The maxima along a run -/

/-- The maxima of the task are those of the window in progress and of the windows
closed since the previous calls. -/
structure Peaked (w : Windows) (s : AdcTask) : Prop where
  currents : ∀ i : CurrentIndex, (s.currentsMaxAbs i).toNat = windowPeak i.channel w.current
  voltages : ∀ i : VoltageIndex, (s.voltagesMaxAbs i).toNat = windowPeak i.channel w.current
  storedCurrents : ∀ i : CurrentIndex,
    (s.powerCurrentsMax i).toInt = storedMax (w.unreadCurrents.map (windowPeak i.channel))
  storedVoltages : ∀ i : VoltageIndex,
    (s.powerVoltagesMax i).toNat = peak (w.unreadVoltages.map (windowPeak i.channel))

namespace Peaked

theorem initial (tick : UInt32) : Peaked (.begin tick) (.initial tick) where
  currents := fun _ => rfl
  voltages := fun _ => rfl
  storedCurrents := fun _ => rfl
  storedVoltages := fun _ => rfl

variable {w : Windows} {s : AdcTask}

/-- A record raises the maxima of the window in progress. -/
theorem addRecord (inv : Peaked w s) (record : Record) :
    Peaked { w with current := w.current ++ [record] } (s.addRecord record) where
  currents := by
    intro i
    have hbefore := inv.currents i
    have habs := toNat_absI16 (record i.channel)
    rw [AdcTask.addRecord_currentsMaxAbs, windowPeak_concat, ← hbefore, magnitude, value, ← habs]
    split
    · rename_i hlt
      rw [UInt16.lt_iff_toNat_lt] at hlt
      omega
    · rename_i hle
      rw [UInt16.lt_iff_toNat_lt] at hle
      omega
  voltages := by
    intro i
    have hbefore := inv.voltages i
    have habs : (absI16 (record i.channel)).toUInt32.toNat = (record i.channel).toInt.natAbs := by
      rw [UInt16.toNat_toUInt32, toNat_absI16]
    rw [AdcTask.addRecord_voltagesMaxAbs, windowPeak_concat, ← hbefore, magnitude, value, ← habs]
    split
    · rename_i hlt
      rw [UInt32.lt_iff_toNat_lt] at hlt
      omega
    · rename_i hle
      rw [UInt32.lt_iff_toNat_lt] at hle
      omega
  storedCurrents := by
    rw [AdcTask.addRecord_powerCurrentsMax]
    exact inv.storedCurrents
  storedVoltages := by
    rw [AdcTask.addRecord_powerVoltagesMax]
    exact inv.storedVoltages

/-- A close stores the maxima of the window and clears them. -/
theorem closeWindow (inv : Peaked w s) (roundSqrt : UInt64 → UInt16) (closeTick : UInt32) :
    Peaked (w.close closeTick) (s.closeWindow roundSqrt closeTick) where
  currents := fun _ => rfl
  voltages := fun _ => rfl
  storedCurrents := by
    intro i
    rw [Windows.close, List.map_append, List.map_singleton, storedMax_concat,
      ← inv.storedCurrents i, ← inv.currents i]
    unfold AdcTask.closeWindow
    dsimp only
    split
    · rename_i hgt
      rw [gt_iff_lt, Int32.lt_iff_toInt_lt, toInt_toInt32_toUInt32, Int16.toInt_toInt32] at hgt
      rw [if_pos hgt, toInt_toInt16]
    · rename_i hle
      rw [gt_iff_lt, Int32.lt_iff_toInt_lt, toInt_toInt32_toUInt32, Int16.toInt_toInt32] at hle
      rw [if_neg hle]
  storedVoltages := by
    intro i
    have hwindow := inv.voltages i
    have hpeak := windowPeak_le i.channel w.current
    rw [Windows.close, List.map_append, List.map_singleton, peak_append, peak_cons, peak_nil,
      ← inv.storedVoltages i, ← hwindow]
    unfold AdcTask.closeWindow
    dsimp only
    split
    · rename_i hgt
      rw [gt_iff_lt, UInt32.lt_iff_toNat_lt, UInt16.toNat_toUInt32] at hgt
      rw [UInt32.toNat_toUInt16]
      omega
    · rename_i hle
      rw [gt_iff_lt, UInt32.lt_iff_toNat_lt, UInt16.toNat_toUInt32] at hle
      omega

/-- Every event keeps the maxima those of the windows. -/
theorem step {roundSqrt : UInt64 → UInt16} {e : AdcTask.Event} {s' : AdcTask} (inv : Peaked w s)
    (sums : Summed w s) (h : s.step roundSqrt e = some s') : Peaked (w.observe e) s' := by
  cases e with
  | record record tick closeTick =>
      obtain ⟨hwindows, rfl⟩ | ⟨hwindows, rfl⟩ := sums.record_cases h
      · rw [hwindows]
        exact inv.addRecord record
      · rw [hwindows]
        exact (inv.addRecord record).closeWindow roundSqrt closeTick
  | getCurrentsMax =>
      cases h
      exact ⟨inv.currents, inv.voltages, fun _ => rfl, inv.storedVoltages⟩
  | getVoltagesMax =>
      cases h
      exact ⟨inv.currents, inv.voltages, inv.storedCurrents, fun _ => rfl⟩

/-- In every run the maxima are those of the windows. -/
theorem of_run {roundSqrt : UInt64 → UInt16} {tick : UInt32} {events : List AdcTask.Event}
    (hrun : runFrom (AdcTask.step roundSqrt) (.initial tick) events = some s) :
    Peaked (.of tick events) s := by
  refine runFrom_induction (fun past s => Peaked (.of tick past) s) (initial tick) ?_ hrun
  intro past before e after hpast inv hstep
  rw [Windows.of_concat]
  exact inv.step (Summed.of_run hpast) hstep

end Peaked

/-- What the calls that read the maxima return, in every state that a run leads
to.  `extadc_get_voltages_max` returns the largest magnitude over the windows
closed since its previous call.  `extadc_get_currents_max` does so for a current
exactly when none of these windows has the peak `2 ^ 15`, or the last one has. -/
theorem maxima_iff {roundSqrt : UInt64 → UInt16} {bootTick : UInt32}
    {events : List AdcTask.Event} {s : AdcTask}
    (hrun : runFrom (AdcTask.step roundSqrt) (.initial bootTick) events = some s) :
    let w := Windows.of bootTick events
    (∀ i, (s.extadcGetVoltagesMax.1 i).toNat = windowPeak i.channel w.unreadVoltages.flatten) ∧
    ∀ i, (s.extadcGetCurrentsMax.1 i).toNat = windowPeak i.channel w.unreadCurrents.flatten ↔
      2 ^ 15 ∉ w.unreadCurrents.map (windowPeak i.channel) ∨
      (w.unreadCurrents.map (windowPeak i.channel)).getLast? = some (2 ^ 15) := by
  intro w
  have inv : Peaked w s := Peaked.of_run hrun
  refine ⟨?_, ?_⟩
  · intro i
    rw [windowPeak_flatten]
    exact inv.storedVoltages i
  · intro i
    have hpeaks : ∀ x ∈ w.unreadCurrents.map (windowPeak i.channel), x ≤ 2 ^ 15 := by
      intro x hx
      obtain ⟨window, _, rfl⟩ := List.mem_map.mp hx
      exact windowPeak_le i.channel window
    rw [windowPeak_flatten, ← storedMax_emod_eq_peak_iff hpeaks, ← inv.storedCurrents i,
      ← toNat_toUInt16, Int.natCast_inj]
    rfl

/-- Two windows, each of which closes with a crossing of `volt_l21`; the currents are
those of the records that close them. -/
def twoWindows (first second : Int16) : List AdcTask.Event :=
  [.record (phaseRecord 0 100) 0 0, .record (phaseRecord first (-100)) 1001 1002,
    .record (phaseRecord 0 100) 1003 1003, .record (phaseRecord second (-100)) 2004 2005]

/-- The most negative sample in the last window is returned, and of the voltages the
largest magnitude. -/
theorem maxima_iff_twoWindows :
    ∃ s, runFrom (AdcTask.step fun _ => 0) (.initial 0) (twoWindows 5 (-32768)) = some s ∧
      (s.extadcGetCurrentsMax.1 .l1).toNat = 2 ^ 15 ∧
      (s.extadcGetVoltagesMax.1 .l21).toNat = 100 := by
  obtain ⟨s, hrun⟩ : ∃ s, runFrom (AdcTask.step fun _ => 0) (.initial 0)
      (twoWindows 5 (-32768)) = some s := ⟨_, rfl⟩
  obtain ⟨hvoltages, hcurrents⟩ := maxima_iff hrun
  exact ⟨s, hrun, (hcurrents .l1).mpr (Or.inr rfl), hvoltages .l21⟩

/-- The most negative sample in one window and a small one in the next: the call
returns the small one. -/
theorem largestPeak_overwritten :
    ∃ s, runFrom (AdcTask.step fun _ => 0) (.initial 0) (twoWindows (-32768) 5) = some s ∧
      (s.extadcGetCurrentsMax.1 .l1).toNat = 5 ∧
      windowPeak .currL1 (Windows.of 0 (twoWindows (-32768) 5)).unreadCurrents.flatten =
        2 ^ 15 := by
  exact ⟨_, rfl, rfl, rfl⟩

end WindradLogger.Adc
