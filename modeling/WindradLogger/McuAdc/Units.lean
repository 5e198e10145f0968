import WindradLogger.Lib.Recorded
import WindradLogger.Lib.Width

set_option autoImplicit false

/-!
# Physical units (`task_adc.c`)

The ADC of the MCU measures in turn the temperature sensor, two inputs, the coin
cell and its own reference.  From the reading of the reference and the factory
calibration follows the supply voltage, and from that the other quantities, in
integers of 32 bits, some signed and some not.  The factory calibration is used
when it looks plausible, and is left zero otherwise.
-/

namespace WindradLogger.McuAdc

open WindradLogger.Lib

/-! ## The data -/

/-- `adc_sequence_index_t` -/
inductive AdcSequenceIndex where
  | temperature | currExt | supplySensse | coinCell | ref
  deriving DecidableEq, Repr

/-- `TSCALIB_t` -/
structure TsCalib where
  vref : UInt16
  tsCal1 : UInt16
  tsCal2 : UInt16
  deriving DecidableEq, Repr

/-- `adcValuesPlain` -/
abbrev Readings : Type := AdcSequenceIndex → UInt16

/-! ## The factory calibration -/

/-- `FACTORY_TSCALIB_MD_BASE` -/
def factoryTscalibMdBase : Nat := 0x1FF80078
/-- `FACTORY_TSCALIB_MDP_BASE` -/
def factoryTscalibMdpBase : Nat := 0x1FF800F8
/-- `FACTORY_TSCALIB_F407_VGT6` -/
def factoryTscalibF407Vgt6 : Nat := 0x1FFF7A2A

/-- `TSCALIB_TypeDef` at an address, without its reserved half-word. -/
def tscalibAt (memory : Nat → UInt16) (base : Nat) : TsCalib :=
  { vref := memory base, tsCal1 := memory (base + 2), tsCal2 := memory (base + 6) }

/-- `TSCALIB_F407VGT6_TypeDef` at an address. -/
def tscalibF407Vgt6At (memory : Nat → UInt16) (base : Nat) : TsCalib :=
  { vref := memory base, tsCal1 := memory (base + 2), tsCal2 := memory (base + 4) }

/-- `getFactoryTSCalibData`, which stops on a device it does not know. -/
def getFactoryTsCalibData (deviceId : UInt32) (memory : Nat → UInt16) : Option TsCalib :=
  if deviceId = 0x427 then some (tscalibAt memory factoryTscalibMdpBase)
  else if deviceId = 0x437 then some (tscalibAt memory factoryTscalibMdpBase)
  else if deviceId = 0x416 then some (tscalibAt memory factoryTscalibMdBase)
  else if deviceId = 0x413 then some (tscalibF407Vgt6At memory factoryTscalibF407Vgt6)
  else none

/-- `TEST_CALIB_DIFF` -/
def testCalibDiff : Int32 := 50

/-- `testFactoryCalibData`, for the data it reads: whether it returns `SUCCESS`. -/
def testFactoryCalibData (datatotest : TsCalib) : Bool :=
  datatotest.tsCal2.toUInt32.toInt32 - datatotest.tsCal1.toUInt32.toInt32 > testCalibDiff

/-- `adcCalibData` as `ADC_Config` leaves it, when the factory data is `factory`. -/
def adcCalibData (factory : TsCalib) : TsCalib :=
  if testFactoryCalibData factory then factory else { vref := 0, tsCal1 := 0, tsCal2 := 0 }

/-- The part of `ADC_Config` that loads the factory calibration. -/
def adcConfig (deviceId : UInt32) (memory : Nat → UInt16) : Option TsCalib := do
  let datatotest ← getFactoryTsCalibData deviceId memory
  if testFactoryCalibData datatotest then getFactoryTsCalibData deviceId memory
  else return { vref := 0, tsCal1 := 0, tsCal2 := 0 }

theorem adcConfig_eq (deviceId : UInt32) (memory : Nat → UInt16) :
    adcConfig deviceId memory = (getFactoryTsCalibData deviceId memory).map adcCalibData := by
  unfold adcConfig
  cases hread : getFactoryTsCalibData deviceId memory with
  | none => rfl
  | some factory =>
      rw [Option.map_some, Option.bind_eq_bind, Option.bind_some, adcCalibData]
      split
      · rfl
      · rfl

/-- The data that is used has two different temperature readings exactly when the
factory data was accepted. -/
theorem adcCalibData_differ_iff (factory : TsCalib) :
    (adcCalibData factory).tsCal1 ≠ (adcCalibData factory).tsCal2 ↔
      testFactoryCalibData factory = true := by
  unfold adcCalibData
  split
  · rename_i haccept
    simp only [haccept, iff_true]
    intro hsame
    rw [testFactoryCalibData, hsame, Int32.sub_self] at haccept
    exact absurd haccept (by decide)
  · rename_i hreject
    simp [hreject]

/-! ## The computation at `adsi_ref` -/

/-- `VOLT_REFERENCE_mv` -/
def voltReferenceMv : Int32 := 3300
/-- `ADC_MAX_VALUE_DIGIT` -/
def adcMaxValueDigit : Int32 := 4095
/-- `VBAT_FACTOR_407VGT6` -/
def vbatFactor : Int32 := 2

/-- `ref_voltage_mv` -/
def refVoltageMv (calibData : TsCalib) (plain : Readings) : Recorded UInt32 := do
  let refVoltage ← Recorded.mul voltReferenceMv calibData.vref.toUInt32.toInt32
  Recorded.div refVoltage.toUInt32 (plain .ref).toUInt32

/-- `temperature_c`.  Its first product is unsigned, because `ref_voltage_mv` is. -/
def temperatureC (calibData : TsCalib) (plain : Readings) (refVoltage : UInt32) :
    Recorded Int32 := do
  let product ← Recorded.mul (plain .temperature).toUInt32 refVoltage
  let digits ← Recorded.div product.toInt32 voltReferenceMv
  let difference ← Recorded.sub digits calibData.tsCal1.toUInt32.toInt32
  let scaled ← Recorded.mul (110 - 30) difference
  let span ← Recorded.sub calibData.tsCal2.toUInt32.toInt32 calibData.tsCal1.toUInt32.toInt32
  let degrees ← Recorded.div scaled span
  Recorded.add degrees 30

/-- `adc1_mv`, `adc2_mv` -/
def adcMv (refVoltage : UInt32) (reading : UInt16) : Recorded UInt32 := do
  let product ← Recorded.mul refVoltage reading.toUInt32
  Recorded.div product adcMaxValueDigit.toUInt32

/-- `coin_cell_mv` -/
def coinCellMv (refVoltage : UInt32) (reading : UInt16) : Recorded UInt32 := do
  let product ← Recorded.mul refVoltage reading.toUInt32
  let doubled ← Recorded.mul product vbatFactor.toUInt32
  Recorded.div doubled adcMaxValueDigit.toUInt32

/-- What is computed from the readings of a cycle. -/
structure PhysicalUnits where
  refVoltageMv : UInt32
  temperatureC : Int32
  adc1Mv : UInt32
  adc2Mv : UInt32
  coinCellMv : UInt32
  deriving DecidableEq, Repr

/-- The computation of `taskADC` at `adsi_ref`. -/
def physicalUnits (calibData : TsCalib) (plain : Readings) : Recorded PhysicalUnits := do
  let refVoltage ← refVoltageMv calibData plain
  let temperature ← temperatureC calibData plain refVoltage
  let adc1 ← adcMv refVoltage (plain .currExt)
  let adc2 ← adcMv refVoltage (plain .supplySensse)
  let coinCell ← coinCellMv refVoltage (plain .coinCell)
  return { refVoltageMv := refVoltage, temperatureC := temperature, adc1Mv := adc1,
           adc2Mv := adc2, coinCellMv := coinCell }

/-! ## When it is sound -/

theorem int32_range {n : Int} (h : n.natAbs < 2 ^ 31) :
    MachineInt.lower Int32 ≤ n ∧ n < MachineInt.upper Int32 := by
  change -2 ^ 31 ≤ n ∧ n < 2 ^ 31
  omega

section Operations

variable (calibData : TsCalib) (plain : Readings) (refVoltage : UInt32) (reading : UInt16)

/-- The voltage of the reference that the calibration stands for always fits. -/
theorem refVoltage_computes :
    (Recorded.mul voltReferenceMv calibData.vref.toUInt32.toInt32).Computes fun product =>
      product.toUInt32.toNat = 3300 * calibData.vref.toNat := by
  have hvref : MachineInt.read calibData.vref.toUInt32.toInt32 = calibData.vref.toNat :=
    toInt_toInt32_toUInt32 _
  have hreference : MachineInt.read voltReferenceMv = 3300 := rfl
  have hlt := calibData.vref.toNat_lt
  have hlower : (-2 ^ 31 : Int) ≤ 3300 * calibData.vref.toNat := by omega
  have hupper : (3300 : Int) * calibData.vref.toNat < 2 ^ 31 := by omega
  obtain ⟨hsound, hvalue⟩ := Recorded.computes_mul hreference hvref hlower hupper
  refine ⟨hsound, ?_⟩
  have hback := toNat_toUInt32 (Recorded.mul voltReferenceMv calibData.vref.toUInt32.toInt32).value
  change (Recorded.mul voltReferenceMv _).value.toInt = _ at hvalue
  rw [hvalue] at hback
  omega

theorem sound_refVoltageMv :
    (refVoltageMv calibData plain).Sound ↔ (plain .ref).toNat ≠ 0 := by
  obtain ⟨hsound, -⟩ := refVoltage_computes calibData
  rw [refVoltageMv, Recorded.sound_bind, Recorded.sound_div_uint32, UInt16.toNat_toUInt32]
  exact and_iff_right hsound

/-- `ref_voltage_mv` is the voltage that belongs to the reading of the reference. -/
theorem toNat_refVoltageMv :
    (refVoltageMv calibData plain).value.toNat =
      3300 * calibData.vref.toNat / (plain .ref).toNat := by
  obtain ⟨-, hvalue⟩ := refVoltage_computes calibData
  change (_ / (plain .ref).toUInt32).toNat = _
  rw [UInt32.toNat_div, hvalue, UInt16.toNat_toUInt32]

theorem sound_adcMv :
    (adcMv refVoltage reading).Sound ↔ refVoltage.toNat * reading.toNat < 2 ^ 32 := by
  have hdivisor : adcMaxValueDigit.toUInt32.toNat ≠ 0 := by decide
  rw [adcMv, Recorded.sound_bind, Recorded.sound_mul_uint32, Recorded.sound_div_uint32,
    UInt16.toNat_toUInt32]
  exact and_iff_left hdivisor

theorem toNat_adcMv (h : refVoltage.toNat * reading.toNat < 2 ^ 32) :
    (adcMv refVoltage reading).value.toNat = reading.toNat * refVoltage.toNat / 4095 := by
  change (refVoltage * reading.toUInt32 / adcMaxValueDigit.toUInt32).toNat = _
  rw [UInt32.toNat_div, UInt32.toNat_mul, UInt16.toNat_toUInt32, Nat.mod_eq_of_lt h, Nat.mul_comm]
  rfl

theorem sound_coinCellMv :
    (coinCellMv refVoltage reading).Sound ↔ refVoltage.toNat * (reading.toNat * 2) < 2 ^ 32 := by
  have hdivisor : adcMaxValueDigit.toUInt32.toNat ≠ 0 := by decide
  have hfactor : vbatFactor.toUInt32.toNat = 2 := rfl
  rw [coinCellMv, Recorded.sound_bind, Recorded.sound_bind, Recorded.sound_mul_uint32,
    Recorded.sound_mul_uint32, Recorded.sound_div_uint32, UInt16.toNat_toUInt32, hfactor]
  change _ ∧ (refVoltage * reading.toUInt32).toNat * 2 < 2 ^ 32 ∧ _ ↔ _
  rw [UInt32.toNat_mul, UInt16.toNat_toUInt32, ← Nat.mul_assoc]
  constructor
  · rintro ⟨hproduct, hdoubled, -⟩
    rwa [Nat.mod_eq_of_lt hproduct] at hdoubled
  · intro hdoubled
    have hproduct : refVoltage.toNat * reading.toNat < 2 ^ 32 := by omega
    rw [Nat.mod_eq_of_lt hproduct]
    exact ⟨hproduct, hdoubled, hdivisor⟩

theorem toNat_coinCellMv (h : refVoltage.toNat * (reading.toNat * 2) < 2 ^ 32) :
    (coinCellMv refVoltage reading).value.toNat =
      reading.toNat * refVoltage.toNat * 2 / 4095 := by
  have hproduct : refVoltage.toNat * reading.toNat < 2 ^ 32 := by
    rw [← Nat.mul_assoc] at h
    omega
  have hfactor : vbatFactor.toUInt32.toNat = 2 := rfl
  have horder : reading.toNat * refVoltage.toNat * 2 = refVoltage.toNat * (reading.toNat * 2) := by
    rw [Nat.mul_comm reading.toNat, Nat.mul_assoc]
  change (refVoltage * reading.toUInt32 * vbatFactor.toUInt32 / adcMaxValueDigit.toUInt32).toNat = _
  rw [UInt32.toNat_div, UInt32.toNat_mul, UInt32.toNat_mul, UInt16.toNat_toUInt32,
    Nat.mod_eq_of_lt hproduct, hfactor, Nat.mul_assoc, Nat.mod_eq_of_lt h, horder]
  rfl

/-- The quotient of the first product of `temperature_c`. -/
theorem natAbs_digits_le (product : Int32) : (product.toInt.tdiv 3300).natAbs ≤ 650752 := by
  have hlower := product.le_toInt
  have hupper := product.toInt_lt
  rw [Int.natAbs_tdiv]
  change product.toInt.natAbs / 3300 ≤ 650752
  omega

/-- The end of `temperature_c`: with a small dividend only the divisor can be wrong. -/
theorem sound_degrees {scaled span : Int32} {m n : Int} (hdividend : MachineInt.read scaled = m)
    (hdivisor : MachineInt.read span = n) (hm : m.natAbs ≤ 2 ^ 26) :
    (do
      let degrees ← Recorded.div scaled span
      Recorded.add degrees 30 : Recorded Int32).Sound ↔ n ≠ 0 := by
  constructor
  · intro hsound
    rw [Recorded.sound_bind, Recorded.sound_div, hdivisor] at hsound
    exact hsound.1.1
  · intro hne
    have hdegrees : (m.tdiv n).natAbs ≤ 2 ^ 26 := by
      rw [Int.natAbs_tdiv]
      exact Nat.le_trans (Nat.div_le_self _ _) hm
    obtain ⟨hlower, hupper⟩ := int32_range (Nat.lt_of_le_of_lt hdegrees (by decide))
    obtain ⟨hsound, hread⟩ := Recorded.computes_div hdividend hdivisor hne hlower hupper
    have hsum : (m.tdiv n + 30).natAbs < 2 ^ 31 := by omega
    obtain ⟨hlower, hupper⟩ := int32_range hsum
    have hoffset : MachineInt.read (30 : Int32) = 30 := rfl
    rw [Recorded.sound_bind]
    exact ⟨hsound, (Recorded.computes_add hread hoffset hlower hupper).1⟩

/-- `temperature_c` from its first product on: only the last divisor can be wrong,
everything else is small. -/
theorem sound_temperature_of_product (product : Int32) :
    (do
      let digits ← Recorded.div product voltReferenceMv
      let difference ← Recorded.sub digits calibData.tsCal1.toUInt32.toInt32
      let scaled ← Recorded.mul (110 - 30) difference
      let span ← Recorded.sub calibData.tsCal2.toUInt32.toInt32 calibData.tsCal1.toUInt32.toInt32
      let degrees ← Recorded.div scaled span
      Recorded.add degrees 30 : Recorded Int32).Sound ↔ calibData.tsCal1 ≠ calibData.tsCal2 := by
  have hcal1 : MachineInt.read calibData.tsCal1.toUInt32.toInt32 = calibData.tsCal1.toNat :=
    toInt_toInt32_toUInt32 _
  have hcal2 : MachineInt.read calibData.tsCal2.toUInt32.toInt32 = calibData.tsCal2.toNat :=
    toInt_toInt32_toUInt32 _
  have hlt1 := calibData.tsCal1.toNat_lt
  have hlt2 := calibData.tsCal2.toNat_lt
  have hreference : MachineInt.read voltReferenceMv = 3300 := rfl
  have hscale : MachineInt.read (110 - 30 : Int32) = 80 := rfl
  have hproduct : MachineInt.read product = product.toInt := rfl
  -- digits
  have hdigits := natAbs_digits_le product
  obtain ⟨hlower, hupper⟩ := int32_range (Nat.lt_of_le_of_lt hdigits (by decide))
  refine Recorded.sound_bind_iff
    (Recorded.computes_div hproduct hreference (by decide) hlower hupper) fun digits hread => ?_
  generalize product.toInt.tdiv 3300 = n at hdigits hread
  -- difference, scaled
  have hdifference : (n - calibData.tsCal1.toNat).natAbs < 2 ^ 31 := by omega
  obtain ⟨hlower, hupper⟩ := int32_range hdifference
  refine Recorded.sound_bind_iff
    (Recorded.computes_sub hread hcal1 hlower hupper) fun difference hread => ?_
  have hscaled : (80 * (n - calibData.tsCal1.toNat)).natAbs ≤ 2 ^ 26 := by omega
  obtain ⟨hlower, hupper⟩ := int32_range (Nat.lt_of_le_of_lt hscaled (by decide))
  refine Recorded.sound_bind_iff
    (Recorded.computes_mul hscale hread hlower hupper) fun scaled hdividend => ?_
  -- span
  have hspan : ((calibData.tsCal2.toNat : Int) - calibData.tsCal1.toNat).natAbs < 2 ^ 31 := by
    omega
  obtain ⟨hlower, hupper⟩ := int32_range hspan
  refine Recorded.sound_bind_iff
    (Recorded.computes_sub hcal2 hcal1 hlower hupper) fun span hdivisor => ?_
  rw [sound_degrees hdividend hdivisor hscaled, ne_eq, ne_eq, ← UInt16.toNat_inj]
  omega

/-- The temperature needs a product that fits and a calibration with two different
readings. -/
theorem sound_temperatureC :
    (temperatureC calibData plain refVoltage).Sound ↔
      refVoltage.toNat * (plain .temperature).toNat < 2 ^ 32 ∧
        calibData.tsCal1 ≠ calibData.tsCal2 := by
  rw [temperatureC, Recorded.sound_bind, sound_temperature_of_product, Recorded.sound_mul_uint32,
    UInt16.toNat_toUInt32, Nat.mul_comm]

end Operations

/-- The factors that the supply voltage is multiplied with are at most this. -/
def largestFactor (plain : Readings) : Nat :=
  max (max (plain .temperature).toNat (plain .currExt).toNat)
    (max (plain .supplySensse).toNat ((plain .coinCell).toNat * 2))

/-- A product with the largest factor fits exactly when all products do. -/
theorem mul_largestFactor_lt_iff (plain : Readings) (voltage limit : Nat) :
    voltage * largestFactor plain < limit ↔
      voltage * (plain .temperature).toNat < limit ∧ voltage * (plain .currExt).toNat < limit ∧
        voltage * (plain .supplySensse).toNat < limit ∧
        voltage * ((plain .coinCell).toNat * 2) < limit := by
  have hle : ∀ factor ≤ largestFactor plain, voltage * factor ≤ voltage * largestFactor plain :=
    fun factor h => Nat.mul_le_mul_left voltage h
  constructor
  · intro hlt
    have htemperature := hle (plain .temperature).toNat (by unfold largestFactor; omega)
    have hadc1 := hle (plain .currExt).toNat (by unfold largestFactor; omega)
    have hadc2 := hle (plain .supplySensse).toNat (by unfold largestFactor; omega)
    have hcoin := hle ((plain .coinCell).toNat * 2) (by unfold largestFactor; omega)
    exact ⟨by omega, by omega, by omega, by omega⟩
  · rintro ⟨htemperature, hadc1, hadc2, hcoin⟩
    have hone : largestFactor plain = (plain .temperature).toNat ∨
        largestFactor plain = (plain .currExt).toNat ∨
        largestFactor plain = (plain .supplySensse).toNat ∨
        largestFactor plain = (plain .coinCell).toNat * 2 := by
      unfold largestFactor
      omega
    rcases hone with h | h | h | h
    all_goals
      rw [h]
      assumption

/-- All of the computation is sound exactly when the factory data was accepted, the
reference was measured as something, and no product with the supply voltage wraps. -/
theorem sound_physicalUnits (factory : TsCalib) (plain : Readings) :
    (physicalUnits (adcCalibData factory) plain).Sound ↔
      testFactoryCalibData factory = true ∧ (plain .ref).toNat ≠ 0 ∧
        3300 * (adcCalibData factory).vref.toNat / (plain .ref).toNat * largestFactor plain <
          2 ^ 32 := by
  rw [physicalUnits, mul_largestFactor_lt_iff, ← adcCalibData_differ_iff]
  simp only [Recorded.sound_bind, Recorded.sound_pure, sound_refVoltageMv, sound_temperatureC,
    sound_adcMv, sound_coinCellMv, toNat_refVoltageMv, and_true]
  constructor
  · rintro ⟨href, ⟨htemperature, hdiffer⟩, hadc1, hadc2, hcoin⟩
    exact ⟨hdiffer, href, htemperature, hadc1, hadc2, hcoin⟩
  · rintro ⟨hdiffer, href, htemperature, hadc1, hadc2, hcoin⟩
    exact ⟨href, ⟨htemperature, hdiffer⟩, hadc1, hadc2, hcoin⟩

/-- What a cycle should come to: nothing is divided by zero, nothing wraps, and the
voltages are those of the exact formula. -/
def UnitsExact (factory : TsCalib) (plain : Readings) : Prop :=
  let supply := 3300 * (adcCalibData factory).vref.toNat / (plain .ref).toNat
  let units := physicalUnits (adcCalibData factory) plain
  units.Sound ∧ units.value.refVoltageMv.toNat = supply ∧
    units.value.adc1Mv.toNat = (plain .currExt).toNat * supply / 4095 ∧
    units.value.adc2Mv.toNat = (plain .supplySensse).toNat * supply / 4095 ∧
    units.value.coinCellMv.toNat = (plain .coinCell).toNat * supply * 2 / 4095

theorem unitsExact_iff_sound (factory : TsCalib) (plain : Readings) :
    UnitsExact factory plain ↔ (physicalUnits (adcCalibData factory) plain).Sound := by
  constructor
  · exact fun h => h.1
  · intro hsound
    obtain ⟨-, -, hproducts⟩ := (sound_physicalUnits factory plain).mp hsound
    obtain ⟨-, hadc1, hadc2, hcoin⟩ := (mul_largestFactor_lt_iff _ _ _).mp hproducts
    rw [← toNat_refVoltageMv] at hadc1 hadc2 hcoin
    unfold UnitsExact
    rw [← toNat_refVoltageMv]
    exact ⟨hsound, rfl, toNat_adcMv _ _ hadc1, toNat_adcMv _ _ hadc2, toNat_coinCellMv _ _ hcoin⟩

/-- The units are exact exactly when the factory data is accepted, the reading of
the reference is not zero, and it is not so small, compared with the largest of the
other readings, that a product wraps. -/
theorem unitsExact_iff (factory : TsCalib) (plain : Readings) :
    UnitsExact factory plain ↔
      testFactoryCalibData factory = true ∧ (plain .ref).toNat ≠ 0 ∧
        (largestFactor plain = 0 ∨
          3300 * factory.vref.toNat <
            (2 ^ 32 + largestFactor plain - 1) / largestFactor plain * (plain .ref).toNat) := by
  rw [unitsExact_iff_sound, sound_physicalUnits]
  refine and_congr_right fun haccept => and_congr_right fun href => ?_
  have hdata : adcCalibData factory = factory := if_pos haccept
  rw [hdata]
  exact div_mul_lt_iff (Nat.pos_of_ne_zero href) (by decide)

/-- Readings with one of the reference and one of all others. -/
def readingsWith (ref other : UInt16) : Readings := fun index =>
  if index = .ref then ref else other

/-- With accepted factory data a reference of 0 is divided by and one of 5 makes the
doubled product wrap; with factory data that is not accepted the span is zero. -/
theorem not_unitsExact :
    ¬ UnitsExact ⟨1500, 943, 1200⟩ (readingsWith 0 1000) ∧
      ¬ UnitsExact ⟨1500, 943, 1200⟩ (readingsWith 5 4095) ∧
      ¬ UnitsExact ⟨0xFFFF, 0xFFFF, 0xFFFF⟩ (readingsWith 1500 1000) :=
  ⟨fun h => absurd h.1 (by decide), fun h => absurd h.1 (by decide),
    fun h => absurd h.1 (by decide)⟩

end WindradLogger.McuAdc
