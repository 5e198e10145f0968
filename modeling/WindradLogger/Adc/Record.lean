import Mathlib.Logic.Function.Basic

set_option autoImplicit false

/-!
# Records of the external ADC

A record holds one calibrated value for every channel of the external ADC, all
taken in the same acquisition cycle.
-/

namespace WindradLogger.Adc

/-- `ext_adc_value_channel_t` -/
inductive ExtAdcValue where
  | currL1 | currL2 | currL3
  | vref
  | voltL21 | voltL32 | voltL13
  | auxVolt
  | tempL1 | tempL2 | tempL3
  deriving DecidableEq, Repr, Inhabited

/-- `current_index_t` -/
inductive CurrentIndex where
  | l1 | l2 | l3
  deriving DecidableEq, Repr, Inhabited

/-- `voltage_index_t` -/
inductive VoltageIndex where
  | l21 | l32 | l13 | aux
  deriving DecidableEq, Repr, Inhabited

/-- The index of `temperatures_avging`. -/
inductive TemperatureIndex where
  | l1 | l2 | l3
  deriving DecidableEq, Repr, Inhabited

/-- The channel that holds the current with this index. -/
def CurrentIndex.channel : CurrentIndex → ExtAdcValue
  | .l1 => .currL1
  | .l2 => .currL2
  | .l3 => .currL3

/-- The channel that holds the voltage with this index. -/
def VoltageIndex.channel : VoltageIndex → ExtAdcValue
  | .l21 => .voltL21
  | .l32 => .voltL32
  | .l13 => .voltL13
  | .aux => .auxVolt

/-- The channel that holds the temperature with this index. -/
def TemperatureIndex.channel : TemperatureIndex → ExtAdcValue
  | .l1 => .tempL1
  | .l2 => .tempL2
  | .l3 => .tempL3

/-- The calibrated values of one acquisition cycle,
`adc_channels[..][write_index].value`. -/
abbrev Record : Type := ExtAdcValue → Int16

/-- `ADC_RECORDS_TO_BUFFER` -/
def adcRecordsToBuffer : Nat := 32

end WindradLogger.Adc
