import WindradLogger.Lib.Bits
import WindradLogger.Lib.Crc
import WindradLogger.Lib.Cyclic
import WindradLogger.Lib.Effects
import WindradLogger.Lib.Fifo
import WindradLogger.Lib.History
import WindradLogger.Lib.Hysteresis
import WindradLogger.Lib.Mean
import WindradLogger.Lib.Recorded
import WindradLogger.Lib.Run
import WindradLogger.Lib.SeenTable
import WindradLogger.Lib.SlotLog
import WindradLogger.Lib.Smoothing
import WindradLogger.Lib.Store
import WindradLogger.Lib.Streak
import WindradLogger.Lib.Transducer
import WindradLogger.Lib.Waveform
import WindradLogger.Lib.While
import WindradLogger.Lib.Width
import WindradLogger.Flash.Hal
import WindradLogger.Eeprom.Emulation
import WindradLogger.Eeprom.Slots
import WindradLogger.Eeprom.Append
import WindradLogger.Eeprom.Evolution
import WindradLogger.Eeprom.Init
import WindradLogger.Eeprom.Interrupted
import WindradLogger.Eeprom.Transfer
import WindradLogger.Eeprom.Recovery
import WindradLogger.Eeprom.InOrder
import WindradLogger.Eeprom.KeyValue
import WindradLogger.Eeprom.Safety
import WindradLogger.Eeprom.NormalForm
import WindradLogger.Eeprom.PowerLoss
import WindradLogger.Eeprom.Extent
import WindradLogger.Eeprom.Compaction
import WindradLogger.Eeprom.EraseCheck
import WindradLogger.Eeprom.Life
import WindradLogger.Eeprom.Frozen
import WindradLogger.Storage.Image
import WindradLogger.Storage.Buffer
import WindradLogger.Storage.Calibration
import WindradLogger.Storage.Reboot
import WindradLogger.Storage.Crc
import WindradLogger.Storage.Corruption
import WindradLogger.Storage.Overlaps
import WindradLogger.Storage.Arithmetic
import WindradLogger.Storage.Fallback
import WindradLogger.Storage.RangeTable
import WindradLogger.Storage.Boots
import WindradLogger.Adc.Record
import WindradLogger.Adc.SampleData
import WindradLogger.Adc.HalfBuffer
import WindradLogger.Adc.Task
import WindradLogger.Adc.Window
import WindradLogger.Adc.Peaks
import WindradLogger.Adc.Acquisition
import WindradLogger.Adc.RawWords
import WindradLogger.Adc.Crossings
import WindradLogger.Adc.Loop
import WindradLogger.Adc.Divisors
import WindradLogger.Adc.Frequency
import WindradLogger.Adc.WindowTiming
import WindradLogger.Adc.CalibratedSamples
import WindradLogger.Adc.OverflowGuard
import WindradLogger.Adc.Published
import WindradLogger.Adc.Commands
import WindradLogger.McuAdc.Units
import WindradLogger.McuAdc.Smoothing
import WindradLogger.McuAdc.Sequencing
import WindradLogger.McuAdc.Values
import WindradLogger.Timebase.Subticks
import WindradLogger.Board.Pins
import WindradLogger.Display.Hd44780
import WindradLogger.Display.Terminal
import WindradLogger.Display.Texts
import WindradLogger.Display.Screens
import WindradLogger.Display.Navigation
import WindradLogger.Display.Painting
import WindradLogger.Display.RemoteText
import WindradLogger.Display.Switching
import WindradLogger.Display.Bus
import WindradLogger.Led.Pattern
import WindradLogger.Led.Table
import WindradLogger.Led.Blink
import WindradLogger.Led.Morse
import WindradLogger.Led.Fade
import WindradLogger.Led.Bounds
import WindradLogger.Led.Rounds
import WindradLogger.Serial.Transmit
import WindradLogger.Serial.Push
import WindradLogger.Serial.Port
import WindradLogger.Rpc.KeyMemory
import WindradLogger.Rpc.Tables
import WindradLogger.Rpc.PowerSensor
import WindradLogger.Keys.Debounce
import WindradLogger.Keys.Registry
import WindradLogger.Keys.Remote
import WindradLogger.Supervisor.SupplyVoltage
