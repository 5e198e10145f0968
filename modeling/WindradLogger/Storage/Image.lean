import WindradLogger.Flash.Hal
import Mathlib.Data.List.Basic

set_option autoImplicit false

/-!
# The calibration and its image in memory (`storage_calibration.c`, `qt2mcu.h`)

`calibration_storage_t` is copied to and from a buffer of half-words with
`memcpy`.  On the little-endian target an `int32_t` is two half-words, the lower
first; the structure is its 26 coefficient records, the CRC, and two bytes that
the compiler adds to align it.  The CRC is taken over the bytes of the structure
with the CRC field itself set to zero.
-/

namespace WindradLogger.Storage

open WindradLogger.Flash

/-! ## The data -/

/-- `calibration_coefficients_t` -/
structure CalibrationCoefficients where
  c0Over65536 : BitVec 32
  c1Over65536 : BitVec 32
  c2Over65536 : BitVec 32
  deriving DecidableEq, Inhabited

/-- `ADC_EXTERNAL_VALUE_COUNT` -/
def adcExternalValueCount : Nat := 11
/-- `ext_adc_value_COUNT` -/
def extAdcValueCount : Nat := 11
/-- `ADC_MCU_VALUE_COUNT` -/
def adcMcuValueCount : Nat := 4

/-- `calibration_t` -/
structure Calibration where
  channelPos : Vector CalibrationCoefficients adcExternalValueCount
  channelNeg : Vector CalibrationCoefficients adcExternalValueCount
  cpuChannels : Vector CalibrationCoefficients adcMcuValueCount
  deriving DecidableEq

/-- `calibration_storage_t`, padding included -/
structure CalibrationStorage where
  calibrationData : Calibration
  crc16 : HalfWord
  padding : HalfWord
  deriving DecidableEq

/-- `STORAGE_EEPROM_CALIBRATION_LENGTH_IN_HALF_WORD` -/
def calibrationLengthInHalfWord : Nat := 0xA0

/-- `sizeof(calibration_storage_t)` -/
def sizeofCalibrationStorage : Nat := 316

/-- `sizeof(calibration_coefficients_t)` -/
def sizeofCalibrationCoefficients : Nat := 12

/-! ## Images -/

/-- The half-words of a coefficient record. -/
def CalibrationCoefficients.halfWords (k : CalibrationCoefficients) : List HalfWord :=
  [k.c0Over65536.setWidth 16, (k.c0Over65536 >>> 16).setWidth 16,
   k.c1Over65536.setWidth 16, (k.c1Over65536 >>> 16).setWidth 16,
   k.c2Over65536.setWidth 16, (k.c2Over65536 >>> 16).setWidth 16]

/-- The coefficient records in memory order. -/
def Calibration.coefficients (c : Calibration) : List CalibrationCoefficients :=
  c.channelPos.toList ++ (c.channelNeg.toList ++ c.cpuChannels.toList)

def Calibration.halfWords (c : Calibration) : List HalfWord :=
  c.coefficients.flatMap CalibrationCoefficients.halfWords

def CalibrationStorage.halfWords (s : CalibrationStorage) : List HalfWord :=
  s.calibrationData.halfWords ++ [s.crc16, s.padding]

/-- `buffer` after `memcpy(buffer, &calibration_storage, sizeof(calibration_storage_t))`:
what the structure does not cover stays zero. -/
def CalibrationStorage.buffer (s : CalibrationStorage) : List HalfWord :=
  s.halfWords ++
    List.replicate (calibrationLengthInHalfWord - sizeofCalibrationStorage / 2) 0#16

/-- The coefficient records at the start of a buffer. -/
def coefficientsOf : List HalfWord → List CalibrationCoefficients
  | a :: b :: c :: d :: e :: g :: rest =>
      { c0Over65536 := b ++ a, c1Over65536 := d ++ c, c2Over65536 := g ++ e } ::
        coefficientsOf rest
  | _ => []

def Calibration.ofHalfWords (buffer : List HalfWord) : Calibration :=
  let records := coefficientsOf buffer
  { channelPos := Vector.ofFn fun i => records.getD i default
    channelNeg := Vector.ofFn fun i => records.getD (adcExternalValueCount + i) default
    cpuChannels := Vector.ofFn fun i =>
      records.getD (adcExternalValueCount + adcExternalValueCount + i) default }

/-- `memcpy(&calibration_storage, buffer, sizeof(calibration_storage_t))` -/
def CalibrationStorage.ofHalfWords (buffer : List HalfWord) : CalibrationStorage :=
  { calibrationData := Calibration.ofHalfWords buffer
    crc16 := buffer.getD 156 0#16
    padding := buffer.getD 157 0#16 }

/-! ## The CRC -/

/-- One round of the loop of `calc_crc`. -/
def crcStep (crc : HalfWord) (byte : BitVec 8) : HalfWord :=
  let x : BitVec 8 := (crc >>> 8 ^^^ byte.setWidth 16).setWidth 8
  let x := x ^^^ x >>> 4
  (crc <<< 8) ^^^ (x.setWidth 16 <<< 12) ^^^ (x.setWidth 16 <<< 5) ^^^ x.setWidth 16

/-- `calc_crc` -/
def calcCrc (data : List (BitVec 8)) (length : Nat) : HalfWord :=
  (data.take length).foldl crcStep 0x1021#16

/-- `(uint8_t *)buffer` -/
def bytesOf (buffer : List HalfWord) : List (BitVec 8) :=
  buffer.flatMap fun (h : HalfWord) => [h.setWidth 8, (h >>> 8).setWidth 8]

/-- The CRC both `calib_set_crc` and `calib_check_crc` compute, with `crc16` zero. -/
def CalibrationStorage.calcedCrc (s : CalibrationStorage) : HalfWord :=
  calcCrc (bytesOf { s with crc16 := 0#16 }.buffer) sizeofCalibrationStorage

/-- `calib_set_crc` -/
def CalibrationStorage.setCrc (s : CalibrationStorage) : CalibrationStorage :=
  { s with crc16 := s.calcedCrc }

/-- `calib_check_crc` -/
def CalibrationStorage.checkCrc (s : CalibrationStorage) : Bool := s.calcedCrc = s.crc16

/-- What `calib_set_crc` sets, `calib_check_crc` accepts. -/
theorem checkCrc_setCrc (s : CalibrationStorage) : s.setCrc.checkCrc = true := by
  unfold CalibrationStorage.checkCrc CalibrationStorage.setCrc CalibrationStorage.calcedCrc
  simp

/-! ## Round trip -/

/-- Two halves make the word they were taken from. -/
theorem append_halves (x : BitVec 32) :
    (x >>> 16).setWidth 16 ++ (x.setWidth 16 : BitVec 16) = x := by
  ext i hi
  rw [BitVec.getElem_append]
  split
  · rename_i hlow
    rw [BitVec.getElem_setWidth, BitVec.getLsbD_eq_getElem hi]
  · rename_i hhigh
    have hsum : 16 + (i - 16) = i := by omega
    rw [BitVec.getElem_setWidth, BitVec.getLsbD_ushiftRight, hsum, BitVec.getLsbD_eq_getElem hi]

theorem coefficientsOf_halfWords_append (records : List CalibrationCoefficients)
    (rest : List HalfWord) :
    coefficientsOf (records.flatMap CalibrationCoefficients.halfWords ++ rest) =
      records ++ coefficientsOf rest := by
  induction records with
  | nil => rfl
  | cons k records ih =>
      rw [List.flatMap_cons, List.append_assoc, CalibrationCoefficients.halfWords]
      simp only [List.cons_append, List.nil_append, coefficientsOf, append_halves, ih]

theorem halfWords_length (records : List CalibrationCoefficients) :
    (records.flatMap CalibrationCoefficients.halfWords).length = 6 * records.length := by
  induction records with
  | nil => rfl
  | cons k records ih =>
      rw [List.flatMap_cons, List.length_append, ih, List.length_cons]
      simp only [CalibrationCoefficients.halfWords, List.length_cons, List.length_nil]
      omega

@[simp] theorem Calibration.halfWords_length (c : Calibration) : c.halfWords.length = 156 := by
  rw [Calibration.halfWords, Storage.halfWords_length, Calibration.coefficients,
    List.length_append, List.length_append, Vector.length_toList, Vector.length_toList,
    Vector.length_toList]
  rfl

@[simp] theorem CalibrationStorage.buffer_length (s : CalibrationStorage) :
    s.buffer.length = calibrationLengthInHalfWord := by
  simp [CalibrationStorage.buffer, CalibrationStorage.halfWords, calibrationLengthInHalfWord,
    sizeofCalibrationStorage]

/-- An array is read back from the place in a list where it stands. -/
theorem ofFn_getD_append {n : Nat} (before : List CalibrationCoefficients)
    (v : Vector CalibrationCoefficients n) (after : List CalibrationCoefficients) :
    Vector.ofFn (fun i : Fin n => (before ++ (v.toList ++ after)).getD (before.length + i) default) =
      v := by
  ext i hi : 1
  have hlen : i < v.toList.length := by rwa [Vector.length_toList]
  rw [Vector.getElem_ofFn, List.getD_eq_getElem?_getD,
    List.getElem?_append_right (Nat.le_add_right _ _), Nat.add_sub_cancel_left,
    List.getElem?_append_left hlen, List.getElem?_eq_getElem hlen, Option.getD_some,
    Vector.getElem_toList]

/-- The calibration is read back from the start of any buffer it was copied to. -/
theorem Calibration.ofHalfWords_append (c : Calibration) (rest : List HalfWord) :
    Calibration.ofHalfWords (c.halfWords ++ rest) = c := by
  have hrecords : coefficientsOf (c.halfWords ++ rest) = c.coefficients ++ coefficientsOf rest :=
    coefficientsOf_halfWords_append c.coefficients rest
  obtain ⟨pos, neg, cpu⟩ := c
  have hpos := ofFn_getD_append [] pos (neg.toList ++ (cpu.toList ++ coefficientsOf rest))
  have hneg := ofFn_getD_append pos.toList neg (cpu.toList ++ coefficientsOf rest)
  have hcpu := ofFn_getD_append (pos.toList ++ neg.toList) cpu (coefficientsOf rest)
  rw [List.length_append, Vector.length_toList, Vector.length_toList] at hcpu
  simp only [List.nil_append, List.length_nil, Nat.zero_add, Vector.length_toList,
    List.append_assoc] at hpos hneg hcpu
  simp only [Calibration.ofHalfWords, hrecords, Calibration.coefficients, List.append_assoc, hpos,
    hneg, hcpu]

/-- `memcpy` back restores the structure, padding included, whatever follows it in
the buffer. -/
theorem CalibrationStorage.ofHalfWords_halfWords (s : CalibrationStorage) (rest : List HalfWord) :
    CalibrationStorage.ofHalfWords (s.halfWords ++ rest) = s := by
  obtain ⟨data, crc16, padding⟩ := s
  simp only [CalibrationStorage.ofHalfWords, CalibrationStorage.halfWords, List.append_assoc]
  rw [Calibration.ofHalfWords_append]
  simp [List.getD_eq_getElem?_getD, List.getElem?_append_right]

theorem CalibrationStorage.ofHalfWords_buffer (s : CalibrationStorage) :
    CalibrationStorage.ofHalfWords s.buffer = s :=
  s.ofHalfWords_halfWords _

/-! ## The image of what was loaded -/

/-- Two half-words are the halves of the word they make. -/
theorem halves_append (high low : HalfWord) :
    (high ++ low).setWidth 16 = low ∧ ((high ++ low) >>> 16).setWidth 16 = high := by
  refine ⟨?_, ?_⟩
  · refine BitVec.eq_of_getLsbD_eq fun i hi => ?_
    rw [BitVec.getLsbD_setWidth, BitVec.getLsbD_append, if_pos hi, decide_eq_true hi,
      Bool.true_and]
  · refine BitVec.eq_of_getLsbD_eq fun i hi => ?_
    have hhigh : ¬ 16 + i < 16 := by omega
    rw [BitVec.getLsbD_setWidth, BitVec.getLsbD_ushiftRight, BitVec.getLsbD_append, if_neg hhigh,
      decide_eq_true hi, Bool.true_and, Nat.add_sub_cancel_left]

theorem halfWords_coefficientsOf : ∀ (count : Nat) (buffer : List HalfWord),
    6 * count ≤ buffer.length →
    ∃ records rest, coefficientsOf buffer = records ++ rest ∧ records.length = count ∧
      records.flatMap CalibrationCoefficients.halfWords = buffer.take (6 * count) := by
  intro count
  induction count with
  | zero =>
      intro buffer _
      exact ⟨[], coefficientsOf buffer, rfl, rfl, rfl⟩
  | succ count ih =>
      intro buffer hlen
      match buffer, hlen with
      | a :: b :: c :: d :: e :: g :: tail, hlen =>
          simp only [List.length_cons] at hlen
          obtain ⟨records, rest, hsplit, hcount, hwords⟩ := ih tail (by omega)
          have htake : 6 * (count + 1) = 6 * count + 6 := Nat.mul_succ 6 count
          refine ⟨{ c0Over65536 := b ++ a, c1Over65536 := d ++ c, c2Over65536 := g ++ e } ::
            records, rest, ?_, ?_, ?_⟩
          · rw [coefficientsOf, hsplit, List.cons_append]
          · rw [List.length_cons, hcount]
          · rw [List.flatMap_cons, hwords, htake]
            simp [CalibrationCoefficients.halfWords, halves_append]

/-- An array read from a list is the part of the list where it stands. -/
theorem toList_ofFn_getD (n k : Nat) {records : List CalibrationCoefficients}
    (h : k + n ≤ records.length) :
    (Vector.ofFn fun i : Fin n => records.getD (k + i) default).toList =
      (records.drop k).take n := by
  refine List.ext_getElem ?_ fun i hi hi' => ?_
  · rw [Vector.length_toList, List.length_take, List.length_drop]
    omega
  · rw [Vector.length_toList] at hi
    have hlt : k + i < records.length := by omega
    rw [Vector.getElem_toList, Vector.getElem_ofFn, List.getElem_take, List.getElem_drop,
      List.getD_eq_getElem?_getD, List.getElem?_eq_getElem hlt, Option.getD_some]

theorem three_parts (l : List CalibrationCoefficients) :
    l.take 11 ++ ((l.drop 11).take 11 ++ (l.drop 22).take 4) = l.take 26 := by
  have htwo : (l.drop 11).take 15 = (l.drop 11).take 11 ++ (l.drop 22).take 4 := by
    rw [show (15 : Nat) = 11 + 4 from rfl, List.take_add, List.drop_drop]
  rw [← htwo, show (26 : Nat) = 11 + 15 from rfl, List.take_add]

/-- What `memcpy` puts into the calibration is the start of the buffer. -/
theorem Calibration.halfWords_ofHalfWords {buffer : List HalfWord} (h : 156 ≤ buffer.length) :
    (Calibration.ofHalfWords buffer).halfWords = buffer.take 156 := by
  obtain ⟨records, rest, hsplit, hcount, hwords⟩ := halfWords_coefficientsOf 26 buffer h
  have hall : (Calibration.ofHalfWords buffer).coefficients = records := by
    have hlen : 26 ≤ (records ++ rest).length := by
      rw [List.length_append]
      omega
    have hpos := toList_ofFn_getD 11 0 (by omega : 0 + 11 ≤ (records ++ rest).length)
    have hneg := toList_ofFn_getD 11 11 (by omega : 11 + 11 ≤ (records ++ rest).length)
    have hcpu := toList_ofFn_getD 4 22 (by omega : 22 + 4 ≤ (records ++ rest).length)
    simp only [Nat.zero_add, List.drop_zero] at hpos
    simp only [Calibration.coefficients, Calibration.ofHalfWords, hsplit,
      adcExternalValueCount, adcMcuValueCount]
    rw [hpos, hneg, hcpu, three_parts, ← hcount, List.take_left]
  rw [Calibration.halfWords, hall, hwords]

end WindradLogger.Storage
