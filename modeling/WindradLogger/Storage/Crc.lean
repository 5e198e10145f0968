import WindradLogger.Lib.Crc
import WindradLogger.Storage.Image

set_option autoImplicit false

/-!
# The CRC of the image (`storage_calibration.c`)

`calc_crc` works byte by byte with shifts instead of a table.  One of its rounds
is eight steps of the shift register of `x^16 + x^12 + x^5 + 1`, so what holds of
CRCs in general holds of it: a damaged half-word of the checked part is always
noticed.
-/

namespace WindradLogger.Storage

open WindradLogger.Flash WindradLogger.Lib

/-- `x^16 + x^12 + x^5 + 1`, without the leading term -/
def crcPolynomial : HalfWord := 0x1021#16

theorem crcPolynomial_constantTerm : crcPolynomial.getLsbD 0 = true := by decide

/-! ## A round is eight steps -/

/-- A round sees the upper half of the register and the byte only in their sum. -/
theorem crcStep_eq (crc : HalfWord) (byte : BitVec 8) :
    crcStep crc byte = crcStep 0#16 ((crc >>> 8).setWidth 8 ^^^ byte) ^^^ crc <<< 8 := by
  have hsum : ((crc >>> 8 ^^^ byte.setWidth 16).setWidth 8 : BitVec 8) =
      (crc >>> 8).setWidth 8 ^^^ byte := by
    rw [BitVec.setWidth_xor, BitVec.setWidth_setWidth_of_le _ (by decide), BitVec.setWidth_eq]
  have hzero : (((0#16 : HalfWord) >>> 8 ^^^
      ((crc >>> 8).setWidth 8 ^^^ byte).setWidth 16).setWidth 8 : BitVec 8) =
        (crc >>> 8).setWidth 8 ^^^ byte := by
    rw [BitVec.zero_ushiftRight, BitVec.zero_xor, BitVec.setWidth_setWidth_of_le _ (by decide),
      BitVec.setWidth_eq]
  have hlast : ∀ a b c d : HalfWord, a ^^^ b ^^^ c ^^^ d = b ^^^ c ^^^ d ^^^ a := by
    intro a b c d
    rw [BitVec.xor_assoc a, BitVec.xor_assoc a, BitVec.xor_comm a]
  unfold crcStep
  rw [hsum, hzero]
  simp only [BitVec.zero_shiftLeft, BitVec.zero_xor]
  exact hlast _ _ _ _

/-- A round that starts with an empty register. -/
theorem crcStep_zero (byte : BitVec 8) :
    crcStep 0#16 byte = Crc.shiftAll crcPolynomial 0#16 (Crc.msbFirst byte) := by
  revert byte
  decide +kernel

/-- One round of `calc_crc` is eight bits through the register. -/
theorem crcStep_eq_shiftAll (crc : HalfWord) (byte : BitVec 8) :
    crcStep crc byte = Crc.shiftAll crcPolynomial crc (Crc.msbFirst byte) := by
  rw [crcStep_eq, crcStep_zero, Crc.shiftAll_msbFirst byte ((crc >>> 8).setWidth 8)]
  intro i hi
  rw [BitVec.getMsbD_setWidth, BitVec.getMsbD_ushiftRight]
  have hle : i + 8 < 16 := by omega
  simp [hle]

/-- `calc_crc` is the register after the bytes, bit by bit. -/
theorem foldl_crcStep (bytes : List (BitVec 8)) (crc : HalfWord) :
    bytes.foldl crcStep crc = Crc.shiftAll crcPolynomial crc (Crc.bitsOf bytes) := by
  induction bytes generalizing crc with
  | nil => rfl
  | cons byte rest ih =>
      rw [List.foldl_cons, ih, crcStep_eq_shiftAll, ← Crc.shiftAll_append]
      rfl

/-- `calc_crc` of a string of bytes is the register of the CRC with the polynomial
`x^16 + x^12 + x^5 + 1` that starts with `0x1021` and takes in the bits of the
bytes, the most significant first. -/
theorem calcCrc_eq_shiftAll (data : List (BitVec 8)) :
    calcCrc data data.length = Crc.shiftAll crcPolynomial 0x1021#16 (Crc.bitsOf data) := by
  rw [calcCrc, List.take_length]
  exact foldl_crcStep data 0x1021#16

/-! ## Bursts -/

/-- Two different strings of bytes of one length that agree outside a window of at
most 16 bits have different CRCs. -/
theorem calcCrc_ne_of_window {data data' : List (BitVec 8)} (hlen : data.length = data'.length)
    (hne : data ≠ data') {start width : Nat} (hwidth : width ≤ 16)
    (hagree : ∀ i, i < start ∨ start + width ≤ i →
      (Crc.bitsOf data)[i]? = (Crc.bitsOf data')[i]?) :
    calcCrc data data.length ≠ calcCrc data' data'.length := by
  rw [calcCrc, calcCrc, List.take_length, List.take_length, foldl_crcStep, foldl_crcStep]
  have hbits : (Crc.bitsOf data).length = (Crc.bitsOf data').length := by
    rw [Crc.bitsOf_length, Crc.bitsOf_length, hlen]
  refine Crc.shiftAll_ne_of_window crcPolynomial_constantTerm _ hbits hwidth hagree ?_
  intro hsame
  exact hne (Crc.bitsOf_injective hlen hsame)

/-- A burst of ten bits that reaches into three bytes. -/
theorem calcCrc_ne_of_window_threeBytes :
    calcCrc [0#8, 0#8, 0#8] 3 ≠ calcCrc [1#8, 0xFF#8, 0x80#8] 3 := by
  have hinside : ∀ i < 24, i < 7 ∨ 7 + 10 ≤ i →
      (Crc.bitsOf [0#8, 0#8, 0#8])[i]? = (Crc.bitsOf [1#8, 0xFF#8, 0x80#8])[i]? := by decide
  have hagree : ∀ i, i < 7 ∨ 7 + 10 ≤ i →
      (Crc.bitsOf [0#8, 0#8, 0#8])[i]? = (Crc.bitsOf [1#8, 0xFF#8, 0x80#8])[i]? := by
    intro i hi
    rcases Nat.lt_or_ge i 24 with hlt | hge
    · exact hinside i hlt hi
    · rw [List.getElem?_eq_none hge, List.getElem?_eq_none hge]
  exact calcCrc_ne_of_window rfl (by decide) (by decide) hagree

/-! ## Damaged half-words -/

theorem bytesOf_append (data data' : List HalfWord) :
    bytesOf (data ++ data') = bytesOf data ++ bytesOf data' :=
  List.flatMap_append

@[simp] theorem bytesOf_length (data : List HalfWord) :
    (bytesOf data).length = 2 * data.length := by
  induction data with
  | nil => rfl
  | cons value rest ih =>
      rw [bytesOf, List.flatMap_cons, List.length_append, List.length_cons]
      rw [bytesOf] at ih
      rw [ih]
      simp only [List.length_cons, List.length_nil]
      omega

/-- The two bytes of a half-word determine it. -/
theorem halfWord_eq_of_bytes {x y : HalfWord} (h : bytesOf [x] = bytesOf [y]) : x = y := by
  simp only [bytesOf, List.flatMap_cons, List.flatMap_nil, List.append_nil, List.cons.injEq,
    and_true] at h
  obtain ⟨hlow, hhigh⟩ := h
  refine BitVec.eq_of_getLsbD_eq fun i hi => ?_
  rcases Nat.lt_or_ge i 8 with hi8 | hi8
  · have hbit := congrArg (fun b => BitVec.getLsbD b i) hlow
    simpa [hi8] using hbit
  · have hbit := congrArg (fun b => BitVec.getLsbD b (i - 8)) hhigh
    have hlt : i - 8 < 8 := by omega
    have hsum : 8 + (i - 8) = i := by omega
    simpa [hlt, hsum] using hbit

/-- One other half-word gives another CRC, wherever it stands. -/
theorem foldl_crcStep_ne (crc : HalfWord) (before after : List HalfWord) {x y : HalfWord}
    (hne : x ≠ y) :
    (bytesOf (before ++ ([x] ++ after))).foldl crcStep crc ≠
      (bytesOf (before ++ ([y] ++ after))).foldl crcStep crc := by
  simp only [foldl_crcStep, bytesOf_append, Crc.bitsOf_append]
  refine Crc.shiftAll_ne_of_burst crcPolynomial_constantTerm crc _ _ _ _ ?_ ?_ ?_
  · rw [Crc.bitsOf_length, Crc.bitsOf_length]
    rfl
  · rw [Crc.bitsOf_length]
    exact Nat.le_refl 16
  · intro hbits
    exact hne (halfWord_eq_of_bytes (Crc.bitsOf_injective rfl hbits))

end WindradLogger.Storage
