import WebRtc.Lib.BitStream
import Mathlib

/-! The delta coding of event logs (`delta_encoding.cc`, `var_int.cc`). The encoder chooses the
widths and the sign from the deltas it sees; the decoder has just the header to go by. -/

namespace WebRtc.EventLog

open BitStream List

abbrev Value := BitVec 64

/-- The loop of `UnsignedBitWidth`, for an input of at most `n` bits. -/
def unsignedBitWidthLoop : Nat → Nat → Nat
  | 0, _ => 0
  | n + 1, input => 1 + if input >>> 1 ≠ 0 then unsignedBitWidthLoop n (input >>> 1) else 0

def unsignedBitWidth (input : Nat) (zeroValAsZeroWidth : Bool) : Nat :=
  if zeroValAsZeroWidth && input = 0 then 0 else unsignedBitWidthLoop 64 input

def signedBitWidth (maxPosMagnitude maxNegMagnitude : Nat) : Nat :=
  let bitwidthPos := unsignedBitWidth maxPosMagnitude true
  let bitwidthNeg :=
    if maxNegMagnitude > 0 then unsignedBitWidth (maxNegMagnitude - 1) true else 0
  1 + max bitwidthPos bitwidthNeg

def maxUnsignedValueOfBitWidth (bitWidth : Nat) : Value :=
  if bitWidth = 64 then BitVec.allOnes 64 else 1#64 <<< bitWidth - 1#64

def unsignedDelta (previous current bitMask : Value) : Value := (current - previous) &&& bitMask

structure FixedLengthEncodingParameters where
  deltaWidthBits : Nat
  signedDeltas : Bool
  valuesOptional : Bool
  valueWidthBits : Nat
  one_le_delta : 1 ≤ deltaWidthBits
  delta_le_value : deltaWidthBits ≤ valueWidthBits
  value_le : valueWidthBits ≤ 64

namespace FixedLengthEncodingParameters

variable (params : FixedLengthEncodingParameters)

def deltaMask : Value := maxUnsignedValueOfBitWidth params.deltaWidthBits

def valueMask : Value := maxUnsignedValueOfBitWidth params.valueWidthBits

def create (deltaWidthBits : Nat) (signedDeltas valuesOptional : Bool) (valueWidthBits : Nat) :
    Option FixedLengthEncodingParameters :=
  if h : 1 ≤ deltaWidthBits ∧ deltaWidthBits ≤ valueWidthBits ∧ valueWidthBits ≤ 64 then
    some ⟨deltaWidthBits, signedDeltas, valuesOptional, valueWidthBits, h.1, h.2.1, h.2.2⟩
  else none

def isDefault : Bool :=
  params.signedDeltas = false ∧ params.valuesOptional = false ∧ params.valueWidthBits = 64

end FixedLengthEncodingParameters

open FixedLengthEncodingParameters

section Encoder

/-- What the first pass of `EncodeDeltas` finds out. -/
structure Summary where
  nonDecreasing : Bool
  maxValueIncludingBase : Nat
  existentValuesCount : Nat

def summarize (previous : Value) (acc : Summary) : List (Option Value) → Summary
  | [] => acc
  | none :: rest => summarize previous acc rest
  | some value :: rest =>
    summarize value
      { nonDecreasing := acc.nonDecreasing && previous.toNat ≤ value.toNat
        maxValueIncludingBase := max acc.maxValueIncludingBase value.toNat
        existentValuesCount := acc.existentValuesCount + 1 } rest

structure DeltaBounds where
  maxUnsignedDelta : Nat
  maxPosSignedDelta : Nat
  minNegSignedDelta : Nat

def DeltaBounds.add (acc : DeltaBounds) (bitMask previous current : Value) : DeltaBounds :=
  let forwardDelta := (unsignedDelta previous current bitMask).toNat
  let backwardDelta := (unsignedDelta current previous bitMask).toNat
  { maxUnsignedDelta := max acc.maxUnsignedDelta forwardDelta
    maxPosSignedDelta :=
      if forwardDelta < backwardDelta then max acc.maxPosSignedDelta forwardDelta
      else acc.maxPosSignedDelta
    minNegSignedDelta :=
      if forwardDelta < backwardDelta then acc.minNegSignedDelta
      else max acc.minNegSignedDelta backwardDelta }

def calculateMinAndMaxDeltas (bitMask : Value) (prev : Option Value) (acc : DeltaBounds) :
    List (Option Value) → DeltaBounds
  | [] => acc
  | none :: rest => calculateMinAndMaxDeltas bitMask prev acc rest
  | some current :: rest =>
    match prev with
    | none => calculateMinAndMaxDeltas bitMask (some current) acc rest
    | some previous =>
      calculateMinAndMaxDeltas bitMask (some current) (acc.add bitMask previous current) rest

def encodeVarInt : Nat → Nat → List Nat
  | 0, _ => []
  | n + 1, input =>
    if input >>> 7 > 0 then (input &&& 0x7f ||| 0x80) :: encodeVarInt n (input >>> 7)
    else [input &&& 0x7f]

variable (params : FixedLengthEncodingParameters)

def encodeHeader : List (Nat × Nat) :=
  if params.isDefault then [(0, 2), (params.deltaWidthBits - 1, 6)]
  else [(1, 2), (params.deltaWidthBits - 1, 6), (params.signedDeltas.toNat, 1),
    (params.valuesOptional.toNat, 1), (params.valueWidthBits - 1, 6)]

def encodeUnsignedDelta (previous current : Value) : Value :=
  unsignedDelta previous current params.valueMask

def encodeSignedDelta (previous current : Value) : Value :=
  let forwardDelta := unsignedDelta previous current params.valueMask
  let backwardDelta := unsignedDelta current previous params.valueMask
  if forwardDelta.toNat ≤ backwardDelta.toNat then forwardDelta
  else params.deltaMask - backwardDelta + 1#64

def encodeDelta (previous current : Value) : Value :=
  if params.signedDeltas then encodeSignedDelta params previous current
  else encodeUnsignedDelta params previous current

def encodeValues (previous : Option Value) : List (Option Value) → List (Nat × Nat)
  | [] => []
  | none :: rest => encodeValues previous rest
  | some value :: rest =>
    (match previous with
      | none => (encodeVarInt 10 value.toNat).map (·, 8)
      | some previous => [((encodeDelta params previous value).toNat, params.deltaWidthBits)]) ++
      encodeValues (some value) rest

def headerLengthBits : Nat := if params.isDefault then 2 + 6 else 2 + 6 + 1 + 1 + 6

def encodedDeltasLengthBits (base : Option Value) (values : List (Option Value))
    (existentValuesCount : Nat) : Nat :=
  if !params.valuesOptional then values.length * params.deltaWidthBits
  else
    let existenceBitmapSizeBits := 1 * values.length
    let firstValueIsVarint := base.isNone && existentValuesCount ≥ 1
    let firstValueVarintSizeBits := 8 * 10
    let deltasCount := existentValuesCount - firstValueIsVarint.toNat
    existenceBitmapSizeBits + firstValueVarintSizeBits + deltasCount * params.deltaWidthBits

def outputLengthBytes (base : Option Value) (values : List (Option Value))
    (existentValuesCount : Nat) : Nat :=
  bytesFor (headerLengthBits params + encodedDeltasLengthBits params base values existentValuesCount)

def encodeExistence (values : List (Option Value)) : List (Nat × Nat) :=
  values.map fun value => (value.isSome.toNat, 1)

/-- All that `Encode` writes, in order. -/
def encoderWrites (base : Option Value) (values : List (Option Value)) : List (Nat × Nat) :=
  encodeHeader params ++ (if params.valuesOptional then encodeExistence values else []) ++
    encodeValues params base values

def encode (base : Option Value) (values : List (Option Value)) (existentValuesCount : Nat) :
    Option (List UInt8) := do
  let buffer := Writer.ofBytes (outputLengthBytes params base values existentValuesCount)
  let writer ← buffer.writeAll (encoderWrites params base values)
  return writer.bytes

def summaryOf (base : Option Value) (values : List (Option Value)) : Summary :=
  summarize (base.getD 0) ⟨true, (base.getD 0).toNat, 0⟩ values

def Summary.valueWidthBits (summary : Summary) : Nat :=
  if summary.nonDecreasing then 64 else unsignedBitWidth summary.maxValueIncludingBase false

def chooseParameters (base : Option Value) (values : List (Option Value)) :
    Option FixedLengthEncodingParameters :=
  let summary := summaryOf base values
  let valueWidthBits := summary.valueWidthBits
  let bounds := calculateMinAndMaxDeltas (maxUnsignedValueOfBitWidth valueWidthBits) base
    ⟨0, 0, 0⟩ values
  let deltaWidthBitsUnsigned := unsignedBitWidth bounds.maxUnsignedDelta false
  let deltaWidthBitsSigned := signedBitWidth bounds.maxPosSignedDelta bounds.minNegSignedDelta
  let signedDeltas : Bool := deltaWidthBitsSigned < deltaWidthBitsUnsigned
  FixedLengthEncodingParameters.create
    (if signedDeltas then deltaWidthBitsSigned else deltaWidthBitsUnsigned) signedDeltas
    (base.isNone || summary.existentValuesCount < values.length) valueWidthBits

def encodeDeltas (base : Option Value) (values : List (Option Value)) : Option (List UInt8) :=
  if values.all (· = base) then some []
  else do
    let params ← chooseParameters base values
    encode params base values (summaryOf base values).existentValuesCount

end Encoder

section Decoder

/-- `DecodeVarInt` with `n` bytes left to read and `decoded` read from the first `i`. -/
def decodeVarInt : Nat → Nat → Value → Reader → Value × Reader
  | 0, _, _, _ => (0, .failed)
  | n + 1, i, decoded, reader =>
    let (byte, reader) := reader.readBits 8
    let decoded := decoded + BitVec.ofNat 64 (byte &&& 0x7f) <<< (7 * i)
    if byte &&& 0x80 = 0 then (decoded, reader) else decodeVarInt n (i + 1) decoded reader

variable (params : FixedLengthEncodingParameters)

def applyUnsignedDelta (base delta : Value) : Value := (base + delta) &&& params.valueMask

def applySignedDelta (base delta : Value) : Value :=
  let topBit := 1#64 <<< (params.deltaWidthBits - 1)
  if delta &&& topBit = 0 then applyUnsignedDelta params base delta
  else
    let deltaAbs := (~~~delta &&& params.deltaMask) + 1#64
    (base - deltaAbs) &&& params.valueMask

def applyDelta (base delta : Value) : Value :=
  if params.signedDeltas then applySignedDelta params base delta
  else applyUnsignedDelta params base delta

def readExistence : Nat → Reader → List Bool × Reader
  | 0, reader => ([], reader)
  | n + 1, reader =>
    let (bit, reader) := reader.readBit
    let (bits, reader) := readExistence n reader
    (bit :: bits, reader)

def decodeValues (previous : Option Value) (reader : Reader) :
    List Bool → List (Option Value) × Reader
  | [] => ([], reader)
  | false :: rest =>
    let (values, reader) := decodeValues previous reader rest
    (none :: values, reader)
  | true :: rest =>
    let (value, reader) :=
      match previous with
      | none => decodeVarInt 10 0 0#64 reader
      | some previous =>
        let (delta, reader) := reader.readBits params.deltaWidthBits
        (applyDelta params previous (BitVec.ofNat 64 delta), reader)
    let (values, reader) := decodeValues (some value) reader rest
    (some value :: values, reader)

def decode (base : Option Value) (numOfDeltas : Nat) (reader : Reader) : List (Option Value) :=
  let (existing, reader) :=
    if params.valuesOptional then readExistence numOfDeltas reader
    else (List.replicate numOfDeltas true, reader)
  let (values, reader) := decodeValues params base reader existing
  if reader.ok then values else []

def readHeader (reader : Reader) : Option (FixedLengthEncodingParameters × Reader) :=
  let (encodingType, reader) := reader.readBits 2
  if !reader.ok then none
  else if encodingType ≠ 0 ∧ encodingType ≠ 1 then none
  else
    let (deltaWidth, reader) := reader.readBits 6
    if encodingType = 0 then
      if reader.ok then
        (FixedLengthEncodingParameters.create (deltaWidth + 1) false false 64).map (·, reader)
      else none
    else
      let (signedDeltas, reader) := reader.readBit
      let (valuesOptional, reader) := reader.readBit
      let (valueWidth, reader) := reader.readBits 6
      if reader.ok then
        (FixedLengthEncodingParameters.create (deltaWidth + 1) signedDeltas valuesOptional
          (valueWidth + 1)).map (·, reader)
      else none

/-- `IsSuitableDecoderFor` looks at the first two bits, which `readHeader` reads again. -/
def decodeDeltas (input : List UInt8) (base : Option Value) (numOfDeltas : Nat) :
    List (Option Value) :=
  if input = [] then List.replicate numOfDeltas base
  else
    match readHeader (.ofBytes input) with
    | some (params, reader) => decode params base numOfDeltas reader
    | none => []

end Decoder

/-! The widths cover what they are computed from. -/

theorem unsignedBitWidthLoop_spec {n input : Nat} (h : input < 2 ^ (n + 1)) :
    input < 2 ^ unsignedBitWidthLoop (n + 1) input ∧ 1 ≤ unsignedBitWidthLoop (n + 1) input ∧
      ∀ m, 1 ≤ m → input < 2 ^ m → unsignedBitWidthLoop (n + 1) input ≤ m := by
  induction n generalizing input with
  | zero =>
    have hshift : input >>> 1 = 0 := by
      rw [Nat.shiftRight_one]
      omega
    rw [unsignedBitWidthLoop, if_neg (by simp [hshift])]
    exact ⟨h, le_rfl, fun m hm _ => hm⟩
  | succ n ih =>
    rw [unsignedBitWidthLoop]
    by_cases hzero : input >>> 1 = 0
    · rw [if_neg (by simp [hzero])]
      rw [Nat.shiftRight_one] at hzero
      exact ⟨by omega, le_rfl, fun m hm _ => hm⟩
    · rw [if_pos hzero]
      rw [Nat.shiftRight_one] at hzero ⊢
      obtain ⟨hlt, _, hleast⟩ := ih (show input / 2 < 2 ^ (n + 1) by rw [pow_succ] at h; omega)
      refine ⟨?_, Nat.le_add_right _ _, ?_⟩
      · rw [Nat.add_comm, pow_succ]
        omega
      · intro m hm hinput
        obtain ⟨m, rfl⟩ := Nat.exists_eq_add_of_le' hm
        rw [pow_succ] at hinput
        have hpos : 1 ≤ m := by
          by_contra hm0
          obtain rfl : m = 0 := by omega
          omega
        have := hleast m hpos (by omega)
        omega

theorem unsignedBitWidth_spec {input : Nat} (h : input < 2 ^ 64) :
    input < 2 ^ unsignedBitWidth input false ∧ 1 ≤ unsignedBitWidth input false ∧
      ∀ m, 1 ≤ m → input < 2 ^ m → unsignedBitWidth input false ≤ m := by
  rw [unsignedBitWidth, Bool.false_and, if_neg Bool.false_ne_true]
  exact unsignedBitWidthLoop_spec h

theorem lt_unsignedBitWidth_true {input : Nat} (h : input < 2 ^ 64) :
    input < 2 ^ unsignedBitWidth input true := by
  unfold unsignedBitWidth
  by_cases hzero : input = 0
  · rw [if_pos (by simp [hzero]), hzero, pow_zero]
    exact Nat.one_pos
  · rw [if_neg (by simp [hzero])]
    exact (unsignedBitWidthLoop_spec h).1

theorem signedBitWidth_spec {pos neg : Nat} (hpos : pos < 2 ^ 64) (hneg : neg < 2 ^ 64) :
    ∃ n, signedBitWidth pos neg = n + 1 ∧ pos < 2 ^ n ∧ neg ≤ 2 ^ n := by
  refine ⟨_, Nat.add_comm _ _, ?_, ?_⟩
  · exact (lt_unsignedBitWidth_true hpos).trans_le
      (Nat.pow_le_pow_right Nat.two_pos (le_max_left _ _))
  · by_cases hzero : neg = 0
    · rw [hzero]
      exact Nat.zero_le _
    · have hlt : neg - 1 < 2 ^ unsignedBitWidth (neg - 1) true :=
        lt_unsignedBitWidth_true (by omega)
      rw [if_pos (Nat.pos_of_ne_zero hzero)]
      have := hlt.trans_le (Nat.pow_le_pow_right Nat.two_pos
        (le_max_right (unsignedBitWidth pos true) (unsignedBitWidth (neg - 1) true)))
      omega

variable {w : Nat}

theorem two_pow_dvd (h : w ≤ 64) : 2 ^ w ∣ 2 ^ 64 := Nat.pow_dvd_pow 2 h

theorem toNat_maxUnsignedValueOfBitWidth (h : w ≤ 64) :
    (maxUnsignedValueOfBitWidth w).toNat = 2 ^ w - 1 := by
  unfold maxUnsignedValueOfBitWidth
  by_cases hw : w = 64
  · rw [if_pos hw, hw]
    rfl
  · have hlt : 2 ^ w < 2 ^ 64 := Nat.pow_lt_pow_right Nat.one_lt_two (by omega)
    have hpos : 0 < 2 ^ w := Nat.two_pow_pos w
    have hone : (1#64 <<< w).toNat = 2 ^ w := by
      rw [BitVec.toNat_shiftLeft, Nat.shiftLeft_eq, BitVec.toNat_one (by decide), one_mul,
        Nat.mod_eq_of_lt hlt]
    rw [if_neg hw, BitVec.toNat_sub, hone, BitVec.toNat_one (by decide)]
    omega

theorem toNat_and_mask (x : Value) (h : w ≤ 64) :
    (x &&& maxUnsignedValueOfBitWidth w).toNat = x.toNat % 2 ^ w := by
  rw [BitVec.toNat_and, toNat_maxUnsignedValueOfBitWidth h, Nat.and_two_pow_sub_one_eq_mod]

/-! Deltas modulo a power of two, forward and backward. -/

section Wrap

variable {w : Nat} {p c : Value}

section

variable (hw : w ≤ 64)
include hw

theorem toNat_unsignedDelta : (unsignedDelta p c (maxUnsignedValueOfBitWidth w)).toNat =
      (2 ^ 64 - p.toNat + c.toNat) % 2 ^ w := by
  rw [unsignedDelta, toNat_and_mask _ hw, BitVec.toNat_sub, Nat.mod_mod_of_dvd _ (two_pow_dvd hw)]

theorem unsignedDelta_lt : (unsignedDelta p c (maxUnsignedValueOfBitWidth w)).toNat < 2 ^ w := by
  rw [toNat_unsignedDelta hw]
  exact Nat.mod_lt _ (Nat.two_pow_pos w)

theorem add_unsignedDelta (hc : c.toNat < 2 ^ w) :
    (p + unsignedDelta p c (maxUnsignedValueOfBitWidth w)) &&& maxUnsignedValueOfBitWidth w = c := by
  apply BitVec.eq_of_toNat_eq
  rw [toNat_and_mask _ hw, BitVec.toNat_add, Nat.mod_mod_of_dvd _ (two_pow_dvd hw),
    toNat_unsignedDelta hw, Nat.add_mod_mod]
  obtain ⟨k, hk⟩ := two_pow_dvd hw
  have hp := p.isLt
  have hsum : p.toNat + (2 ^ 64 - p.toNat + c.toNat) = c.toNat + 2 ^ w * k := by omega
  rw [hsum, Nat.add_mul_mod_self_left, Nat.mod_eq_of_lt hc]

theorem sub_unsignedDelta (hc : c.toNat < 2 ^ w) :
    (p - unsignedDelta c p (maxUnsignedValueOfBitWidth w)) &&& maxUnsignedValueOfBitWidth w = c := by
  apply BitVec.eq_of_toNat_eq
  rw [toNat_and_mask _ hw, BitVec.toNat_sub, Nat.mod_mod_of_dvd _ (two_pow_dvd hw)]
  have hb := toNat_unsignedDelta (p := c) (c := p) hw
  have hdiv := Nat.div_add_mod (2 ^ 64 - c.toNat + p.toNat) (2 ^ w)
  have hsum : 2 ^ 64 - (unsignedDelta c p (maxUnsignedValueOfBitWidth w)).toNat + p.toNat =
      c.toNat + 2 ^ w * ((2 ^ 64 - c.toNat + p.toNat) / 2 ^ w) := by
    rw [hb]
    omega
  rw [hsum, Nat.add_mul_mod_self_left, Nat.mod_eq_of_lt hc]

theorem unsignedDelta_add : (unsignedDelta p c (maxUnsignedValueOfBitWidth w)).toNat +
        (unsignedDelta c p (maxUnsignedValueOfBitWidth w)).toNat = 0 ∨
      (unsignedDelta p c (maxUnsignedValueOfBitWidth w)).toNat +
        (unsignedDelta c p (maxUnsignedValueOfBitWidth w)).toNat = 2 ^ w := by
  have hf := unsignedDelta_lt (p := p) (c := c) hw
  have hb := unsignedDelta_lt (p := c) (c := p) hw
  have hdvd : 2 ^ w ∣ (unsignedDelta p c (maxUnsignedValueOfBitWidth w)).toNat +
      (unsignedDelta c p (maxUnsignedValueOfBitWidth w)).toNat := by
    apply Nat.dvd_of_mod_eq_zero
    rw [toNat_unsignedDelta hw, toNat_unsignedDelta hw, ← Nat.add_mod]
    obtain ⟨k, hk⟩ := two_pow_dvd hw
    have hp := p.isLt
    have hc := c.isLt
    have hsum : 2 ^ 64 - p.toNat + c.toNat + (2 ^ 64 - c.toNat + p.toNat) = 2 ^ w * (2 * k) := by
      rw [Nat.mul_left_comm, ← hk]
      omega
    rw [hsum, Nat.mul_mod_right]
  obtain ⟨k, hk⟩ := hdvd
  have hk2 : k < 2 := by
    apply Nat.lt_of_mul_lt_mul_left (a := 2 ^ w)
    omega
  rcases k with _ | _ | k
  · exact .inl (by simpa using hk)
  · exact .inr (by simpa using hk)
  · omega

end

end Wrap

/-! A delta that fits is read back. -/

def Codes (params : FixedLengthEncodingParameters) (p c : Value) : Prop :=
  (encodeDelta params p c).toNat < 2 ^ params.deltaWidthBits ∧
    applyDelta params p (encodeDelta params p c) = c

theorem and_topBit_eq_zero {n : Nat} (hn : n < 64) {delta : Value}
    (hd : delta.toNat < 2 ^ (n + 1)) : delta &&& 1#64 <<< n = 0 ↔ delta.toNat < 2 ^ n := by
  have hpow : 2 ^ n < 2 ^ 64 := Nat.pow_lt_pow_right Nat.one_lt_two hn
  rw [← BitVec.toNat_inj, BitVec.toNat_and, BitVec.toNat_shiftLeft, Nat.shiftLeft_eq,
    BitVec.toNat_one (by decide), one_mul, Nat.mod_eq_of_lt hpow, Nat.and_two_pow,
    Nat.toNat_testBit]
  rw [pow_succ] at hd
  by_cases hlt : delta.toNat < 2 ^ n
  · simp [Nat.div_eq_of_lt hlt, hlt]
  · have hdiv : delta.toNat / 2 ^ n = 1 := by
      apply Nat.div_eq_of_lt_le <;> omega
    simp [hdiv, hlt]

variable {params : FixedLengthEncodingParameters}

theorem codes_unsigned {p c : Value}
    (hsigned : params.signedDeltas = false) (hc : c.toNat < 2 ^ params.valueWidthBits)
    (hd : (unsignedDelta p c params.valueMask).toNat < 2 ^ params.deltaWidthBits) :
    Codes params p c := by
  have hencode : encodeDelta params p c = unsignedDelta p c params.valueMask := by
    rw [encodeDelta, if_neg (by simp [hsigned]), encodeUnsignedDelta]
  refine ⟨by rwa [hencode], ?_⟩
  rw [hencode, applyDelta, if_neg (by simp [hsigned]), applyUnsignedDelta]
  exact add_unsignedDelta params.value_le hc

/-! The two's complement of a number in `n` bits. -/

section Negate

variable {n : Nat} {magnitude : Value}

theorem toNat_negate (hn : n ≤ 64) (hone : 1 ≤ magnitude.toNat) (hle : magnitude.toNat < 2 ^ n) :
    (maxUnsignedValueOfBitWidth n - magnitude + 1#64).toNat = 2 ^ n - magnitude.toNat := by
  have h64 : 2 ^ n ≤ 2 ^ 64 := Nat.pow_le_pow_right Nat.two_pos hn
  rw [BitVec.toNat_add, BitVec.toNat_sub, toNat_maxUnsignedValueOfBitWidth hn,
    BitVec.toNat_one (by decide)]
  omega

theorem negate_negate (hn : n ≤ 64) (hone : 1 ≤ magnitude.toNat) (hle : magnitude.toNat < 2 ^ n) :
    (~~~(maxUnsignedValueOfBitWidth n - magnitude + 1#64) &&& maxUnsignedValueOfBitWidth n) +
      1#64 = magnitude := by
  have hmod : (2 ^ 64 - 1 - (2 ^ n - magnitude.toNat)) % 2 ^ n = magnitude.toNat - 1 := by
    obtain ⟨k, hk⟩ := two_pow_dvd hn
    obtain ⟨k, rfl⟩ : ∃ j, k = j + 1 := by
      apply Nat.exists_eq_succ_of_ne_zero
      rintro rfl
      simp at hk
    have hsum : 2 ^ 64 - 1 - (2 ^ n - magnitude.toNat) = magnitude.toNat - 1 + 2 ^ n * k := by
      rw [hk, Nat.mul_succ]
      omega
    rw [hsum, Nat.add_mul_mod_self_left, Nat.mod_eq_of_lt (by omega)]
  apply BitVec.eq_of_toNat_eq
  have := magnitude.isLt
  rw [BitVec.toNat_add, toNat_and_mask _ hn, BitVec.toNat_not, toNat_negate hn hone hle, hmod,
    BitVec.toNat_one (by decide)]
  omega

end Negate

theorem codes_signed {p c : Value} {n : Nat}
    (hsigned : params.signedDeltas = true) (hn : params.deltaWidthBits = n + 1)
    (hnarrow : n + 1 < params.valueWidthBits) (hc : c.toNat < 2 ^ params.valueWidthBits)
    (hpos : (unsignedDelta p c params.valueMask).toNat <
      (unsignedDelta c p params.valueMask).toNat →
        (unsignedDelta p c params.valueMask).toNat < 2 ^ n)
    (hneg : ¬ (unsignedDelta p c params.valueMask).toNat <
      (unsignedDelta c p params.valueMask).toNat →
        (unsignedDelta c p params.valueMask).toNat ≤ 2 ^ n) : Codes params p c := by
  have hvalue := params.value_le
  have hround : _ ∨ _ := unsignedDelta_add (p := p) (c := c) hvalue
  have hf := unsignedDelta_lt (p := p) (c := c) hvalue
  have hadd := add_unsignedDelta (p := p) hvalue hc
  have hsub := sub_unsignedDelta (p := p) hvalue hc
  rw [← valueMask] at hround hf hadd hsub
  have hwide : 2 * 2 ^ (n + 1) ≤ 2 ^ params.valueWidthBits := by
    rw [← pow_succ']
    exact Nat.pow_le_pow_right Nat.two_pos hnarrow
  have hnpos := Nat.two_pow_pos n
  unfold Codes
  simp only [encodeDelta, encodeSignedDelta, applyDelta, applySignedDelta, hsigned, if_true, hn,
    Nat.add_sub_cancel]
  generalize unsignedDelta p c params.valueMask = forward at *
  generalize unsignedDelta c p params.valueMask = backward at *
  by_cases hle : forward.toNat ≤ backward.toNat
  · have hsmall : forward.toNat < 2 ^ n := by
      by_cases hlt : forward.toNat < backward.toNat
      · exact hpos hlt
      · have := hneg hlt
        omega
    have htop := (and_topBit_eq_zero (show n < 64 by omega) (by omega)).mpr hsmall
    rw [if_pos hle, if_pos htop, applyUnsignedDelta]
    exact ⟨by omega, hadd⟩
  · have hback := hneg (by omega)
    have hone : 1 ≤ backward.toNat := by omega
    have hle' : backward.toNat < 2 ^ (n + 1) := by omega
    rw [if_neg hle, deltaMask, hn]
    have hdelta := toNat_negate (show n + 1 ≤ 64 by omega) hone hle'
    have htop := and_topBit_eq_zero (show n < 64 by omega) (by rw [hdelta]; omega)
    rw [hdelta] at htop
    rw [if_neg (by rw [htop]; omega), negate_negate (by omega) hone hle', hdelta]
    exact ⟨by omega, hsub⟩

/-! What the passes over the values find out. -/

def deltaPairs (prev : Option Value) : List (Option Value) → List (Value × Value)
  | [] => []
  | none :: rest => deltaPairs prev rest
  | some current :: rest => (prev.toList.map (·, current)) ++ deltaPairs (some current) rest

structure DeltaBounds.Covers (bounds : DeltaBounds) (bitMask : Value) (pair : Value × Value) :
    Prop where
  unsigned : (unsignedDelta pair.1 pair.2 bitMask).toNat ≤ bounds.maxUnsignedDelta
  pos : (unsignedDelta pair.1 pair.2 bitMask).toNat < (unsignedDelta pair.2 pair.1 bitMask).toNat →
    (unsignedDelta pair.1 pair.2 bitMask).toNat ≤ bounds.maxPosSignedDelta
  neg : ¬ (unsignedDelta pair.1 pair.2 bitMask).toNat <
      (unsignedDelta pair.2 pair.1 bitMask).toNat →
    (unsignedDelta pair.2 pair.1 bitMask).toNat ≤ bounds.minNegSignedDelta

theorem DeltaBounds.covers_add (acc : DeltaBounds) (bitMask : Value) (pair : Value × Value) :
    (acc.add bitMask pair.1 pair.2).Covers bitMask pair := by
  unfold DeltaBounds.add
  constructor <;> dsimp only
  · exact le_max_right _ _
  · intro h
    rw [if_pos h]
    exact le_max_right _ _
  · intro h
    rw [if_neg h]
    exact le_max_right _ _

variable {acc : DeltaBounds} {pair : Value × Value}

theorem DeltaBounds.Covers.add {bitMask : Value}
    (h : acc.Covers bitMask pair) (p c : Value) : (acc.add bitMask p c).Covers bitMask pair := by
  unfold DeltaBounds.add
  constructor <;> dsimp only
  · exact h.unsigned.trans (le_max_left _ _)
  · intro hlt
    split
    · exact (h.pos hlt).trans (le_max_left _ _)
    · exact h.pos hlt
  · intro hlt
    split
    · exact h.neg hlt
    · exact (h.neg hlt).trans (le_max_left _ _)

variable {values : List (Option Value)} {prev : Option Value}

theorem covers_calculateMinAndMaxDeltas {bitMask : Value}
    (h : acc.Covers bitMask pair ∨ pair ∈ deltaPairs prev values) :
    (calculateMinAndMaxDeltas bitMask prev acc values).Covers bitMask pair := by
  induction values generalizing prev acc with
  | nil => exact h.resolve_right not_mem_nil
  | cons value rest ih =>
    rcases value with _ | current
    · exact ih h
    · rcases prev with _ | previous
      · exact ih h
      · apply ih
        rcases h with h | h
        · exact .inl (h.add _ _)
        · rcases mem_cons.mp h with rfl | hrest
          · exact .inl (acc.covers_add bitMask (previous, current))
          · exact .inr hrest

structure DeltaBounds.Below (bounds : DeltaBounds) (w : Nat) : Prop where
  unsigned : bounds.maxUnsignedDelta < 2 ^ w
  pos : bounds.maxPosSignedDelta < 2 ^ w
  neg : bounds.minNegSignedDelta < 2 ^ w

theorem DeltaBounds.Below.add (h : acc.Below w) (hw : w ≤ 64)
    (p c : Value) : (acc.add (maxUnsignedValueOfBitWidth w) p c).Below w := by
  have hf := unsignedDelta_lt (p := p) (c := c) hw
  have hb := unsignedDelta_lt (p := c) (c := p) hw
  constructor <;> dsimp only [DeltaBounds.add]
  · exact max_lt h.unsigned hf
  · split
    · exact max_lt h.pos hf
    · exact h.pos
  · split
    · exact h.neg
    · exact max_lt h.neg hb

theorem below_calculateMinAndMaxDeltas (hw : w ≤ 64) (prev : Option Value)
    (values : List (Option Value)) (h : acc.Below w) :
    (calculateMinAndMaxDeltas (maxUnsignedValueOfBitWidth w) prev acc values).Below w := by
  induction values generalizing prev acc with
  | nil => exact h
  | cons value rest ih =>
    rcases value with _ | current
    · exact ih _ h
    · rcases prev with _ | previous
      · exact ih _ h
      · exact ih _ (h.add hw _ _)

variable (previous : Value)

theorem existentValuesCount_summarize (acc : Summary) (values : List (Option Value)) :
    (summarize previous acc values).existentValuesCount =
      acc.existentValuesCount + values.countP Option.isSome := by
  induction values generalizing previous acc with
  | nil => rfl
  | cons value rest ih =>
    rcases value with _ | value
    · rw [summarize, ih]
      rfl
    · rw [summarize, ih, countP_cons_of_pos rfl, Nat.add_assoc, Nat.add_comm 1]

variable (base : Option Value)

theorem existentValuesCount_summaryOf (values : List (Option Value)) :
    (summaryOf base values).existentValuesCount = values.countP Option.isSome := by
  rw [summaryOf, existentValuesCount_summarize, Nat.zero_add]

theorem maxValueIncludingBase_summarize (acc : Summary) (values : List (Option Value)) :
    acc.maxValueIncludingBase ≤ (summarize previous acc values).maxValueIncludingBase ∧
      (∀ value, some value ∈ values →
        value.toNat ≤ (summarize previous acc values).maxValueIncludingBase) ∧
      (acc.maxValueIncludingBase < 2 ^ 64 →
        (summarize previous acc values).maxValueIncludingBase < 2 ^ 64) := by
  induction values generalizing previous acc with
  | nil => exact ⟨le_rfl, fun _ h => absurd h not_mem_nil, id⟩
  | cons value rest ih =>
    rcases value with _ | value
    · obtain ⟨hacc, hall, hlt⟩ := ih previous acc
      refine ⟨hacc, fun v hv => hall v ?_, hlt⟩
      simpa using hv
    · obtain ⟨hacc, hall, hlt⟩ := ih value
        { nonDecreasing := acc.nonDecreasing && previous.toNat ≤ value.toNat
          maxValueIncludingBase := max acc.maxValueIncludingBase value.toNat
          existentValuesCount := acc.existentValuesCount + 1 }
      refine ⟨(le_max_left _ _).trans hacc, ?_, fun h => hlt (max_lt h value.isLt)⟩
      intro v hv
      rcases mem_cons.mp hv with heq | hrest
      · cases heq
        exact (le_max_right _ _).trans hacc
      · exact hall v hrest

theorem mem_of_mem_deltaPairs (h : pair ∈ deltaPairs prev values) : some pair.2 ∈ values := by
  induction values generalizing prev with
  | nil => exact absurd h not_mem_nil
  | cons value rest ih =>
    rcases value with _ | current
    · exact mem_cons_of_mem _ (ih h)
    · rcases mem_append.mp h with h | h
      · obtain ⟨_, _, rfl⟩ := mem_map.mp h
        exact mem_cons_self
      · exact mem_cons_of_mem _ (ih h)

theorem valueWidthBits_spec (values : List (Option Value)) :
    1 ≤ (summaryOf base values).valueWidthBits ∧ (summaryOf base values).valueWidthBits ≤ 64 ∧
      ∀ value, some value ∈ values → value.toNat < 2 ^ (summaryOf base values).valueWidthBits := by
  obtain ⟨_, hall, hlt⟩ := maxValueIncludingBase_summarize (base.getD 0)
    ⟨true, (base.getD 0).toNat, 0⟩ values
  have hmax := hlt (base.getD 0).isLt
  obtain ⟨hless, hone, hleast⟩ := unsignedBitWidth_spec hmax
  rw [← summaryOf] at hall hless hone hleast hmax
  unfold Summary.valueWidthBits
  split
  · exact ⟨by omega, le_rfl, fun value _ => value.isLt⟩
  · exact ⟨hone, hleast 64 (by omega) hmax, fun value hv => (hall value hv).trans_lt hless⟩

theorem chooseParameters_spec (values : List (Option Value)) :
    ∃ params, chooseParameters base values = some params ∧ params.valuesOptional = (base.isNone ||
        decide (values.countP Option.isSome < values.length)) ∧
      ∀ pair ∈ deltaPairs base values, Codes params pair.1 pair.2 := by
  obtain ⟨hw1, hw64, hvalues⟩ := valueWidthBits_spec base values
  unfold chooseParameters
  simp only [existentValuesCount_summaryOf]
  generalize (summaryOf base values).valueWidthBits = w at *
  have hpos : 0 < 2 ^ w := Nat.two_pow_pos w
  have hbelow := below_calculateMinAndMaxDeltas hw64 base values
    (show (⟨0, 0, 0⟩ : DeltaBounds).Below w from ⟨hpos, hpos, hpos⟩)
  have hcovers (pair) (h : pair ∈ deltaPairs base values) :
      (calculateMinAndMaxDeltas (maxUnsignedValueOfBitWidth w) base ⟨0, 0, 0⟩ values).Covers
        (maxUnsignedValueOfBitWidth w) pair := covers_calculateMinAndMaxDeltas (.inr h)
  generalize calculateMinAndMaxDeltas (maxUnsignedValueOfBitWidth w) base ⟨0, 0, 0⟩ values =
    bounds at *
  have h64 : 2 ^ w ≤ 2 ^ 64 := Nat.pow_le_pow_right Nat.two_pos hw64
  obtain ⟨hltU, honeU, hleastU⟩ := unsignedBitWidth_spec (hbelow.unsigned.trans_le h64)
  obtain ⟨n, hn, hposn, hnegn⟩ :=
    signedBitWidth_spec (hbelow.pos.trans_le h64) (hbelow.neg.trans_le h64)
  have hleU := hleastU w hw1 hbelow.unsigned
  rw [hn]
  by_cases hsigned : n + 1 < unsignedBitWidth bounds.maxUnsignedDelta false
  · simp only [hsigned, decide_true, if_true, FixedLengthEncodingParameters.create]
    rw [dif_pos ⟨by omega, by omega, hw64⟩]
    refine ⟨_, rfl, rfl, fun pair hpair => ?_⟩
    have hcover := hcovers pair hpair
    apply codes_signed (n := n) rfl rfl
    · exact hsigned.trans_le hleU
    · exact hvalues _ (mem_of_mem_deltaPairs hpair)
    · exact fun hlt => (hcover.pos hlt).trans_lt hposn
    · exact fun hlt => (hcover.neg hlt).trans hnegn
  · simp only [hsigned, decide_false, Bool.false_eq_true, if_false,
      FixedLengthEncodingParameters.create]
    rw [dif_pos ⟨honeU, hleU, hw64⟩]
    refine ⟨_, rfl, rfl, fun pair hpair => ?_⟩
    apply codes_unsigned rfl
    · exact hvalues _ (mem_of_mem_deltaPairs hpair)
    · exact (hcovers pair hpair).unsigned.trans_lt hltU

/-! Reading back what was written. -/

theorem ofNat_shiftLeft (a k : Nat) : BitVec.ofNat 64 a <<< k = BitVec.ofNat 64 (a * 2 ^ k) := by
  apply BitVec.eq_of_toNat_eq
  simp [Nat.shiftLeft_eq]

theorem varInt_byte : ∀ m < 128,
    ((m ||| 0x80) % 2 ^ 8 &&& 0x7f) = m ∧ ((m ||| 0x80) % 2 ^ 8 &&& 0x80) ≠ 0 ∧
      (m % 2 ^ 8 &&& 0x7f) = m ∧ (m % 2 ^ 8 &&& 0x80) = 0 := by
  decide

theorem decodeVarInt_encodeVarInt {n v : Nat} (i : Nat) (decoded : Value) (rest : List Bool)
    (hv : v < 2 ^ (7 * n)) (hn : 0 < n) :
    decodeVarInt n i decoded (.ofBits (written ((encodeVarInt n v).map (·, 8)) ++ rest)) =
      (decoded + BitVec.ofNat 64 (v * 2 ^ (7 * i)), .ofBits rest) := by
  induction n generalizing v i decoded with
  | zero => omega
  | succ n ih =>
    have hlow : v &&& 0x7f = v % 128 := Nat.and_two_pow_sub_one_eq_mod v 7
    have hshift : v >>> 7 = v / 128 := Nat.shiftRight_eq_div_pow v 7
    obtain ⟨hmore, hmark, hlast, hend⟩ := varInt_byte (v % 128) (Nat.mod_lt _ (by omega))
    have hpow : 2 ^ (7 * (n + 1)) = 2 ^ (7 * n) * 128 := by rw [Nat.mul_succ, pow_add]; rfl
    rw [encodeVarInt, hlow, hshift, decodeVarInt]
    by_cases hdone : v / 128 > 0
    · have hn0 : 0 < n := by
        by_contra h0
        obtain rfl : n = 0 := by omega
        omega
      have hsplit : v * 2 ^ (7 * i) =
          v % 128 * 2 ^ (7 * i) + v / 128 * 2 ^ (7 * (i + 1)) := by
        rw [Nat.mul_succ, pow_add]
        have hdiv := Nat.mod_add_div v 128
        calc v * 2 ^ (7 * i) = (v % 128 + 128 * (v / 128)) * 2 ^ (7 * i) := by rw [hdiv]
          _ = _ := by ring
      rw [if_pos hdone]
      simp only [map_cons, written, flatMap_cons, append_assoc, Reader.readBits_append]
      rw [hmore, if_neg hmark, ← written, ih _ _ (by omega) hn0, ofNat_shiftLeft, hsplit,
        BitVec.ofNat_add, BitVec.add_assoc]
    · rw [if_neg hdone]
      simp only [map_cons, map_nil, written, flatMap_cons, flatMap_nil,
        append_nil, Reader.readBits_append]
      rw [hlast, if_pos hend, ofNat_shiftLeft, Nat.mod_eq_of_lt (by omega)]

theorem length_encodeVarInt (n v : Nat) : (encodeVarInt n v).length ≤ n := by
  induction n generalizing v with
  | zero => exact le_rfl
  | succ n ih =>
    rw [encodeVarInt]
    split
    · rw [length_cons]
      have := ih (v >>> 7)
      omega
    · exact Nat.succ_le_succ (Nat.zero_le n)

theorem readExistence_encodeExistence (values : List (Option Value)) (rest : List Bool) :
    readExistence values.length (.ofBits (written (encodeExistence values) ++ rest)) =
      (values.map Option.isSome, .ofBits rest) := by
  induction values with
  | nil => rfl
  | cons value values ih =>
    simp only [encodeExistence, map_cons, written, flatMap_cons, append_assoc,
      length_cons, readExistence, Reader.readBit_append] at ih ⊢
    rw [ih]

theorem decodeValues_encodeValues (rest : List Bool)
    (h : ∀ pair ∈ deltaPairs prev values, Codes params pair.1 pair.2) :
    decodeValues params prev (.ofBits (written (encodeValues params prev values) ++ rest))
      (values.map Option.isSome) = (values, .ofBits rest) := by
  induction values generalizing prev with
  | nil => rfl
  | cons value values ih =>
    rcases value with _ | value
    · rw [map_cons, encodeValues, Option.isSome_none, decodeValues, ih h]
    · rcases prev with _ | previous <;>
        simp only [map_cons, encodeValues, Option.isSome_some, decodeValues, written_append,
          append_assoc]
      · have hv : value.toNat < 2 ^ (7 * 10) := value.isLt.trans (by decide)
        rw [decodeVarInt_encodeVarInt 0 0#64 _ hv (by omega)]
        simp only [Nat.mul_zero, pow_zero, Nat.mul_one, BitVec.ofNat_toNat, BitVec.setWidth_eq,
          BitVec.zero_add]
        rw [ih h]
      · obtain ⟨hlt, happly⟩ := h (previous, value) mem_cons_self
        simp only [written, flatMap_cons, flatMap_nil, append_nil, Reader.readBits_append]
        rw [Nat.mod_eq_of_lt hlt, BitVec.ofNat_toNat, BitVec.setWidth_eq, happly, ← written,
          ih fun pair hpair => h pair (mem_cons_of_mem _ hpair)]

theorem create_self (params : FixedLengthEncodingParameters) :
    FixedLengthEncodingParameters.create params.deltaWidthBits params.signedDeltas
      params.valuesOptional params.valueWidthBits = some params :=
  dif_pos ⟨params.one_le_delta, params.delta_le_value, params.value_le⟩

theorem readHeader_encodeHeader (params : FixedLengthEncodingParameters) (rest : List Bool) :
    readHeader (.ofBits (written (encodeHeader params) ++ rest)) = some (params, .ofBits rest) := by
  have hone := params.one_le_delta
  have hdelta := params.delta_le_value
  have hvalue := params.value_le
  have hdeltaBits : (params.deltaWidthBits - 1) % 2 ^ 6 + 1 = params.deltaWidthBits := by omega
  have hvalueBits : (params.valueWidthBits - 1) % 2 ^ 6 + 1 = params.valueWidthBits := by omega
  have hcreate := create_self params
  unfold encodeHeader readHeader
  by_cases hdefault : params.isDefault = true
  · rw [if_pos hdefault]
    simp only [isDefault, decide_eq_true_eq] at hdefault
    obtain ⟨hsigned, hoptional, hwidth⟩ := hdefault
    rw [hsigned, hoptional, hwidth] at hcreate
    simp only [written, flatMap_cons, flatMap_nil, append_nil, append_assoc,
      Reader.readBits_append, hdeltaBits, hcreate]
    rfl
  · rw [if_neg hdefault]
    simp only [written, flatMap_cons, flatMap_nil, append_nil, append_assoc,
      Reader.readBits_append, Reader.readBit_append, hdeltaBits, hvalueBits, hcreate]
    rfl

theorem sum_encodeHeader (params : FixedLengthEncodingParameters) :
    ((encodeHeader params).map Prod.snd).sum = headerLengthBits params := by
  unfold encodeHeader headerLengthBits
  split <;> rfl

theorem sum_encodeExistence (values : List (Option Value)) :
    ((encodeExistence values).map Prod.snd).sum = values.length := by
  rw [encodeExistence, map_map]
  exact (congrArg List.sum map_const').trans (by simp)

theorem sum_encodeValues_some (params : FixedLengthEncodingParameters) (previous : Value)
    (values : List (Option Value)) :
    ((encodeValues params (some previous) values).map Prod.snd).sum =
      values.countP Option.isSome * params.deltaWidthBits := by
  induction values generalizing previous with
  | nil => simp [encodeValues]
  | cons value rest ih =>
    rcases value with _ | value
    · rw [encodeValues, ih, countP_cons_of_neg (by simp)]
    · simp only [encodeValues, map_append, sum_append, ih]
      rw [countP_cons_of_pos rfl, Nat.succ_mul, Nat.add_comm]
      rfl

theorem sum_encodeValues_none (params : FixedLengthEncodingParameters)
    (values : List (Option Value)) : ((encodeValues params none values).map Prod.snd).sum ≤
      80 + (values.countP Option.isSome - (decide (values.countP Option.isSome ≥ 1)).toNat) *
        params.deltaWidthBits := by
  induction values with
  | nil => simp [encodeValues]
  | cons value rest ih =>
    rcases value with _ | value
    · rw [encodeValues, countP_cons_of_neg (by simp)]
      exact ih
    · simp only [encodeValues, map_append, sum_append, sum_encodeValues_some]
      have hbytes := length_encodeVarInt 10 value.toNat
      have hsum : (((encodeVarInt 10 value.toNat).map (·, 8)).map Prod.snd).sum =
          (encodeVarInt 10 value.toNat).length * 8 := by
        simp [Function.comp_def]
      rw [hsum, countP_cons_of_pos rfl]
      simp only [Nat.le_add_left, ge_iff_le, decide_true, Bool.toNat_true, Nat.add_sub_cancel]
      omega

variable {base : Option Value}

section

variable (h : params.valuesOptional = (base.isNone || decide (values.countP Option.isSome < values.length)))
include h

theorem sum_encoderWrites : ((encoderWrites params base values).map Prod.snd).sum ≤
      8 * outputLengthBytes params base values (values.countP Option.isSome) := by
  refine le_trans ?_ (le_bytesFor _)
  rw [encoderWrites, map_append, map_append, sum_append, sum_append,
    sum_encodeHeader, Nat.add_assoc]
  apply Nat.add_le_add_left
  unfold encodedDeltasLengthBits
  by_cases hoptional : params.valuesOptional = true
  · rw [if_pos hoptional, if_neg (by simp [hoptional]), sum_encodeExistence]
    rcases base with _ | base
    · have hnone := sum_encodeValues_none params values
      simp only [Option.isNone_none, Bool.true_and]
      omega
    · rw [sum_encodeValues_some]
      simp only [Option.isNone_some, Bool.false_and, Bool.toNat_false, Nat.sub_zero]
      omega
  · rw [if_neg hoptional, if_pos (by simp [hoptional])]
    rw [Bool.not_eq_true] at hoptional
    rw [hoptional, eq_comm, Bool.or_eq_false_iff, decide_eq_false_iff_not] at h
    obtain ⟨hbase, hcount⟩ := h
    have hle := countP_le_length (p := Option.isSome) (l := values)
    rcases base with _ | base
    · simp at hbase
    · rw [sum_encodeValues_some, show values.countP Option.isSome = values.length by omega]
      simp

theorem decode_encoderWrites
    (hcodes : ∀ pair ∈ deltaPairs base values, Codes params pair.1 pair.2) (rest : List Bool) :
    (readHeader (.ofBits (written (encoderWrites params base values) ++ rest))).map
      (fun read => decode read.1 base values.length read.2) = some values := by
  rw [encoderWrites, written_append, written_append, append_assoc, append_assoc,
    readHeader_encodeHeader, Option.map_some, decode]
  by_cases hoptional : params.valuesOptional = true
  · simp only [hoptional, if_true]
    rw [readExistence_encodeExistence]
    simp only []
    rw [decodeValues_encodeValues _ hcodes]
    rfl
  · simp only [hoptional, if_false, Bool.false_eq_true]
    rw [Bool.not_eq_true] at hoptional
    rw [hoptional, eq_comm, Bool.or_eq_false_iff, decide_eq_false_iff_not] at h
    have hall : List.replicate values.length true = values.map Option.isSome := by
      have hle := countP_le_length (p := Option.isSome) (l := values)
      have hpresent := countP_eq_length.mp (hle.antisymm (not_lt.mp h.2))
      apply Eq.symm
      rw [eq_replicate_iff]
      simpa using hpresent
    rw [hall]
    exact congrArg (fun read : List (Option Value) × Reader =>
      some (if read.2.ok then read.1 else [])) (decodeValues_encodeValues rest hcodes)

end

def encodedBytes (params : FixedLengthEncodingParameters) (base : Option Value)
    (values : List (Option Value)) : List UInt8 :=
  pack (bytesFor (written (encoderWrites params base values)).length)
    (written (encoderWrites params base values))

theorem encode_eq {count : Nat} (h : ((encoderWrites params base values).map Prod.snd).sum ≤
      8 * outputLengthBytes params base values count) :
    encode params base values count = some (encodedBytes params base values) := by
  have hwrite := (Writer.ofBytes (outputLengthBytes params base values count)).writeAll_eq
    (show 0 + _ ≤ _ from (Nat.zero_add _).le.trans h)
  rw [encode]
  simp only [hwrite]
  rfl

theorem encodedBytes_ne_nil (params : FixedLengthEncodingParameters) (base : Option Value)
    (values : List (Option Value)) : encodedBytes params base values ≠ [] := by
  intro hnil
  have hlength := congrArg List.length hnil
  rw [encodedBytes, length_pack, length_nil] at hlength
  have hle := le_bytesFor (written (encoderWrites params base values)).length
  rw [hlength, length_written, encoderWrites, map_append, map_append, sum_append,
    sum_append, sum_encodeHeader] at hle
  have hheader : 8 ≤ headerLengthBits params := by
    unfold headerLengthBits
    split <;> omega
  omega

/-- Every sequence can be encoded, it fits into the buffer made for it, and the decoder gives it
back. Just the sequence that repeats the base is encoded as nothing. -/
theorem decodeDeltas_encodeDeltas (base : Option Value) (values : List (Option Value)) :
    ∃ params encoded, chooseParameters base values = some params ∧
      ((encoderWrites params base values).map Prod.snd).sum ≤
        8 * outputLengthBytes params base values (summaryOf base values).existentValuesCount ∧
      encodeDeltas base values = some encoded ∧ (encoded = [] ↔ ∀ value ∈ values, value = base) ∧
      decodeDeltas encoded base values.length = values := by
  obtain ⟨params, hparams, hoptional, hcodes⟩ := chooseParameters_spec base values
  have hcount := existentValuesCount_summaryOf base values
  have hfit := sum_encoderWrites hoptional
  rw [hcount]
  by_cases hall : values.all (· = base)
  · refine ⟨params, [], hparams, hfit, if_pos hall, ?_, ?_⟩
    · simpa using hall
    · have hrepeat : values = List.replicate values.length base :=
        eq_replicate_iff.mpr ⟨rfl, by simpa using hall⟩
      rw [decodeDeltas, if_pos rfl]
      exact hrepeat.symm
  · refine ⟨params, encodedBytes params base values, hparams, hfit, ?_, ?_, ?_⟩
    · rw [encodeDeltas, if_neg hall, hparams, hcount]
      exact encode_eq hfit
    · refine iff_of_false (encodedBytes_ne_nil params base values) ?_
      simpa using hall
    · obtain ⟨rest, hrest⟩ :=
        Reader.exists_ofBytes_pack (written (encoderWrites params base values))
      obtain ⟨read, hread, hdecode⟩ :=
        Option.map_eq_some_iff.mp (decode_encoderWrites hoptional hcodes rest)
      rw [decodeDeltas, if_neg (encodedBytes_ne_nil params base values), encodedBytes, hrest, hread]
      exact hdecode

end WebRtc.EventLog
