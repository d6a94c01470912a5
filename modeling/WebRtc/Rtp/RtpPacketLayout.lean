import WebRtc.Rtp.RtpPacket

/-! What an RTP packet says and the bytes that say it. Each setter of a packet laid out this way
gives a packet laid out this way, and the parser reads the layout. -/

namespace WebRtc.Rtp

open CopyOnWriteBuffer

open ByteBuffer List Option

structure Extension where
  id : UInt8
  data : List UInt8

structure Content where
  marker : Bool
  payloadType : UInt8
  sequenceNumber : BitVec 16
  timestamp : BitVec 32
  ssrc : BitVec 32
  csrcs : List (BitVec 32)
  exts : List Extension
  payload : List UInt8
  padding : Nat

def Content.empty : Content := ⟨false, 0, 0, 0, 0, [], [], [], 0⟩

def profileId (two : Bool) : BitVec 16 :=
  if two then kTwoByteExtensionProfileId else kOneByteExtensionProfileId

def extensionHeaderSize (two : Bool) : Nat := if two then 2 else 1

def Extension.NeedsTwoBytes (e : Extension) : Prop := 14 < e.id ∨ 16 < e.data.length

instance (e : Extension) : Decidable e.NeedsTwoBytes := inferInstanceAs (Decidable (_ ∨ _))

def Extension.bytes (two : Bool) (e : Extension) : List UInt8 :=
  RtpPacket.extensionHeader (profileId two) e.id e.data.length ++ e.data

def entriesFrom (two : Bool) : Nat → List Extension → List ExtensionInfo
  | _, [] => []
  | offset, e :: rest =>
    ⟨e.id, e.data.length, offset + extensionHeaderSize two⟩ ::
      entriesFrom two (offset + (e.bytes two).length) rest

def firstByte (hasPadding hasExtension : Bool) (csrcCount : Nat) : UInt8 :=
  0x80 ||| (if hasPadding then 0x20 else 0) ||| (if hasExtension then 0x10 else 0) |||
    UInt8.ofNat csrcCount

def secondByte (marker : Bool) (payloadType : UInt8) : UInt8 :=
  (if marker then 0x80 else 0) ||| payloadType

namespace Content

variable (c : Content) (two : Bool)

def fixedHeader : List UInt8 :=
  [firstByte (c.padding ≠ 0) (!c.exts.isEmpty) c.csrcs.length,
    secondByte c.marker c.payloadType] ++ bigEndian16 c.sequenceNumber ++
    bigEndian32 c.timestamp ++ bigEndian32 c.ssrc

def csrcBytes : List UInt8 := c.csrcs.flatMap bigEndian32

def extBytes : List UInt8 := c.exts.flatMap (Extension.bytes two)

def words : Nat := ((c.extBytes two).length + 3) / 4

def block : List UInt8 :=
  if c.exts.isEmpty then []
  else bigEndian16 (profileId two) ++ bigEndian16 (.ofNat 16 (c.words two)) ++ c.extBytes two ++
    List.replicate (4 * c.words two - (c.extBytes two).length) 0

def paddingBytes : List UInt8 :=
  if c.padding = 0 then [] else List.replicate (c.padding - 1) 0 ++ [UInt8.ofNat c.padding]

def headers : List UInt8 := c.fixedHeader ++ (c.csrcBytes ++ c.block two)

def bytes : List UInt8 := c.headers two ++ (c.payload ++ c.paddingBytes)

def csrcsEnd : Nat := kFixedHeaderSize + c.csrcs.length * 4

def extensionsOffset : Nat := c.csrcsEnd + 4

def headersSize : Nat :=
  if c.exts.isEmpty then c.csrcsEnd else c.extensionsOffset + 4 * c.words two

def twoByte : Bool := c.exts.any fun e => e.NeedsTwoBytes

/-- The extension block ends where 16 bits still tell its offsets. -/
def Small : Prop := c.extensionsOffset + (c.extBytes c.twoByte).length < 2 ^ 16

/-- The packet that says `c` with what its memory starts with. -/
def packet (extensions : RtpHeaderExtensionMap) (memory : List UInt8) : RtpPacket where
  marker := c.marker
  payloadType := c.payloadType
  paddingSize := c.padding
  sequenceNumber := c.sequenceNumber
  timestamp := c.timestamp
  ssrc := c.ssrc
  payloadOffset := c.headersSize two
  payloadSize := c.payload.length
  extensions
  extensionEntries := entriesFrom two c.extensionsOffset c.exts
  extensionsSize := (c.extBytes two).length
  buffer := ⟨memory, c.headersSize two + c.payload.length + c.padding⟩

end Content

open Content

inductive RtpPacket.Carries : RtpPacket → Content → Bool → Prop
  | packet {c : Content} (two : Bool) (extensions : RtpHeaderExtensionMap) {memory : List UInt8}
      (h : Holds memory 0 (c.bytes two)) : Carries (c.packet two extensions memory) c two

variable (two : Bool)

theorem length_extensionHeader (id : UInt8) (length : Nat) :
    (RtpPacket.extensionHeader (profileId two) id length).length = extensionHeaderSize two := by
  cases two <;> rfl

theorem Extension.length_bytes (e : Extension) :
    (e.bytes two).length = extensionHeaderSize two + e.data.length := by
  rw [Extension.bytes, length_append, length_extensionHeader]

theorem entriesFrom_append (offset : Nat) (xs ys : List Extension) :
    entriesFrom two offset (xs ++ ys) = entriesFrom two offset xs ++
      entriesFrom two (offset + (xs.flatMap (Extension.bytes two)).length) ys := by
  induction xs generalizing offset with
  | nil => rfl
  | cons e rest ih =>
    rw [cons_append, entriesFrom, ih, entriesFrom, flatMap_cons, length_append,
      Nat.add_assoc, cons_append]

theorem ids_entriesFrom (offset : Nat) (exts : List Extension) :
    (entriesFrom two offset exts).map ExtensionInfo.id = exts.map Extension.id := by
  induction exts generalizing offset with
  | nil => rfl
  | cons e rest ih => rw [entriesFrom, map_cons, ih, map_cons]

theorem length_entriesFrom (offset : Nat) (exts : List Extension) :
    (entriesFrom two offset exts).length = exts.length := by
  rw [← length_map ExtensionInfo.id, ids_entriesFrom, length_map]

/-! The bits of the first two bytes. -/

theorem secondByte_bits (marker : Bool) {payloadType : UInt8} (h : payloadType ≤ 0x7F) :
    decide (secondByte marker payloadType &&& 0x80 ≠ 0) = marker ∧
      secondByte marker payloadType &&& 0x7f = payloadType ∧
      secondByte marker payloadType &&& 0x80 = (if marker then 0x80 else 0) ∧
      ∀ marker', (if marker' then secondByte marker payloadType ||| 0x80
        else secondByte marker payloadType &&& 0x7F) = secondByte marker' payloadType := by
  have hbits : ∀ t : BitVec 8, t ≤ 0x7F → ∀ m : Bool,
      decide (secondByte m ⟨t⟩ &&& 0x80 ≠ 0) = m ∧ secondByte m ⟨t⟩ &&& 0x7f = ⟨t⟩ ∧
        secondByte m ⟨t⟩ &&& 0x80 = (if m then 0x80 else 0) ∧ ∀ m' : Bool, (if m' then
          secondByte m ⟨t⟩ ||| 0x80 else secondByte m ⟨t⟩ &&& 0x7F) = secondByte m' ⟨t⟩ := by decide
  exact hbits payloadType.toBitVec h marker

theorem firstByte_bits : ∀ (pad ext : Bool) (n : Nat), n ≤ 15 →
    (firstByte pad ext n &&& 0x0F).toNat = n ∧ firstByte pad ext n >>> 6 = 2 ∧
      decide (firstByte pad ext n &&& 0x20 ≠ 0) = pad ∧
      decide (firstByte pad ext n &&& 0x10 ≠ 0) = ext := by
  decide

theorem firstByte_set : ∀ (pad ext : Bool) (n : Nat), n ≤ 15 →
    firstByte pad ext n ||| 0x10 = firstByte pad true n ∧
      firstByte pad ext n ||| 0x20 = firstByte true ext n ∧
      firstByte pad ext n &&& ~~~0x20 = firstByte false ext n ∧
      ∀ m < 16, firstByte pad ext n &&& 0xF0 ||| UInt8.ofNat m = firstByte pad ext m := by
  decide

/-! The parts of the layout. -/

section Parts

variable {c : Content} {two : Bool} {memory : List UInt8}

theorem Content.length_fixedHeader (c : Content) : c.fixedHeader.length = kFixedHeaderSize := rfl

theorem Content.length_csrcBytes (c : Content) : c.csrcBytes.length = c.csrcs.length * 4 :=
  length_flatMap_encode length_bigEndian32 c.csrcs

theorem Content.length_extBytes_le_words (c : Content) (two : Bool) :
    (c.extBytes two).length ≤ 4 * c.words two := by
  unfold words
  omega

theorem Content.length_headers (c : Content) (two : Bool) :
    (c.headers two).length = c.headersSize two := by
  have hle := c.length_extBytes_le_words two
  simp only [headers, block, length_append, length_fixedHeader, length_csrcBytes, headersSize,
    extensionsOffset, csrcsEnd]
  split
  · rfl
  · simp only [length_append, length_bigEndian16, length_replicate]
    omega

theorem Content.length_paddingBytes (c : Content) : c.paddingBytes.length = c.padding := by
  unfold paddingBytes
  split
  · next h => rw [h, length_nil]
  · rw [length_append, length_replicate, length_singleton]
    omega

theorem Content.length_bytes (c : Content) (two : Bool) :
    (c.bytes two).length = c.headersSize two + c.payload.length + c.padding := by
  rw [bytes, length_append, length_append, length_headers, length_paddingBytes, Nat.add_assoc]

theorem holds_headers : Holds memory 0 (c.headers two) ↔ Holds memory 0 c.fixedHeader ∧
    Holds memory kFixedHeaderSize c.csrcBytes ∧ Holds memory c.csrcsEnd (c.block two) := by
  simp only [headers, holds_append, length_fixedHeader, length_csrcBytes, Nat.zero_add]
  rfl

theorem holds_bytes : Holds memory 0 (c.bytes two) ↔ Holds memory 0 (c.headers two) ∧
    Holds memory (c.headersSize two) c.payload ∧
    Holds memory (c.headersSize two + c.payload.length) c.paddingBytes := by
  simp only [bytes, holds_append, length_headers, Nat.zero_add]

theorem holds_block (hexts : c.exts ≠ []) : Holds memory c.csrcsEnd (c.block two) ↔
    Holds memory c.csrcsEnd (bigEndian16 (profileId two)) ∧
      Holds memory (c.csrcsEnd + 2) (bigEndian16 (.ofNat 16 (c.words two))) ∧
      Holds memory c.extensionsOffset (c.extBytes two) ∧
      Holds memory (c.extensionsOffset + (c.extBytes two).length)
        (List.replicate (4 * c.words two - (c.extBytes two).length) 0) := by
  rw [block, if_neg (by simpa using hexts)]
  simp only [holds_append, length_append, length_bigEndian16, and_assoc, ← Nat.add_assoc]
  rfl

theorem Content.exts_eq_nil (h : (c.extBytes two).length = 0) : c.exts = [] := by
  rcases hexts : c.exts with _ | ⟨e, rest⟩
  · rfl
  · rw [extBytes, hexts, flatMap_cons, length_append, Extension.length_bytes] at h
    cases two <;> simp [extensionHeaderSize] at h

theorem writeAt_bind_eq_some {α : Type} {b : CopyOnWriteBuffer} {offset : Nat} {bytes : List UInt8}
    {f : CopyOnWriteBuffer → Option α} {a : α} : b.writeAt offset bytes >>= f = some a ↔
      ∃ memory, write b.memory offset bytes = some memory ∧ f ⟨memory, b.size⟩ = some a := by
  simp only [bind_eq_bind, bind_eq_some_iff, writeAt, map_eq_some_iff]
  exact ⟨fun ⟨_, ⟨m, h, rfl⟩, hf⟩ => ⟨m, h, hf⟩, fun ⟨m, h, hf⟩ => ⟨_, ⟨m, h, rfl⟩, hf⟩⟩

theorem write_nil {buf : List UInt8} {offset : Nat} (h : offset ≤ buf.length) :
    write buf offset [] = some buf := by
  rw [write, length_nil, Nat.add_zero, if_pos h, store_nil]

theorem setSize_of_le {b : CopyOnWriteBuffer} {n : Nat} (h : n ≤ b.memory.length) :
    b.setSize n = ⟨b.memory, n⟩ := if_pos h

theorem exists_setSize {b : CopyOnWriteBuffer} {l rest : List UInt8}
    (h : Holds b.memory 0 (l ++ rest)) (hsize : (l ++ rest).length = b.size) (n : Nat) :
    ∃ memory, b.setSize n = ⟨memory, n⟩ ∧ Holds memory 0 l ∧ n ≤ memory.length := by
  have hle := (holds_zero_iff.mp h).length_le
  have hl := holds_zero_iff.mp (holds_append.mp h).1
  rw [length_append] at hle hsize
  unfold setSize capacity
  split
  · next hn => exact ⟨_, rfl, holds_zero_iff.mpr hl, hn⟩
  · refine ⟨_, rfl, holds_zero_iff.mpr ?_, ?_⟩
    · exact (prefix_take_iff.mpr ⟨hl, by omega⟩).trans (prefix_append _ _)
    · simp only [length_append, length_take, length_replicate]
      omega

theorem byteAt_zero {b : CopyOnWriteBuffer} (h : Holds b.memory 0 c.fixedHeader) :
    b.byteAt 0 = firstByte (c.padding ≠ 0) (!c.exts.isEmpty) c.csrcs.length :=
  h.getD (show 0 < 12 by decide)

theorem byteAt_one {b : CopyOnWriteBuffer} (h : Holds b.memory 0 c.fixedHeader) :
    b.byteAt 1 = secondByte c.marker c.payloadType :=
  h.getD (show 1 < 12 by decide)

variable {memory' : List UInt8} (h : Holds memory 0 c.fixedHeader)
include h

theorem numCsrc_eq (hc : c.csrcs.length ≤ 15) (extensions : RtpHeaderExtensionMap) :
    (c.packet two extensions memory).numCsrc = c.csrcs.length := by
  rw [RtpPacket.numCsrc, byteAt_zero (c := c) h]
  exact (firstByte_bits _ _ _ hc).1

theorem extensionsOffset_eq (hc : c.csrcs.length ≤ 15) (extensions : RtpHeaderExtensionMap) :
    kFixedHeaderSize + (c.packet two extensions memory).numCsrc * 4 + 4 = c.extensionsOffset := by
  rw [numCsrc_eq h hc]
  rfl

theorem holds_firstByte (c' : Content) {byte : UInt8}
    (hwrite : write memory 0 [byte] = some memory')
    (hc' : c'.fixedHeader = byte :: c.fixedHeader.tail) : Holds memory' 0 c'.fixedHeader := by
  rw [hc']
  exact Holds.replace (a := []) (o := [_]) h hwrite rfl

omit h in
/-- A write to a part of the fixed header. -/
theorem holds_of_write (h : Holds memory 0 (c.bytes two)) (c' : Content) {new : List UInt8}
    {offset : Nat} (hwrite : write memory offset new = some memory') (a old b : List UInt8)
    (hc : c.fixedHeader = a ++ (old ++ b)) (hc' : c'.fixedHeader = a ++ (new ++ b))
    (hoffset : a.length = offset) (hlength : new.length = old.length)
    (hrest : c.csrcBytes ++ c.block two ++ (c.payload ++ c.paddingBytes) =
      c'.csrcBytes ++ c'.block two ++ (c'.payload ++ c'.paddingBytes)) :
    Holds memory' 0 (c'.bytes two) := by
  rw [bytes, headers, hc, append_assoc, append_assoc, append_assoc, hrest] at h
  subst hoffset
  have hreplace := h.replace (by rwa [Nat.zero_add]) hlength
  rwa [bytes, headers, hc', append_assoc, append_assoc, append_assoc]

end Parts

theorem Content.fixedHeader_of_bytes {c : Content} {two : Bool} {memory : List UInt8}
    (h : Holds memory 0 (c.bytes two)) : Holds memory 0 c.fixedHeader :=
  (holds_headers.mp (holds_bytes.mp h).1).1

/-! The setters of the fixed header. -/

theorem setPadding_cases {p p' : RtpPacket} {n : Nat} {accepted : Bool}
    (h : p.setPadding n = some (accepted, p')) : (accepted = false ∧ p' = p) ∨
      accepted = true ∧ n < 2 ^ 8 ∧ ∃ m₁ m₂,
      write p.buffer.memory (p.payloadOffset + p.payloadSize)
        (if n = 0 then [] else List.replicate (n - 1) 0 ++ [UInt8.ofNat n]) = some m₁ ∧
      write m₁ 0 [if n = 0 then m₁.getD 0 0 &&& ~~~0x20 else m₁.getD 0 0 ||| 0x20] = some m₂ ∧
      p' = { p with
        paddingSize := n, buffer := ⟨m₂, p.payloadOffset + p.payloadSize + n⟩ } := by
  unfold RtpPacket.setPadding at h
  by_cases hcapacity : p.payloadOffset + p.payloadSize + n > p.capacity
  · rw [if_pos hcapacity] at h
    cases h
    exact .inl ⟨rfl, rfl⟩
  · rw [if_neg hcapacity, setSize_of_le (not_lt.mp hcapacity)] at h
    obtain ⟨_, hguard, h⟩ := bind_eq_some_iff.mp h
    have hn := (guard_eq_some' _).mp hguard
    by_cases hzero : n = 0
    · subst hzero
      obtain ⟨m₂, h₂, ⟨⟩⟩ := writeAt_bind_eq_some.mp h
      exact .inr ⟨rfl, hn, _, m₂, write_nil (not_lt.mp hcapacity), h₂, rfl⟩
    · rw [if_pos (Nat.pos_of_ne_zero hzero)] at h
      obtain ⟨m₁, h₁, h⟩ := writeAt_bind_eq_some.mp h
      obtain ⟨m₂, h₂, ⟨⟩⟩ := writeAt_bind_eq_some.mp h
      simp only [hzero, if_false]
      exact .inr ⟨trivial, hn, m₁, m₂, h₁, h₂, rfl⟩

namespace RtpPacket.Carries

variable {p p' : RtpPacket} {c : Content} {two : Bool} (h : p.Carries c two)
include h

theorem setMarker (ht : c.payloadType ≤ 0x7F) {marker : Bool}
    (hset : p.setMarker marker = some p') : p'.Carries { c with marker } two := by
  obtain ⟨_, extensions, hm⟩ := h
  obtain ⟨memory', hwrite, ⟨⟩⟩ := writeAt_bind_eq_some.mp hset
  rw [byteAt_one (c := c) (fixedHeader_of_bytes hm), (secondByte_bits _ ht).2.2.2] at hwrite
  exact .packet _ extensions
    (holds_of_write hm { c with marker } hwrite [_] [_] _ rfl rfl rfl rfl rfl)

theorem setPayloadType (ht : c.payloadType ≤ 0x7F) {payloadType : UInt8}
    (hset : p.setPayloadType payloadType = some p') :
    payloadType ≤ 0x7F ∧ p'.Carries { c with payloadType } two := by
  obtain ⟨_, extensions, hm⟩ := h
  obtain ⟨_, hguard, hset⟩ := bind_eq_some_iff.mp hset
  obtain ⟨memory', hwrite, ⟨⟩⟩ := writeAt_bind_eq_some.mp hset
  rw [byteAt_one (c := c) (fixedHeader_of_bytes hm), (secondByte_bits _ ht).2.2.1] at hwrite
  exact ⟨(guard_eq_some' _).mp hguard,
    .packet _ extensions
      (holds_of_write hm { c with payloadType } hwrite [_] [_] _ rfl rfl rfl rfl rfl)⟩

theorem setSequenceNumber {sequenceNumber : BitVec 16}
    (hset : p.setSequenceNumber sequenceNumber = some p') :
    p'.Carries { c with sequenceNumber } two := by
  obtain ⟨_, extensions, hm⟩ := h
  obtain ⟨memory', hwrite, ⟨⟩⟩ := writeAt_bind_eq_some.mp hset
  exact .packet _ extensions
    (holds_of_write hm { c with sequenceNumber } hwrite [_, _] (bigEndian16 c.sequenceNumber) _
      rfl rfl rfl rfl rfl)

theorem setTimestamp {timestamp : BitVec 32} (hset : p.setTimestamp timestamp = some p') :
    p'.Carries { c with timestamp } two := by
  obtain ⟨_, extensions, hm⟩ := h
  obtain ⟨memory', hwrite, ⟨⟩⟩ := writeAt_bind_eq_some.mp hset
  exact .packet _ extensions (holds_of_write hm { c with timestamp } hwrite
    ([_, _] ++ bigEndian16 c.sequenceNumber)
    (bigEndian32 c.timestamp) _ rfl rfl rfl rfl rfl)

theorem setSsrc {ssrc : BitVec 32} (hset : p.setSsrc ssrc = some p') :
    p'.Carries { c with ssrc } two := by
  obtain ⟨_, extensions, hm⟩ := h
  obtain ⟨memory', hwrite, ⟨⟩⟩ := writeAt_bind_eq_some.mp hset
  exact .packet _ extensions (holds_of_write hm { c with ssrc } hwrite
    ([_, _] ++ bigEndian16 c.sequenceNumber ++ bigEndian32 c.timestamp) (bigEndian32 c.ssrc) []
    rfl rfl rfl rfl rfl)

/-! The setters that move the end of the packet. -/

theorem setCsrcs (hc : c.csrcs.length ≤ 15) {csrcs : List (BitVec 32)}
    (hset : p.setCsrcs csrcs = some p') :
    csrcs.length ≤ 15 ∧ p'.Carries { c with csrcs } two := by
  obtain ⟨_, extensions, hm⟩ := h
  simp only [RtpPacket.setCsrcs, bind_eq_bind, bind_eq_some_iff, guard_eq_some', writeAt,
    map_eq_some_iff] at hset
  obtain ⟨_, ⟨hext, hpayload, hpadding⟩, _, hlength, _, ⟨m₁, h₁, rfl⟩, _, ⟨m₂, h₂, rfl⟩, ⟨⟩⟩ := hset
  have hsources := length_flatMap_encode length_bigEndian32 csrcs
  have hfits := length_of_write h₂
  rw [byteAt_zero (c := c) (fixedHeader_of_bytes hm), (firstByte_set _ _ _ hc).2.2.2 _ (by omega)]
    at h₁
  obtain ⟨marker, type, number, time, ssrc, old, exts, payload, padding⟩ := c
  obtain rfl : exts = [] := exts_eq_nil hext
  obtain rfl : payload = [] := length_eq_zero_iff.mp hpayload
  obtain rfl : padding = 0 := hpadding
  have hfixed := holds_firstByte (fixedHeader_of_bytes hm)
    ⟨marker, type, number, time, ssrc, csrcs, [], [], 0⟩ h₁ rfl
  rw [setSize_of_le (by simp only; omega), Nat.mul_comm 4]
  have hheaders : Holds m₂ 0
      (headers ⟨marker, type, number, time, ssrc, csrcs, [], [], 0⟩ two) :=
    holds_headers.mpr ⟨hfixed.frame h₂ (.inl le_rfl), .of_write h₂, holds_nil⟩
  exact ⟨hlength, .packet _ extensions (holds_bytes.mpr ⟨hheaders, holds_nil, holds_nil⟩)⟩

theorem setPayloadSize {n : Nat} (hset : p.setPayloadSize n = some p') :
    ∃ data, data.length = n ∧ p'.Carries { c with payload := data } two := by
  obtain ⟨_, extensions, hm⟩ := h
  obtain ⟨_, hguard, ⟨⟩⟩ := bind_eq_some_iff.mp hset
  obtain ⟨memory', hb, hkept, hfits⟩ := exists_setSize (b := (c.packet two extensions _).buffer) hm
    (c.length_bytes two) ((c.packet two extensions _).payloadOffset + n)
  obtain ⟨data, hdata, hholds⟩ : ∃ data, data.length = n ∧ Holds memory' (c.headersSize two) data :=
    ⟨_, holds_take_drop memory' hfits⟩
  subst hdata
  obtain ⟨marker, type, number, time, ssrc, csrcs, exts, payload, padding⟩ := c
  obtain rfl : padding = 0 := (guard_eq_some' _).mp hguard
  rw [hb]
  have hbytes : Holds memory' 0
      (Content.bytes ⟨marker, type, number, time, ssrc, csrcs, exts, data, 0⟩ two) :=
    holds_bytes.mpr ⟨hkept, hholds, holds_nil⟩
  exact ⟨data, rfl, .packet _ extensions hbytes⟩

theorem setPayload {bytes : List UInt8} (hset : p.setPayload bytes = some p') :
    p'.Carries { c with payload := bytes } two := by
  obtain ⟨p₁, h₁, hset⟩ := bind_eq_some_iff.mp hset
  obtain ⟨p₂, h₂, hset⟩ := bind_eq_some_iff.mp hset
  obtain ⟨_, -, hp₁⟩ := h.setPayloadSize h₁
  obtain ⟨data, hdata, hp₂⟩ := hp₁.setPayloadSize h₂
  obtain ⟨_, extensions, hm⟩ := hp₂
  obtain ⟨memory', hwrite, ⟨⟩⟩ := writeAt_bind_eq_some.mp hset
  have hoffset : c.headersSize two = 0 + (c.headers two).length := by
    rw [length_headers, Nat.zero_add]
  have hbytes : Holds memory' 0 (Content.bytes { c with payload := bytes } two) :=
    hm.replace (hoffset ▸ hwrite) hdata.symm
  rw [Content.packet, hdata]
  exact .packet _ extensions hbytes

theorem setPadding (hc : c.csrcs.length ≤ 15) {padding : Nat} {accepted : Bool}
    (hset : p.setPadding padding = some (accepted, p')) : (accepted = false ∧ p' = p) ∨
      accepted = true ∧ padding < 2 ^ 8 ∧ p'.Carries { c with padding } two := by
  obtain ⟨_, extensions, hm⟩ := h
  refine (setPadding_cases hset).imp_right fun ⟨haccepted, hlt, m₁, m₂, h₁, h₂, hp'⟩ => ?_
  subst hp'
  obtain ⟨hheaders, hpayload, -⟩ := holds_bytes.mp hm
  have hfirst := firstByte_set (c.padding ≠ 0) (!c.exts.isEmpty) c.csrcs.length hc
  have hpart := hheaders.frame h₁ (.inl (by
    rw [length_headers, Nat.zero_add]
    exact Nat.le_add_right _ _))
  obtain ⟨hfixed, hcsrcs, hblock⟩ := holds_headers.mp hpart
  have hbyte : (if padding = 0 then m₁.getD 0 0 &&& ~~~0x20 else m₁.getD 0 0 ||| 0x20) =
      firstByte (padding ≠ 0) (!c.exts.isEmpty) c.csrcs.length := by
    rw [← Nat.zero_add 0, hfixed.getD (show 0 < 12 by decide)]
    by_cases hzero : padding = 0 <;> simp only [hzero, if_true, if_false, ne_eq, not_true,
      not_false_eq_true, decide_true, decide_false]
    · exact hfirst.2.2.1
    · exact hfirst.2.1
  rw [hbyte] at h₂
  have hone : 1 ≤ kFixedHeaderSize := by decide
  have hpositive : 1 ≤ c.headersSize two := by
    rw [← length_headers, Content.headers, length_append, length_fixedHeader]
    exact Nat.le_add_right_of_le hone
  have hbytes : Holds m₂ 0 (Content.bytes { c with padding } two) :=
    holds_bytes.mpr ⟨holds_headers.mpr ⟨holds_firstByte hfixed { c with padding } h₂ rfl,
      hcsrcs.frame h₂ (.inr hone), hblock.frame h₂ (.inr (Nat.le_add_right_of_le hone))⟩,
      (hpayload.frame h₁ (.inl le_rfl)).frame h₂ (.inr hpositive),
      (Holds.of_write h₁).frame h₂ (.inr (Nat.le_add_right_of_le hpositive))⟩
  exact ⟨haccepted, hlt, .packet _ extensions hbytes⟩

end RtpPacket.Carries

end WebRtc.Rtp
