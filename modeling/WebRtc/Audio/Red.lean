import WebRtc.Lib.ByteReader
import WebRtc.Lib.Checked

/-! Redundant audio encodings: `AudioEncoderCopyRed` puts earlier encodings in front of the
primary one, `RedPayloadSplitter` takes a packet apart again. -/

namespace WebRtc.Audio.Red

open ByteBuffer List

structure EncodedInfoLeaf where
  encodedBytes : Nat
  encodedTimestamp : BitVec 32
  payloadType : BitVec 32
  deriving DecidableEq

structure EncodedInfo extends EncodedInfoLeaf where
  redundant : List EncodedInfoLeaf
  deriving DecidableEq

structure Encoding where
  info : EncodedInfoLeaf
  data : List UInt8
  deriving DecidableEq

structure AudioEncoderCopyRed where
  maxPacketLength : BitVec 64
  redPayloadType : BitVec 32
  redundantEncodings : List Encoding
  deriving DecidableEq

def getMaxRedundancyFromFieldTrial : Option Nat → Nat
  | none => 1
  | some redundancy => if redundancy > 9 then 1 else redundancy

def noEncoding : Encoding := ⟨⟨0, 0, 0⟩, []⟩

namespace AudioEncoderCopyRed

def initial (trial : Option Nat) (payloadType : BitVec 32) : AudioEncoderCopyRed :=
  ⟨1200, payloadType, List.replicate (getMaxRedundancyFromFieldTrial trial) noEncoding⟩

def fitting (rtpTimestamp : BitVec 32) : Nat → List Encoding → List Encoding
  | _, [] => []
  | bytesAvailable, e :: es =>
    if bytesAvailable < 4 + e.info.encodedBytes then []
    else if e.info.encodedBytes = 0 then []
    else if 2 ^ 14 ≤ (rtpTimestamp - e.info.encodedTimestamp).toNat then []
    else e :: fitting rtpTimestamp (bytesAvailable - (4 + e.info.encodedBytes)) es

def blockHeader (payloadType timestampDelta : BitVec 32) (encodedBytes : Nat) : List UInt8 :=
  bigEndian8 ((payloadType ||| 0x80).setWidth 8) ++
    (bigEndian16 (BitVec.ofNat 16 ((timestampDelta <<< 2).toNat ||| encodedBytes >>> 8)) ++
      bigEndian8 (BitVec.ofNat 8 (encodedBytes &&& 0xff)))

def encodeRed (info : EncodedInfoLeaf) (redundant : List Encoding) (primary : List UInt8) :
    List UInt8 :=
  redundant.reverse.flatMap (fun e => blockHeader e.info.payloadType
      (info.encodedTimestamp - e.info.encodedTimestamp) e.info.encodedBytes) ++
    (bigEndian8 (info.payloadType.setWidth 8) ++
      (redundant.reverse.flatMap Encoding.data ++ primary))

def encodeImpl (s : AudioEncoderCopyRed) (rtpTimestamp : BitVec 32) (primary : Encoding) :
    Option (AudioEncoderCopyRed × EncodedInfo × List UInt8) := do
  let info := primary.info
  guard (primary.data.length = info.encodedBytes)
  if info.encodedBytes = 0 then return (s, ⟨info, []⟩, [])
  else if 1024 ≤ info.encodedBytes then return (s, ⟨info, []⟩, primary.data)
  else
    guard (info.encodedBytes < s.maxPacketLength.toNat)
    let redundant := fitting rtpTimestamp (s.maxPacketLength.toNat - info.encodedBytes)
      s.redundantEncodings
    let encoded := encodeRed info redundant primary.data
    let infos := redundant.reverse.map Encoding.info ++ if redundant = [] then [] else [info]
    -- The encodings move one place back, the last one is forgotten.
    let shifted := (primary :: s.redundantEncodings).take s.redundantEncodings.length
    return ({ s with redundantEncodings := shifted },
      ⟨⟨encoded.length, info.encodedTimestamp, s.redPayloadType⟩, infos⟩, encoded)

def reset (s : AudioEncoderCopyRed) : AudioEncoderCopyRed :=
  { s with redundantEncodings := List.replicate s.redundantEncodings.length noEncoding }

def onReceivedOverhead (s : AudioEncoderCopyRed) (overheadBytesPerPacket : BitVec 64) :
    AudioEncoderCopyRed :=
  { s with maxPacketLength := 1200 - overheadBytesPerPacket }

end AudioEncoderCopyRed

open AudioEncoderCopyRed

structure Packet where
  timestamp : BitVec 32
  sequenceNumber : BitVec 16
  payloadType : BitVec 8
  payload : List UInt8
  redLevel : Nat
  deriving DecidableEq

structure RedHeader where
  payloadType : BitVec 8
  timestamp : BitVec 32
  payloadLength : Int
  deriving DecidableEq

def RedHeader.stored (h : RedHeader) : List RedHeader := if h.payloadLength = 0 then [] else [h]

def readHeaders (payload : List UInt8) (timestamp : BitVec 32) :
    Nat → Nat → Nat → Nat → Option (Option (List RedHeader × Nat))
  | 0, _, _, _ => none
  | fuel + 1, ptr, payloadLength, sumLength => do
    if payloadLength = 0 then return none
    else
      let first := (← payload[ptr]?).toBitVec
      if first &&& 0x80 = 0 then
        let header : RedHeader := ⟨first &&& 0x7F, timestamp, payload.length - (sumLength + 1)⟩
        return some (header.stored, ptr + 1)
      else if payloadLength < 4 then return none
      else
        let second := (← payload[ptr + 1]?).toNat
        let third := (← payload[ptr + 2]?).toNat
        let fourth := (← payload[ptr + 3]?).toNat
        let timestampOffset := second <<< 6 + (third &&& 0xFC) >>> 2
        let length := (third &&& 0x03) <<< 8 + fourth
        let header : RedHeader := ⟨first &&& 0x7F, timestamp - BitVec.ofNat 32 timestampOffset, length⟩
        let rest ← readHeaders payload timestamp fuel (ptr + 4) (payloadLength - 4)
          (sumLength + length + 4)
        return rest.map fun (headers, ptr) => (header.stored ++ headers, ptr)

/-- It fails at a length that wrapped around, where the address would wrap as well. -/
def splitBlocks (redPacket : Packet) (count : Nat) :
    Nat → Nat → List RedHeader → Option (Bool × List Packet)
  | _, _, [] => some (true, [])
  | i, ptr, header :: headers => do
    guard (0 ≤ header.payloadLength)
    let length := header.payloadLength.toNat
    if redPacket.payload.length < ptr + length then return (false, [])
    else
      let newPacket : Packet := ⟨header.timestamp, redPacket.sequenceNumber, header.payloadType,
        (redPacket.payload.drop ptr).take length, count - 1 - i⟩
      let (ok, newPackets) ← splitBlocks redPacket count (i + 1) (ptr + length) headers
      return (ok, newPackets ++ [newPacket])

def maxRedBlocks : Nat := 32

def splitPacket (redPacket : Packet) (headers : List RedHeader) (ptr : Nat) :
    Option (Bool × List Packet) :=
  if headers.length ≤ maxRedBlocks then splitBlocks redPacket headers.length 0 ptr headers
  else some (false, [])

def splitRed : List Packet → Option (Bool × List Packet)
  | [] => some (true, [])
  | redPacket :: packets => do
    let size := redPacket.payload.length
    match ← readHeaders redPacket.payload redPacket.timestamp (size + 1) 0 size 0 with
    | none => return (false, redPacket :: packets)
    | some (headers, ptr) =>
      let (ok, newPackets) ← splitPacket redPacket headers ptr
      let (okRest, rest) ← splitRed packets
      return (ok && okRest, newPackets ++ rest)

/-! ### Any payload -/

def totalLength (headers : List RedHeader) : Int := (headers.map RedHeader.payloadLength).sum

theorem RedHeader.stored_cases (h : RedHeader) :
    h.stored = [] ∧ h.payloadLength = 0 ∨ h.stored = [h] := by
  unfold stored
  split
  · exact .inl ⟨rfl, ‹_›⟩
  · exact .inr rfl

theorem RedHeader.totalLength_stored (h : RedHeader) : totalLength h.stored = h.payloadLength := by
  rcases h.stored_cases with ⟨hnil, hzero⟩ | hone
  · rw [hnil, hzero]
    rfl
  · rw [hone]
    exact add_zero _

theorem totalLength_append (a b : List RedHeader) :
    totalLength (a ++ b) = totalLength a + totalLength b := by
  rw [totalLength, map_append, sum_append]
  rfl

def Covering (size ptr : Nat) (extra : Int) (headers : List RedHeader) : Prop :=
  ∃ init last, headers = init ++ last ∧ (∀ h ∈ init, 0 ≤ h.payloadLength) ∧
    (last = [] ∨ ∃ h, last = [h] ∧ h.payloadLength + totalLength init + extra + ptr = size)

theorem ensures_getElem? {payload : List UInt8} {i : Nat} (h : i < payload.length) :
    Ensures payload[i]? fun _ => True := ⟨payload[i], List.getElem?_eq_getElem h, trivial⟩

theorem readHeaders_total (payload : List UInt8) (timestamp : BitVec 32) {fuel ptr payloadLength : Nat}
    (extra : Nat) (hsize : ptr + payloadLength = payload.length) (hfuel : payloadLength < fuel) :
    Ensures (readHeaders payload timestamp fuel ptr payloadLength (ptr + extra)) fun result =>
      ∀ headers next, result = some (headers, next) →
        next ≤ payload.length ∧ Covering payload.length next extra headers := by
  induction fuel generalizing ptr payloadLength extra with
  | zero => omega
  | succ fuel ih =>
    rw [readHeaders]
    by_cases hzero : payloadLength = 0
    · rw [if_pos hzero]
      exact .some nofun
    rw [if_neg hzero]
    refine (ensures_getElem? (by omega)).bind fun first _ => ?_
    by_cases hlast : first.toBitVec &&& 0x80 = 0
    · rw [if_pos hlast]
      refine .some fun headers next heq => ?_
      obtain ⟨rfl, rfl⟩ := Prod.mk.inj (Option.some.inj heq)
      refine ⟨by omega, [], _, rfl, nofun, ?_⟩
      refine (RedHeader.stored_cases _).imp And.left fun hone => ⟨_, hone, ?_⟩
      simp only [totalLength, map_nil, sum_nil]
      omega
    rw [if_neg hlast]
    by_cases hshort : payloadLength < 4
    · rw [if_pos hshort]
      exact .some nofun
    rw [if_neg hshort]
    refine (ensures_getElem? (by omega)).bind fun second _ => ?_
    refine (ensures_getElem? (by omega)).bind fun third _ => ?_
    refine (ensures_getElem? (by omega)).bind fun fourth _ => ?_
    dsimp only
    generalize (third.toNat &&& 0x03) <<< 8 + fourth.toNat = length
    have hnext := ih (extra + length) (show ptr + 4 + (payloadLength - 4) = payload.length by omega)
      (by omega)
    rw [show ptr + 4 + (extra + length) = ptr + extra + length + 4 by omega] at hnext
    refine hnext.bind fun result hresult => .some fun headers next heq => ?_
    obtain ⟨⟨headers', next'⟩, hsome, heq⟩ := Option.map_eq_some_iff.mp heq
    obtain ⟨rfl, rfl⟩ := Prod.mk.inj heq
    obtain ⟨hle, init, last, rfl, hinit, hcover⟩ := hresult _ _ hsome
    refine ⟨hle, _ ++ init, last, (append_assoc ..).symm, ?_, ?_⟩
    · intro h hh
      rcases mem_append.mp hh with hh | hh
      · rcases RedHeader.stored_cases _ with ⟨hnil, -⟩ | hone
        · rw [hnil] at hh
          cases hh
        · rw [hone] at hh
          rw [mem_singleton.mp hh]
          exact Int.natCast_nonneg _
      · exact hinit h hh
    · refine hcover.imp_right fun ⟨h, hlast, hsum⟩ => ⟨h, hlast, ?_⟩
      rw [totalLength_append, RedHeader.totalLength_stored]
      push_cast at hsum
      dsimp only
      omega

theorem splitBlocks_cons {redPacket : Packet} {count i ptr : Nat} {header : RedHeader}
    {headers : List RedHeader} (hlength : 0 ≤ header.payloadLength)
    (htail : ptr + header.payloadLength.toNat ≤ redPacket.payload.length →
      Ensures (splitBlocks redPacket count (i + 1) (ptr + header.payloadLength.toNat) headers)
        fun result => ∀ q ∈ result.2, q.payload <:+: redPacket.payload) :
    Ensures (splitBlocks redPacket count i ptr (header :: headers)) fun result =>
      ∀ q ∈ result.2, q.payload <:+: redPacket.payload := by
  rw [splitBlocks]
  refine .guard_bind hlength ?_
  dsimp only
  refine .ite (fun _ => .some nofun) fun hfits => ?_
  refine (htail (by omega)).bind fun result hresult => .some fun q hq => ?_
  rcases mem_append.mp hq with hq | hq
  · exact hresult q hq
  · rw [mem_singleton.mp hq]
    exact (List.take_prefix _ _).isInfix.trans (drop_suffix _ _).isInfix

theorem splitBlocks_total (redPacket : Packet) (count i : Nat) {ptr : Nat} {headers : List RedHeader}
    (hptr : ptr ≤ redPacket.payload.length) (h : Covering redPacket.payload.length ptr 0 headers) :
    Ensures (splitBlocks redPacket count i ptr headers) fun result =>
      ∀ q ∈ result.2, q.payload <:+: redPacket.payload := by
  obtain ⟨init, last, rfl, hinit, hlast⟩ := h
  induction init generalizing i ptr with
  | nil =>
    rcases hlast with rfl | ⟨h, rfl, hsum⟩
    · exact .some nofun
    · refine splitBlocks_cons ?_ fun _ => .some nofun
      simp only [totalLength, map_nil, sum_nil] at hsum
      omega
  | cons header init ih =>
    have hlength := hinit header mem_cons_self
    refine splitBlocks_cons hlength fun hfits => ?_
    refine ih (i + 1) hfits (fun h hh => hinit h (mem_cons_of_mem _ hh)) ?_
    refine hlast.imp_right fun ⟨h, hlast, hsum⟩ => ⟨h, hlast, ?_⟩
    simp only [totalLength, map_cons, sum_cons] at hsum ⊢
    omega

theorem splitRed_total (packets : List Packet) : Ensures (splitRed packets) fun result =>
      ∀ q ∈ result.2, ∃ p ∈ packets, q.payload <:+: p.payload := by
  induction packets with
  | nil => exact .some nofun
  | cons redPacket packets ih =>
    rw [splitRed]
    have hheaders := readHeaders_total redPacket.payload redPacket.timestamp 0
      (show 0 + redPacket.payload.length = _ from Nat.zero_add _) (Nat.lt_succ_self _)
    refine hheaders.bind fun result hresult => ?_
    cases result with
    | none => exact .some fun q hq => ⟨q, hq, infix_refl _⟩
    | some result =>
      obtain ⟨headers, ptr⟩ := result
      obtain ⟨hptr, hcover⟩ := hresult _ _ rfl
      have hblocks : Ensures (splitPacket redPacket headers ptr) fun result =>
          ∀ q ∈ result.2, q.payload <:+: redPacket.payload :=
        .ite (fun _ => splitBlocks_total redPacket _ 0 hptr hcover) fun _ => .some nofun
      refine hblocks.bind fun split hsplit => ?_
      refine ih.bind fun rest hrest => ?_
      refine .some fun q hq => ?_
      rcases mem_append.mp hq with hq | hq
      · exact ⟨redPacket, mem_cons_self, hsplit q hq⟩
      · obtain ⟨p, hp, hinfix⟩ := hrest q hq
        exact ⟨p, mem_cons_of_mem _ hp, hinfix⟩

/-! ### Packets of the encoder -/

structure Encoding.Valid (e : Encoding) : Prop where
  size : e.data.length = e.info.encodedBytes
  pos : 0 < e.info.encodedBytes
  small : e.info.encodedBytes < 1024
  payloadType : e.info.payloadType.toNat < 128

def Encoding.packet (e : Encoding) (sequenceNumber : BitVec 16) (redLevel : Nat) : Packet :=
  ⟨e.info.encodedTimestamp, sequenceNumber, e.info.payloadType.setWidth 8, e.data, redLevel⟩

def Encoding.header (e : Encoding) : RedHeader :=
  ⟨e.info.payloadType.setWidth 8, e.info.encodedTimestamp, e.data.length⟩

theorem Encoding.Valid.stored_header {e : Encoding} (he : e.Valid) :
    e.header.stored = [e.header] := by
  rcases e.header.stored_cases with ⟨-, hzero⟩ | hone
  · have hpos := he.pos
    have hsize := he.size
    have : (e.data.length : Int) = 0 := hzero
    omega
  · exact hone

theorem and_three_shift (n : Nat) (h : n < 256) : (n &&& 0xFC) >>> 2 = n / 4 := by
  rw [Nat.shiftRight_and_distrib, show 0xFC >>> 2 = 2 ^ 6 - 1 from rfl,
    Nat.and_two_pow_sub_one_eq_mod, Nat.shiftRight_eq_div_pow]
  omega

theorem blockHeader_fields {delta length : Nat} (hlength : length < 1024)
    {v : BitVec 16} (hv : v.toNat = delta * 4 + length / 256) :
    (v.extractLsb' 8 8).toNat <<< 6 + ((v.extractLsb' 0 8).toNat &&& 0xFC) >>> 2 = delta ∧
      ((v.extractLsb' 0 8).toNat &&& 0x03) <<< 8 + (BitVec.ofNat 8 (length &&& 0xff)).toNat =
        length := by
  have hhigh : (v.extractLsb' 8 8).toNat = v.toNat / 256 % 256 := by
    rw [BitVec.extractLsb'_toNat, Nat.shiftRight_eq_div_pow]
  have hlow : (v.extractLsb' 0 8).toNat = v.toNat % 256 := by
    rw [BitVec.extractLsb'_toNat, Nat.shiftRight_zero]
  rw [hhigh, hlow, and_three_shift _ (Nat.mod_lt _ (by decide)),
    Nat.and_two_pow_sub_one_eq_mod _ 2, BitVec.toNat_ofNat, Nat.and_two_pow_sub_one_eq_mod _ 8,
    Nat.shiftLeft_eq, Nat.shiftLeft_eq]
  omega

theorem toNat_delta_or {delta : BitVec 32} {length : Nat} (hdelta : delta.toNat < 2 ^ 14)
    (hlength : length < 1024) : (BitVec.ofNat 16 ((delta <<< 2).toNat ||| length >>> 8)).toNat =
      delta.toNat * 4 + length / 256 := by
  have hshift : (delta <<< 2).toNat = delta.toNat <<< 2 := by
    rw [BitVec.toNat_shiftLeft, Nat.shiftLeft_eq]
    omega
  have hlow : length >>> 8 < 2 ^ 2 := by
    rw [Nat.shiftRight_eq_div_pow]
    omega
  rw [hshift, ← Nat.shiftLeft_add_eq_or_of_lt hlow, BitVec.toNat_ofNat, Nat.shiftLeft_eq,
    Nat.shiftRight_eq_div_pow]
  omega

theorem payloadType_bits {payloadType : BitVec 32} (h : payloadType.toNat < 128) :
    (payloadType ||| 0x80).setWidth 8 &&& 0x80 ≠ 0 ∧
      (payloadType ||| 0x80).setWidth 8 &&& 0x7F = payloadType.setWidth 8 ∧
      payloadType.setWidth 8 &&& 0x80 = 0 ∧
      payloadType.setWidth 8 &&& 0x7F = payloadType.setWidth 8 := by
  have hall : ∀ n : Fin 128, (BitVec.ofNat 8 n ||| 0x80) &&& 0x80 ≠ 0 ∧
      (BitVec.ofNat 8 n ||| 0x80) &&& 0x7F = BitVec.ofNat 8 n ∧
      BitVec.ofNat 8 n &&& 0x80 = 0 ∧ BitVec.ofNat 8 n &&& 0x7F = BitVec.ofNat 8 n := by
    decide
  have hbyte : payloadType.setWidth 8 = BitVec.ofNat 8 payloadType.toNat := by
    apply BitVec.eq_of_toNat_eq
    simp
  rw [BitVec.setWidth_or, hbyte]
  exact hall ⟨payloadType.toNat, h⟩

theorem getElem?_block (pre rest : List UInt8) (b₀ b₁ b₂ b₃ : UInt8) :
    (pre ++ b₀ :: b₁ :: b₂ :: b₃ :: rest)[pre.length]? = some b₀ ∧
      (pre ++ b₀ :: b₁ :: b₂ :: b₃ :: rest)[pre.length + 1]? = some b₁ ∧
      (pre ++ b₀ :: b₁ :: b₂ :: b₃ :: rest)[pre.length + 2]? = some b₂ ∧
      (pre ++ b₀ :: b₁ :: b₂ :: b₃ :: rest)[pre.length + 3]? = some b₃ := by
  simp

theorem readHeaders_block {payload pre rest : List UInt8} {e : Encoding} {timestamp : BitVec 32}
    (he : e.Valid) (hdelta : (timestamp - e.info.encodedTimestamp).toNat < 2 ^ 14)
    (hpayload : payload = pre ++ (blockHeader e.info.payloadType
      (timestamp - e.info.encodedTimestamp) e.info.encodedBytes ++ rest)) (fuel sumLength : Nat) :
    readHeaders payload timestamp (fuel + 1) pre.length (4 + rest.length) sumLength =
      (readHeaders payload timestamp fuel (pre.length + 4) rest.length
        (sumLength + e.data.length + 4)).map (·.map fun (headers, ptr) => (e.header :: headers, ptr)) := by
  generalize hv : BitVec.ofNat 16 (((timestamp - e.info.encodedTimestamp) <<< 2).toNat |||
    e.info.encodedBytes >>> 8) = v
  have hfields := blockHeader_fields he.small (hv ▸ toNat_delta_or hdelta he.small)
  obtain ⟨hmore, htype, -⟩ := payloadType_bits he.payloadType
  have hbytes : payload = pre ++ ⟨(e.info.payloadType ||| 0x80).setWidth 8⟩ ::
      ⟨v.extractLsb' 8 8⟩ :: ⟨v.extractLsb' 0 8⟩ ::
      ⟨BitVec.ofNat 8 (e.info.encodedBytes &&& 0xff)⟩ :: rest := by
    rw [hpayload, blockHeader, hv]
    rfl
  obtain ⟨h₀, h₁, h₂, h₃⟩ := getElem?_block pre rest _ _ _ _
  rw [← hbytes] at h₀ h₁ h₂ h₃
  have hstored := he.stored_header
  have htimestamp : timestamp -
      BitVec.ofNat 32 (timestamp - e.info.encodedTimestamp).toNat = e.info.encodedTimestamp := by
    rw [BitVec.ofNat_toNat, BitVec.setWidth_eq]
    ring
  rw [readHeaders, if_neg (by omega), h₀, h₁, h₂, h₃]
  simp only [Option.bind_eq_bind, Option.bind_some, UInt8.toNat]
  rw [if_neg hmore, if_neg (by omega), hfields.1, hfields.2, htimestamp, htype, ← he.size,
    Nat.add_sub_cancel_left]
  unfold Encoding.header at hstored ⊢
  rw [hstored]
  cases readHeaders payload timestamp fuel (pre.length + 4) rest.length
    (sumLength + e.data.length + 4) <;> rfl

theorem readHeaders_last {payload pre rest : List UInt8} {payloadType timestamp : BitVec 32}
    (htype : payloadType.toNat < 128)
    (hpayload : payload = pre ++ (bigEndian8 (payloadType.setWidth 8) ++ rest)) (fuel sumLength : Nat) :
    readHeaders payload timestamp (fuel + 1) pre.length (1 + rest.length) sumLength =
      some (some (RedHeader.stored ⟨payloadType.setWidth 8, timestamp,
        payload.length - (sumLength + 1)⟩, pre.length + 1)) := by
  obtain ⟨-, -, hlast, hbits⟩ := payloadType_bits htype
  have hfirst : payload[pre.length]? = some ⟨payloadType.setWidth 8⟩ := by
    rw [hpayload, bigEndian8, List.getElem?_append_right le_rfl, Nat.sub_self]
    rfl
  rw [readHeaders, if_neg (by omega), hfirst]
  simp only [Option.bind_eq_bind, Option.bind_some]
  rw [if_pos hlast, hbits]
  rfl

theorem length_blockHeader (payloadType timestampDelta : BitVec 32) (encodedBytes : Nat) :
    (blockHeader payloadType timestampDelta encodedBytes).length = 4 := rfl

def redHeaders (timestamp : BitVec 32) (es : List Encoding) : List UInt8 :=
  es.flatMap fun e => AudioEncoderCopyRed.blockHeader e.info.payloadType
    (timestamp - e.info.encodedTimestamp) e.info.encodedBytes

theorem length_redHeaders (timestamp : BitVec 32) (es : List Encoding) :
    (redHeaders timestamp es).length = es.length * 4 := by
  simp [redHeaders, length_flatMap, length_blockHeader]

theorem readHeaders_encoded {timestamp payloadType : BitVec 32} (htype : payloadType.toNat < 128)
    {es : List Encoding} (hes : ∀ e ∈ es, e.Valid ∧ (timestamp - e.info.encodedTimestamp).toNat < 2 ^ 14)
    {payload pre rest : List UInt8} (hpayload : payload = pre ++ (redHeaders timestamp es ++
      (bigEndian8 (payloadType.setWidth 8) ++ rest))) {fuel : Nat} (hfuel : es.length < fuel)
    (extra : Nat) :
    readHeaders payload timestamp fuel pre.length (payload.length - pre.length) (pre.length + extra) =
      some (some (es.map Encoding.header ++ RedHeader.stored ⟨payloadType.setWidth 8, timestamp,
        (rest.length : Int) - (es.flatMap Encoding.data).length - extra⟩,
        payload.length - rest.length)) := by
  induction es generalizing pre fuel extra with
  | nil =>
    obtain ⟨fuel, rfl⟩ : ∃ f, fuel = f + 1 := ⟨fuel - 1, by omega⟩
    have hlength : payload.length = pre.length + (1 + rest.length) := by
      rw [hpayload]
      simp [redHeaders, bigEndian8]
      omega
    rw [redHeaders, flatMap_nil, nil_append] at hpayload
    rw [show payload.length - pre.length = 1 + rest.length by omega, readHeaders_last htype hpayload,
      show payload.length - rest.length = pre.length + 1 by omega, hlength]
    congr 5
    push_cast
    simp
    ring
  | cons e es ih =>
    obtain ⟨fuel, rfl⟩ : ∃ f, fuel = f + 1 := ⟨fuel - 1, by omega⟩
    obtain ⟨he, hdelta⟩ := hes e mem_cons_self
    generalize hheader : blockHeader e.info.payloadType
      (timestamp - e.info.encodedTimestamp) e.info.encodedBytes = header
    have hfour : header.length = 4 := by
      rw [← hheader]
      rfl
    rw [redHeaders, flatMap_cons, hheader, append_assoc] at hpayload
    change payload = pre ++ (header ++ (redHeaders timestamp es ++ _)) at hpayload
    generalize htail : redHeaders timestamp es ++ (bigEndian8 (payloadType.setWidth 8) ++ rest) = tail
      at hpayload
    have hlength : payload.length = pre.length + (4 + tail.length) := by
      rw [hpayload, length_append, length_append, hfour]
    have hnext := ih (fun e' he' => hes e' (mem_cons_of_mem _ he'))
      (by rw [hpayload, ← htail, append_assoc]) (by simpa using hfuel) (extra + e.data.length)
    rw [length_append, hfour, show payload.length - (pre.length + 4) = tail.length by omega,
      show pre.length + 4 + (extra + e.data.length) = pre.length + extra + e.data.length + 4 by omega]
      at hnext
    rw [show payload.length - pre.length = 4 + tail.length by omega,
      readHeaders_block he hdelta (hheader ▸ hpayload), hnext, flatMap_cons, length_append]
    simp only [Option.map_some, map_cons, cons_append]
    congr 7
    push_cast
    ring

theorem splitBlocks_encoded {redPacket : Packet} {count : Nat} {es : List Encoding} {i ptr : Nat}
    (hcount : count = i + es.length) (hptr : ptr ≤ redPacket.payload.length)
    (hpayload : redPacket.payload.drop ptr = es.flatMap Encoding.data) :
    splitBlocks redPacket count i ptr (es.map Encoding.header) =
      some (true, es.reverse.mapIdx fun level e => e.packet redPacket.sequenceNumber level) := by
  induction es generalizing i ptr with
  | nil => rfl
  | cons e es ih =>
    have hlength := congrArg List.length hpayload
    rw [length_drop, flatMap_cons, length_append] at hlength
    have hrest : redPacket.payload.drop (ptr + e.data.length) = es.flatMap Encoding.data := by
      rw [← drop_drop, hpayload, flatMap_cons, drop_left]
    have hnext := ih (show count = i + 1 + es.length by rw [hcount, length_cons]; omega)
      (by omega) hrest
    have hdata : (redPacket.payload.drop ptr).take e.data.length = e.data := by
      rw [hpayload, flatMap_cons, take_left]
    have hlevel : count - 1 - i = es.length := by
      rw [hcount, length_cons]
      omega
    have hnonneg : 0 ≤ e.header.payloadLength := Int.natCast_nonneg _
    have hsize : e.header.payloadLength.toNat = e.data.length := Int.toNat_natCast _
    rw [map_cons, splitBlocks]
    simp only [guard, if_pos hnonneg, Option.bind_eq_bind, Option.pure_def, Option.bind_some]
    rw [if_neg (by omega), hsize, hdata, hlevel, hnext, reverse_cons, mapIdx_concat,
      length_reverse]
    rfl

variable {primary : Encoding}

theorem splitRed_encodeRed (hprimary : primary.Valid) {redundant : List Encoding}
    (hredundant : ∀ e ∈ redundant, e.Valid ∧
      (primary.info.encodedTimestamp - e.info.encodedTimestamp).toNat < 2 ^ 14)
    (hcount : redundant.length < maxRedBlocks) (sequenceNumber : BitVec 16) (payloadType : BitVec 8)
    (redLevel : Nat) : splitRed [⟨primary.info.encodedTimestamp, sequenceNumber, payloadType,
      encodeRed primary.info redundant primary.data, redLevel⟩] =
      some (true, (primary :: redundant).mapIdx fun level e => e.packet sequenceNumber level) := by
  generalize hpayload : encodeRed primary.info redundant primary.data = payload
  generalize hrest : redundant.reverse.flatMap Encoding.data ++ primary.data = rest
  have hencoded : payload = [] ++ (redHeaders primary.info.encodedTimestamp redundant.reverse ++
      (bigEndian8 (primary.info.payloadType.setWidth 8) ++ rest)) := by
    rw [← hpayload, ← hrest]
    rfl
  have hlength : payload.length = redundant.length * 4 + (1 + rest.length) := by
    rw [hencoded, nil_append, length_append, length_append, length_redHeaders, length_reverse]
    rfl
  have hheaders := readHeaders_encoded hprimary.payloadType
    (fun e he => hredundant e (mem_reverse.mp he)) hencoded
    (show redundant.reverse.length < payload.length + 1 by rw [length_reverse]; omega) 0
  have hdrop : payload.drop (payload.length - rest.length) =
      (primary :: redundant).reverse.flatMap Encoding.data := by
    obtain ⟨front, hfront⟩ : ∃ front, payload = front ++ rest :=
      ⟨_, by rw [hencoded, nil_append, append_assoc]⟩
    rw [reverse_cons, flatMap_append, flatMap_singleton, hrest, hfront]
    exact drop_left' (by rw [length_append]; omega)
  have hlast : (rest.length : Int) - (redundant.reverse.flatMap Encoding.data).length - (0 : Nat) =
      primary.data.length := by
    rw [← hrest, length_append]
    omega
  have hall : redundant.reverse.map Encoding.header ++ primary.header.stored =
      (primary :: redundant).reverse.map Encoding.header := by
    rw [hprimary.stored_header, reverse_cons, map_append]
    rfl
  rw [hlast] at hheaders
  change readHeaders payload primary.info.encodedTimestamp (payload.length + 1) 0 payload.length 0 =
    some (some (redundant.reverse.map Encoding.header ++ primary.header.stored, _)) at hheaders
  have hcount' : ((primary :: redundant).reverse.map Encoding.header).length ≤ maxRedBlocks := by
    rw [length_map, length_reverse]
    exact hcount
  rw [splitRed]
  dsimp only
  rw [hheaders, hall]
  simp only [Option.bind_eq_bind, Option.bind_some, splitPacket, if_pos hcount']
  rw [length_map, splitBlocks_encoded (Nat.zero_add _).symm (Nat.sub_le _ _) hdrop, reverse_reverse]
  simp [splitRed]

/-! ### Runs of the encoder -/

inductive RedEvent where
  | encode (rtpTimestamp : BitVec 32) (primary : Encoding)
  | onReceivedOverhead (overheadBytesPerPacket : BitVec 64)
  | reset

namespace AudioEncoderCopyRed

def step (s : AudioEncoderCopyRed) : RedEvent → Option AudioEncoderCopyRed
  | .encode rtpTimestamp primary => (s.encodeImpl rtpTimestamp primary).map (·.1)
  | .onReceivedOverhead overheadBytesPerPacket => some (s.onReceivedOverhead overheadBytesPerPacket)
  | .reset => some s.reset

end AudioEncoderCopyRed

def earlier (past : List Encoding) : RedEvent → List Encoding
  | .encode _ primary =>
    if 0 < primary.info.encodedBytes ∧ primary.info.encodedBytes < 1024 then primary :: past else past
  | .onReceivedOverhead _ => past
  | .reset => []

structure Remembers (count : Nat) (redPayloadType : BitVec 32) (s : AudioEncoderCopyRed)
    (past : List Encoding) : Prop where
  payloadType : s.redPayloadType = redPayloadType
  history : s.redundantEncodings = (past ++ List.replicate count noEncoding).take count
  valid : ∀ e ∈ past, e.Valid

variable {count : Nat} {redPayloadType : BitVec 32} {s s' : AudioEncoderCopyRed} {past : List Encoding}

theorem Remembers.length (h : Remembers count redPayloadType s past) :
    s.redundantEncodings.length = count := by
  rw [h.history, length_take, length_append, length_replicate]
  omega

def RedEvent.Typed : RedEvent → Prop
  | .encode _ primary => primary.info.payloadType.toNat < 128
  | _ => True

theorem encodeImpl_cases {rtpTimestamp : BitVec 32}
    {info : EncodedInfo} {encoded : List UInt8}
    (h : s.encodeImpl rtpTimestamp primary = some (s', info, encoded)) :
    primary.data.length = primary.info.encodedBytes ∧
      (primary.info.encodedBytes = 0 ∨ 1024 ≤ primary.info.encodedBytes) ∧ s' = s ∨
    primary.data.length = primary.info.encodedBytes ∧ 0 < primary.info.encodedBytes ∧
      primary.info.encodedBytes < 1024 ∧
      s' = { s with redundantEncodings :=
        (primary :: s.redundantEncodings).take s.redundantEncodings.length } ∧
      encoded = encodeRed primary.info (fitting rtpTimestamp
        (s.maxPacketLength.toNat - primary.info.encodedBytes) s.redundantEncodings) primary.data := by
  rw [encodeImpl] at h
  obtain ⟨_, hsize, h⟩ := Option.bind_eq_some_iff.mp h
  have hsize : primary.data.length = primary.info.encodedBytes := by
    by_contra hne
    simp [guard, hne] at hsize
  dsimp only at h
  by_cases hzero : primary.info.encodedBytes = 0
  · rw [if_pos hzero] at h
    exact .inl ⟨hsize, .inl hzero, (congrArg Prod.fst (Option.some.inj h)).symm⟩
  rw [if_neg hzero] at h
  by_cases hlarge : 1024 ≤ primary.info.encodedBytes
  · rw [if_pos hlarge] at h
    exact .inl ⟨hsize, .inr hlarge, (congrArg Prod.fst (Option.some.inj h)).symm⟩
  rw [if_neg hlarge] at h
  obtain ⟨-, -, h⟩ := Option.bind_eq_some_iff.mp h
  have h := Option.some.inj h
  refine .inr ⟨hsize, by omega, by omega, ?_, ?_⟩
  · exact (congrArg Prod.fst h).symm
  · exact (congrArg (fun r => r.2.2) h).symm

theorem take_cons_take {α : Type} (a : α) (l : List α) (n : Nat) :
    (a :: l.take n).take n = (a :: l).take n := by
  cases n with
  | zero => rfl
  | succ n => rw [take_succ_cons, take_succ_cons, take_take, min_eq_left (by omega)]

theorem Remembers.step (h : Remembers count redPayloadType s past) {event : RedEvent}
    (htyped : event.Typed) (hstep : s.step event = some s') :
    Remembers count redPayloadType s' (earlier past event) := by
  cases event with
  | encode rtpTimestamp primary =>
    obtain ⟨⟨s'', info, encoded⟩, hencode, rfl⟩ := Option.map_eq_some_iff.mp hstep
    rw [earlier]
    rcases encodeImpl_cases hencode with ⟨hsize, hkept, rfl⟩ | ⟨hsize, hpos, hsmall, rfl, -⟩
    · rw [if_neg (by omega)]
      exact h
    · rw [if_pos ⟨hpos, hsmall⟩]
      refine ⟨h.payloadType, ?_, forall_mem_cons.mpr ⟨⟨hsize, hpos, hsmall, htyped⟩, h.valid⟩⟩
      dsimp only
      rw [h.length, h.history]
      exact take_cons_take _ _ _
  | onReceivedOverhead overhead =>
    obtain rfl := Option.some.inj hstep
    rw [onReceivedOverhead]
    exact ⟨h.payloadType, h.history, h.valid⟩
  | reset =>
    cases hstep
    refine ⟨h.payloadType, ?_, nofun⟩
    rw [reset, h.length, earlier, nil_append, take_replicate, Nat.min_self]

variable (rtpTimestamp : BitVec 32)

def Encoding.Recent (e : Encoding) : Prop :=
  e.info.encodedBytes ≠ 0 ∧ (rtpTimestamp - e.info.encodedTimestamp).toNat < 2 ^ 14

theorem fitting_prefix (bytesAvailable : Nat) (es : List Encoding) :
    fitting rtpTimestamp bytesAvailable es <+: es ∧
      ∀ e ∈ fitting rtpTimestamp bytesAvailable es, e.Recent rtpTimestamp := by
  induction es generalizing bytesAvailable with
  | nil => exact ⟨prefix_rfl, nofun⟩
  | cons e es ih =>
    rw [fitting]
    split_ifs with hroom hempty hold
    · exact ⟨List.nil_prefix, nofun⟩
    · exact ⟨List.nil_prefix, nofun⟩
    · exact ⟨List.nil_prefix, nofun⟩
    · obtain ⟨hpre, hmem⟩ := ih (bytesAvailable - (4 + e.info.encodedBytes))
      refine ⟨(prefix_cons_inj e).mpr hpre, fun x hx => ?_⟩
      rcases mem_cons.mp hx with rfl | hx
      · exact ⟨hempty, by omega⟩
      · exact hmem x hx

theorem Remembers.fitting (h : Remembers count redPayloadType s past) (rtpTimestamp : BitVec 32)
    (bytesAvailable : Nat) : ∃ k ≤ count,
      AudioEncoderCopyRed.fitting rtpTimestamp bytesAvailable s.redundantEncodings = past.take k := by
  obtain ⟨hpre, hmem⟩ := fitting_prefix rtpTimestamp bytesAvailable s.redundantEncodings
  generalize AudioEncoderCopyRed.fitting rtpTimestamp bytesAvailable s.redundantEncodings = fit
    at hpre hmem
  have hlength : fit.length ≤ count := h.length ▸ hpre.length_le
  rw [h.history] at hpre
  have htake := prefix_iff_eq_take.mp (hpre.trans (List.take_prefix _ _))
  refine ⟨fit.length, hlength, ?_⟩
  by_cases hle : fit.length ≤ past.length
  · rwa [take_append_of_le_length hle] at htake
  · -- The first empty encoding would have been taken.
    have hempty : noEncoding ∈ fit := by
      rw [htake, take_append, take_replicate]
      refine mem_append_right _ (mem_replicate.mpr ⟨by omega, rfl⟩)
    exact absurd rfl (hmem _ hempty).1

theorem remembers_initial (trial : Option Nat) (payloadType : BitVec 32) :
    Remembers (getMaxRedundancyFromFieldTrial trial) payloadType
      (initial trial payloadType) [] := by
  refine ⟨rfl, ?_, nofun⟩
  rw [initial, nil_append, take_replicate, Nat.min_self]

theorem Remembers.run (h : Remembers count redPayloadType s past) {events : List RedEvent}
    (htyped : ∀ event ∈ events, event.Typed)
    (hrun : events.foldlM AudioEncoderCopyRed.step s = some s') :
    Remembers count redPayloadType s' (events.foldl earlier past) := by
  induction events generalizing s past with
  | nil =>
    cases hrun
    exact h
  | cons event events ih =>
    rw [foldlM_cons] at hrun
    obtain ⟨next, hstep, hrun⟩ := Option.bind_eq_some_iff.mp hrun
    exact ih (h.step (htyped event mem_cons_self) hstep)
      (fun e he => htyped e (mem_cons_of_mem _ he)) hrun

theorem getMaxRedundancyFromFieldTrial_le (trial : Option Nat) :
    getMaxRedundancyFromFieldTrial trial ≤ 9 := by
  unfold getMaxRedundancyFromFieldTrial
  split
  · decide
  · split <;> omega

theorem encodeImpl_eq (hsize : primary.data.length = primary.info.encodedBytes)
    (hpos : 0 < primary.info.encodedBytes) (hsmall : primary.info.encodedBytes < 1024)
    (hroom : primary.info.encodedBytes < s.maxPacketLength.toNat) :
    ∃ s' infos encoded, s.encodeImpl rtpTimestamp primary = some (s',
        ⟨⟨encoded.length, primary.info.encodedTimestamp, s.redPayloadType⟩, infos⟩, encoded) ∧
      encoded = encodeRed primary.info (fitting rtpTimestamp
        (s.maxPacketLength.toNat - primary.info.encodedBytes) s.redundantEncodings) primary.data := by
  rw [encodeImpl]
  simp only [guard, if_pos hsize, if_pos hroom, if_neg hpos.ne', if_neg (not_le.mpr hsmall),
    Option.bind_eq_bind, Option.pure_def, Option.bind_some]
  exact ⟨_, _, _, rfl, rfl⟩

/-- Whatever the speech encoder has produced before, the next packet is taken apart into the primary
encoding and the last of the earlier ones; and the splitter handles any packets. -/
theorem red_roundTrip (trial : Option Nat) (redPayloadType : BitVec 32) (events : List RedEvent)
    (htyped : ∀ event ∈ events, event.Typed) (s : AudioEncoderCopyRed)
    (hrun : events.foldlM AudioEncoderCopyRed.step (.initial trial redPayloadType) = some s)
    (primary : Encoding) (hprimary : primary.Valid)
    (hroom : primary.info.encodedBytes < s.maxPacketLength.toNat) (sequenceNumber : BitVec 16) :
    (Ensures (s.encodeImpl primary.info.encodedTimestamp primary) fun (_, info, encoded) =>
      info.encodedBytes = encoded.length ∧ info.payloadType = redPayloadType ∧
      info.encodedTimestamp = primary.info.encodedTimestamp ∧
      ∃ k ≤ getMaxRedundancyFromFieldTrial trial,
        splitRed [⟨info.encodedTimestamp, sequenceNumber, info.payloadType.setWidth 8, encoded, 0⟩] =
          some (true, (primary :: (events.foldl earlier []).take k).mapIdx
            fun level e => e.packet sequenceNumber level)) ∧
    ∀ packets, Ensures (splitRed packets) fun (_, result) =>
      ∀ q ∈ result, ∃ p ∈ packets, q.payload <:+: p.payload := by
  refine ⟨?_, splitRed_total⟩
  have hkept := (remembers_initial trial redPayloadType).run htyped hrun
  obtain ⟨s', infos, encoded, heq, hencoded⟩ :=
    encodeImpl_eq primary.info.encodedTimestamp hprimary.size hprimary.pos hprimary.small hroom
  obtain ⟨-, hfits⟩ := fitting_prefix primary.info.encodedTimestamp
    (s.maxPacketLength.toNat - primary.info.encodedBytes) s.redundantEncodings
  obtain ⟨k, hk, hfit⟩ := hkept.fitting primary.info.encodedTimestamp
    (s.maxPacketLength.toNat - primary.info.encodedBytes)
  rw [hfit] at hfits hencoded
  have hredundant : ∀ e ∈ (events.foldl earlier []).take k, e.Valid ∧
      (primary.info.encodedTimestamp - e.info.encodedTimestamp).toNat < 2 ^ 14 :=
    fun e he => ⟨hkept.valid e (mem_of_mem_take he), (hfits e he).2⟩
  have hcount : ((events.foldl earlier []).take k).length < maxRedBlocks := by
    have hle := getMaxRedundancyFromFieldTrial_le trial
    rw [length_take, maxRedBlocks]
    omega
  refine ⟨_, heq, rfl, hkept.payloadType, rfl, k, hk, ?_⟩
  dsimp only
  rw [hencoded]
  exact splitRed_encodeRed hprimary hredundant hcount sequenceNumber _ 0

theorem red_roundTrip_two :
    ∃ s, [RedEvent.encode 100 ⟨⟨2, 100, 111⟩, [1, 2]⟩].foldlM AudioEncoderCopyRed.step
        (.initial none 63) = some s ∧
      Ensures (s.encodeImpl 1060 ⟨⟨1, 1060, 111⟩, [3]⟩) fun (_, info, encoded) =>
        ∃ k ≤ 1, splitRed [⟨info.encodedTimestamp, 7, info.payloadType.setWidth 8, encoded, 0⟩] =
          some (true, (⟨⟨1, 1060, 111⟩, [3]⟩ :: List.take k [⟨⟨2, 100, 111⟩, [1, 2]⟩]).mapIdx
            fun level (e : Encoding) => e.packet 7 level) := by
  have hrun : ([RedEvent.encode 100 ⟨⟨2, 100, 111⟩, [1, 2]⟩].foldlM AudioEncoderCopyRed.step
      (.initial none 63)).any (fun s => decide (1 < s.maxPacketLength.toNat)) = true := by decide
  obtain ⟨s, hs, hroom⟩ := Option.any_eq_true .. |>.mp hrun
  have htyped : ∀ event ∈ [RedEvent.encode 100 ⟨⟨2, 100, 111⟩, [1, 2]⟩], event.Typed := by
    intro event hevent
    rw [mem_singleton.mp hevent]
    exact (by decide : (111 : BitVec 32).toNat < 128)
  obtain ⟨⟨r, hr, -, -, -, k, hk, hsplit⟩, -⟩ := red_roundTrip none 63 _ htyped s hs
    ⟨⟨1, 1060, 111⟩, [3]⟩ ⟨rfl, by decide, by decide, by decide⟩ (of_decide_eq_true hroom) 7
  exact ⟨s, hs, r, hr, k, hk, hsplit⟩

/-! ### The length of a packet -/

def Sized (es : List Encoding) : Prop := ∀ e ∈ es, e.data.length = e.info.encodedBytes

def cost (es : List Encoding) : Nat := (es.map fun e => 4 + e.info.encodedBytes).sum

/-- Some of the latest encodings, each of them one that may be sent along, take up exactly what the
primary encoding leaves of the packet. -/
def FillsUp (s : AudioEncoderCopyRed) (primary : EncodedInfoLeaf) : Prop :=
  ∃ es, es <+: s.redundantEncodings ∧
    (∀ e ∈ es, e.Recent rtpTimestamp) ∧ primary.encodedBytes + cost es = s.maxPacketLength.toNat

theorem sized_run (trial : Option Nat) (redPayloadType : BitVec 32) {events : List RedEvent}
    (hrun : events.foldlM step (initial trial redPayloadType) = some s) :
    Sized s.redundantEncodings := by
  have hempty : ∀ n, Sized (replicate n noEncoding) := by
    intro n e he
    rw [(List.mem_replicate.mp he).2]
    rfl
  generalize hs₀ : initial trial redPayloadType = s₀ at hrun
  have h : Sized s₀.redundantEncodings := hs₀ ▸ hempty _
  clear hs₀
  induction events generalizing s₀ with
  | nil =>
    cases hrun
    exact h
  | cons event events ih =>
    obtain ⟨next, hstep, hrun⟩ := Option.bind_eq_some_iff.mp hrun
    refine ih next hrun ?_
    cases event with
    | encode rtpTimestamp primary =>
      obtain ⟨⟨s'', info, encoded⟩, hencode, rfl⟩ := Option.map_eq_some_iff.mp hstep
      rcases encodeImpl_cases hencode with ⟨-, -, rfl⟩ | ⟨hsize, -, -, rfl, -⟩
      · exact h
      · have hall : Sized (primary :: s₀.redundantEncodings) := List.forall_mem_cons.mpr ⟨hsize, h⟩
        exact fun e he => hall e (mem_of_mem_take he)
    | onReceivedOverhead overhead =>
      obtain rfl := Option.some.inj hstep
      rw [onReceivedOverhead]
      exact h
    | reset =>
      cases hstep
      exact hempty _

theorem length_encodeRed {es : List Encoding} (h : Sized es) (info : EncodedInfoLeaf)
    (data : List UInt8) : (encodeRed info es data).length = cost es + 1 + data.length := by
  have hcost : (es.map fun e => e.data.length).sum + 4 * es.length = cost es := by
    induction es with
    | nil => rfl
    | cons e es ih =>
      obtain ⟨he, hes⟩ := List.forall_mem_cons.mp h
      have := ih hes
      simp only [cost, map_cons, sum_cons, length_cons, he] at this ⊢
      omega
  have hheaders := length_redHeaders info.encodedTimestamp es.reverse
  have hdata : (es.reverse.flatMap Encoding.data).length = (es.map fun e => e.data.length).sum := by
    rw [length_flatMap, map_reverse, sum_reverse]
  change (redHeaders info.encodedTimestamp es.reverse ++ _).length = _
  rw [length_append, hheaders, length_append, length_append, hdata, length_reverse]
  change _ + (1 + _) = _
  omega

theorem cost_fitting_le (bytesAvailable : Nat) (es : List Encoding) :
    cost (fitting rtpTimestamp bytesAvailable es) ≤ bytesAvailable := by
  induction es generalizing bytesAvailable with
  | nil => exact Nat.zero_le _
  | cons e es ih =>
    rw [fitting]
    split_ifs with hroom
    iterate 3 exact Nat.zero_le _
    have := ih (bytesAvailable - (4 + e.info.encodedBytes))
    simp only [cost, map_cons, sum_cons] at this ⊢
    omega

theorem fitting_of_cost {es rest : List Encoding}
    (h : ∀ e ∈ es, e.Recent rtpTimestamp) :
    fitting rtpTimestamp (cost es) (es ++ rest) = es := by
  induction es with
  | nil =>
    cases rest with
    | nil => rfl
    | cons e rest => exact if_pos (by rw [cost]; exact Nat.lt_add_right _ (by decide))
  | cons e es ih =>
    obtain ⟨⟨hne, hrecent⟩, hes⟩ := List.forall_mem_cons.mp h
    have hcost : cost (e :: es) = 4 + e.info.encodedBytes + cost es := rfl
    rw [cons_append, fitting, if_neg (by omega), if_neg hne,
      if_neg (by omega), hcost, Nat.add_sub_cancel_left, ih hes]

end WebRtc.Audio.Red
