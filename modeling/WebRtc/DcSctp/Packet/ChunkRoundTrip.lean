import WebRtc.DcSctp.Packet.Chunk

/-! What a chunk's parser makes of the padded bytes that its serializer wrote. -/

namespace WebRtc.DcSctp

open TlvConfig

open SkippedStream

open Parameters

open ByteBuffer

namespace TlvConfig.Block

variable {config : TlvConfig} {out : List UInt8}

section

variable (h : config.Block out)
include h

theorem length_toNat (hlt : out.length < 2 ^ 16) : (load16 out 2).toNat = out.length := by
  rw [h.length_eq, BitVec.toNat_ofNat, Nat.mod_eq_of_lt hlt]

theorem parseTLV_pad (hheader : 4 ≤ config.headerSize)
    (hsize : config.typeSizeInBytes = 1) (htype : config.type < 2 ^ 8)
    (hvariable : config.variableLengthAlignment ≠ 0) (hlt : out.length < 2 ^ 16) :
    config.parseTLV (pad out) =
      if out.length % config.variableLengthAlignment = 0 then some out else none := by
  have hle := h.headerSize_le
  have hround : out.length ≤ roundUpTo4 out.length ∧ roundUpTo4 out.length ≤ out.length + 3 := by
    simp only [roundUpTo4]
    omega
  have hread : load8 (pad out) 0 = BitVec.ofNat 8 config.type := by
    rw [pad, load8_append _ (by omega)]
    exact (if_pos hsize ▸ h.type_eq :)
  have hlength : (load16 (pad out) 2).toNat = out.length := by
    rw [pad, load16_append _ (by omega), h.length_toNat hlt]
  have htake : (pad out).take out.length = out := List.take_left' rfl
  have hnat : (BitVec.ofNat 8 config.type).toNat = config.type := by
    rw [BitVec.toNat_ofNat, Nat.mod_eq_of_lt htype]
  simp only [parseTLV, length_pad, hread, hlength, hsize, htake, hnat,
    hvariable, if_true, if_false, ne_eq, not_true_eq_false]
  rw [if_neg (by omega), if_neg (by omega), if_neg (by omega), ite_not]

theorem parseTLV_aligned (hheader : 4 ≤ config.headerSize)
    (hsize : config.typeSizeInBytes = 1) (htype : config.type < 2 ^ 8)
    (hvariable : config.variableLengthAlignment ≠ 0) (hlt : out.length < 2 ^ 16)
    (haligned : config.variableLengthAlignment ∣ out.length) :
    config.parseTLV (pad out) = some out := by
  rw [h.parseTLV_pad hheader hsize htype hvariable hlt, if_pos (Nat.mod_eq_zero_of_dvd haligned)]

theorem parseTLV_fixed (hsize : config.typeSizeInBytes = 1)
    (htype : config.type < 2 ^ 8) (hfixed : config.variableLengthAlignment = 0)
    (hlen : out.length = config.headerSize) (hfour : 4 ∣ config.headerSize)
    (hlt : out.length < 2 ^ 16) : config.parseTLV (pad out) = some out := by
  have hpad : pad out = out := by
    simp only [pad, roundUpTo4, hlen]
    rw [show (config.headerSize + 3) / 4 * 4 - config.headerSize = 0 by omega]
    simp
  have hread : load8 out 0 = BitVec.ofNat 8 config.type := (if_pos hsize ▸ h.type_eq :)
  have hnat : (BitVec.ofNat 8 config.type).toNat = config.type := by
    rw [BitVec.toNat_ofNat, Nat.mod_eq_of_lt htype]
  rw [hpad]
  simp only [parseTLV, hread, h.length_toNat hlt, hsize, hfixed, hnat, hlen, if_true,
    ne_eq, not_true_eq_false, if_false, or_self, lt_irrefl]
  rw [← hlen, List.take_length]

end

end TlvConfig.Block

theorem TlvConfig.drop_copyToVariableData (config : TlvConfig) {out source : List UInt8}
    (h : out.length = config.headerSize + source.length) :
    (config.copyToVariableData out source).drop config.headerSize = source := by
  have htake : source.take (out.length - config.headerSize) = source :=
    List.take_of_length_le (by omega)
  rw [copyToVariableData, htake, drop_store h]

namespace AnyDataChunk

variable (c : AnyDataChunk)

theorem hasFlag_flags : hasFlag c.flags kFlagsBitEnd = c.data.isEnd ∧
      hasFlag c.flags kFlagsBitBeginning = c.data.isBeginning ∧
      hasFlag c.flags kFlagsBitUnordered = c.data.isUnordered ∧
      hasFlag c.flags kFlagsBitImmediateAck = c.immediateAck := by
  simp only [flags]
  cases c.data.isEnd <;> cases c.data.isBeginning <;> cases c.data.isUnordered <;>
    cases c.immediateAck <;> decide

theorem block_serializeData : Chunk.dataConfig.Block c.serializeData := by
  have hnew := TlvConfig.Block.allocateTLV (show 4 ≤ Chunk.dataConfig.headerSize by decide)
    c.data.payload.length
  have hflags := hnew.store8_flags rfl c.flags
  refine TlvConfig.Block.store ?_ (by decide) _
  exact (((hflags.store32 (by omega) _).store16 (by omega) _).store16 (by omega) _).store32
    (by omega) _

theorem parseData_pad (h : c.serializeData.length < 2 ^ 16) :
    parseData (pad c.serializeData) =
      some { c with data := { c.data with mid := 0, fsn := 0 } } := by
  have hparse := c.block_serializeData.parseTLV_aligned (by decide) rfl (by decide) (by decide) h
    (one_dvd _)
  have hdrop : c.serializeData.drop 16 = c.data.payload := by
    apply Chunk.dataConfig.drop_copyToVariableData
    simp
  have hflags : load8 c.serializeData 1 = c.flags := by
    simp (disch := first | omega | (simp; done) | (simp; omega)) [serializeData, copyToVariableData,
      Chunk.dataConfig]
  have hfields : load32 c.serializeData 4 = c.tsn ∧ load16 c.serializeData 8 = c.data.streamId ∧
      load16 c.serializeData 10 = c.data.ssn ∧ load32 c.serializeData 12 = c.data.ppid := by
    simp (disch := first | omega | (simp; done) | (simp; omega)) [serializeData, copyToVariableData,
      Chunk.dataConfig]
  obtain ⟨hend, hbeginning, hunordered, himmediate⟩ := c.hasFlag_flags
  simp only [parseData, hparse, Option.bind_eq_bind, Option.bind_some, hdrop, hflags, hfields,
    hend, hbeginning, hunordered, himmediate]
  rfl

theorem block_serializeIData : Chunk.iDataConfig.Block c.serializeIData := by
  have hnew := TlvConfig.Block.allocateTLV (show 4 ≤ Chunk.iDataConfig.headerSize by decide)
    c.data.payload.length
  have hflags := hnew.store8_flags rfl c.flags
  refine TlvConfig.Block.store ?_ (by decide) _
  exact (((hflags.store32 (by omega) _).store16 (by omega) _).store32 (by omega) _).store32
    (by omega) _

theorem parseIData_pad (h : c.serializeIData.length < 2 ^ 16) :
    parseIData (pad c.serializeIData) =
      some { c with data := { c.data with
        ssn := 0
        fsn := if c.data.isBeginning then 0 else c.data.fsn
        ppid := if c.data.isBeginning then c.data.ppid else 0 } } := by
  have hparse := c.block_serializeIData.parseTLV_aligned (by decide) rfl (by decide) (by decide) h
    (one_dvd _)
  have hdrop : c.serializeIData.drop 20 = c.data.payload := by
    apply Chunk.iDataConfig.drop_copyToVariableData
    simp
  have hflags : load8 c.serializeIData 1 = c.flags := by
    simp (disch := first | omega | (simp; done) | (simp; omega)) [serializeIData,
      copyToVariableData, Chunk.iDataConfig]
  have hfields : load32 c.serializeIData 4 = c.tsn ∧
      load16 c.serializeIData 8 = c.data.streamId ∧ load32 c.serializeIData 12 = c.data.mid ∧
      load32 c.serializeIData 16 = if c.data.isBeginning then c.data.ppid else c.data.fsn := by
    simp (disch := first | omega | (simp; done) | (simp; omega)) [serializeIData,
      copyToVariableData, Chunk.iDataConfig]
  obtain ⟨hend, hbeginning, hunordered, himmediate⟩ := c.hasFlag_flags
  simp only [parseIData, hparse, Option.bind_eq_bind, Option.bind_some, hdrop, hflags, hfields,
    hend, hbeginning, hunordered, himmediate]
  cases c.data.isBeginning <;> rfl

end AnyDataChunk

namespace InitChunk

theorem block_serialize {config : TlvConfig} (hheader : config.headerSize = 20) (c : InitChunk) :
    config.Block (c.serialize config) := by
  have hnew := TlvConfig.Block.allocateTLV (show 4 ≤ config.headerSize by omega)
    c.parameters.data.length
  refine TlvConfig.Block.store ?_ (by omega) _
  exact ((((hnew.store32 (by omega) _).store32 (by omega) _).store16 (by omega) _).store16
    (by omega) _).store32 (by omega) _

theorem parse_pad {config : TlvConfig} (hheader : config.headerSize = 20)
    (hsize : config.typeSizeInBytes = 1) (htype : config.type < 2 ^ 8)
    (halign : config.variableLengthAlignment = 1) (c : InitChunk)
    (hparameters : Parameters.parse c.parameters.data = some c.parameters)
    (h : (c.serialize config).length < 2 ^ 16) :
    parse config (pad (c.serialize config)) = some c := by
  have hparse := (c.block_serialize hheader).parseTLV_aligned (by omega) hsize htype (by omega) h
    (by simp [halign])
  have hdrop : (c.serialize config).drop 20 = c.parameters.data := by
    rw [← hheader]
    apply config.drop_copyToVariableData
    simp
  have hfields : load32 (c.serialize config) 4 = c.initiateTag ∧
      load32 (c.serialize config) 8 = c.aRwnd ∧
      load16 (c.serialize config) 12 = c.nbrOutboundStreams ∧
      load16 (c.serialize config) 14 = c.nbrInboundStreams ∧
      load32 (c.serialize config) 16 = c.initialTsn := by
    simp (disch := first | omega | (simp; done) | (simp; omega)) [serialize, copyToVariableData, hheader]
  simp only [parse, hparse, Option.bind_eq_bind, Option.bind_some, hdrop, hparameters, hfields]
  rfl

end InitChunk

namespace SackChunk

theorem length_encode (block : GapAckBlock) : block.encode.length = 4 := by
  simp [GapAckBlock.encode]

theorem decode_encode (block : GapAckBlock) : GapAckBlock.decode block.encode = block := by
  simp [GapAckBlock.decode, GapAckBlock.encode]

variable (c : SackChunk)

theorem serialize_eq :
    c.serialize = store (store16 (store16 (store32 (store32 (Chunk.sackConfig.allocateTLV
      (c.gapAckBlocks.length * 4 + c.duplicateTsns.length * 4)) 4 c.cumulativeTsnAck) 8 c.aRwnd) 12
      (BitVec.ofNat 16 c.gapAckBlocks.length)) 14 (BitVec.ofNat 16 c.duplicateTsns.length)) 16
      (c.gapAckBlocks.flatMap GapAckBlock.encode ++ c.duplicateTsns.flatMap bigEndian32) := by
  rw [store_append, length_flatMap_encode length_encode, ← storeEach_eq length_encode,
    ← storeEach_eq length_bigEndian32]
  rfl

theorem block_serialize : Chunk.sackConfig.Block c.serialize := by
  have hnew := TlvConfig.Block.allocateTLV (show 4 ≤ Chunk.sackConfig.headerSize by decide)
    (c.gapAckBlocks.length * 4 + c.duplicateTsns.length * 4)
  rw [serialize_eq]
  refine TlvConfig.Block.store ?_ (by omega) _
  exact (((hnew.store32 (by omega) _).store32 (by omega) _).store16 (by omega) _).store16
    (by omega) _

theorem length_serialize :
    c.serialize.length = 16 + (c.gapAckBlocks.length * 4 + c.duplicateTsns.length * 4) := by
  rw [serialize_eq]
  simp [Chunk.sackConfig]

theorem parse_pad (hsorted : c.duplicateTsns.Pairwise (· < ·))
    (h : c.serialize.length < 2 ^ 16) : parse (pad c.serialize) = some c := by
  have hlen := c.length_serialize
  have hparse := c.block_serialize.parseTLV_aligned (by decide) rfl (by decide) (by decide) h
    (show 4 ∣ c.serialize.length by omega)
  have hdrop : c.serialize.drop 16 =
      c.gapAckBlocks.flatMap GapAckBlock.encode ++ c.duplicateTsns.flatMap bigEndian32 := by
    rw [serialize_eq]
    apply drop_store
    simp [Chunk.sackConfig, length_flatMap_encode length_encode,
      length_flatMap_encode length_bigEndian32]
  have hdropTsns : c.serialize.drop (16 + c.gapAckBlocks.length * 4) =
      c.duplicateTsns.flatMap bigEndian32 := by
    rw [← List.drop_drop, hdrop, List.drop_left' (length_flatMap_encode length_encode _)]
  have hfields : load32 c.serialize 4 = c.cumulativeTsnAck ∧ load32 c.serialize 8 = c.aRwnd ∧
      load16 c.serialize 12 = BitVec.ofNat 16 c.gapAckBlocks.length ∧
      load16 c.serialize 14 = BitVec.ofNat 16 c.duplicateTsns.length := by
    rw [serialize_eq]
    simp (disch := first | omega | (simp; done) | (simp; omega)) [Chunk.sackConfig]
  have hblocks : (BitVec.ofNat 16 c.gapAckBlocks.length).toNat = c.gapAckBlocks.length := by
    rw [BitVec.toNat_ofNat, Nat.mod_eq_of_lt (by omega)]
  have htsns : (BitVec.ofNat 16 c.duplicateTsns.length).toNat = c.duplicateTsns.length := by
    rw [BitVec.toNat_ofNat, Nat.mod_eq_of_lt (by omega)]
  have hloadBlocks : loadEach GapAckBlock.decode 4 c.serialize 16 c.gapAckBlocks.length =
      c.gapAckBlocks := (loadEach_eq length_encode decode_encode hdrop).trans (List.map_id _)
  have hloadTsns : loadEach (load32 · 0) 4 c.serialize (16 + c.gapAckBlocks.length * 4)
      c.duplicateTsns.length = c.duplicateTsns :=
    (loadEach_eq length_bigEndian32 load32_bigEndian32
      (hdropTsns.trans (List.append_nil _).symm)).trans (List.map_id _)
  simp only [parse, hparse, Option.bind_eq_bind, Option.bind_some, hfields, hblocks, htsns,
    hloadBlocks, hloadTsns, OrdSet.toList_foldl_insert hsorted]
  rw [if_neg (by omega)]
  rfl

end SackChunk

namespace ForwardTsnChunk

variable (s : SkippedStream)

theorem length_encode : s.encode.length = 4 := by simp [encode]

theorem length_iEncode : s.iEncode.length = 8 := by
  simp [iEncode]

theorem decode_encode : decode s.encode = ⟨s.streamId, s.ssn, false, 0⟩ := by
  simp [decode, encode]

theorem iDecode_iEncode : iDecode s.iEncode = ⟨s.streamId, 0, s.unordered, s.mid⟩ := by
  cases hu : s.unordered <;> simp [iDecode, iEncode, hu]

variable (c : ForwardTsnChunk)

theorem block_serialize : Chunk.forwardTsnConfig.Block c.serialize :=
  ((TlvConfig.Block.allocateTLV (by decide) _).store32 (by omega) _).storeEach (by omega) ..

theorem block_iSerialize : Chunk.iForwardTsnConfig.Block c.iSerialize :=
  ((TlvConfig.Block.allocateTLV (by decide) _).store32 (by omega) _).storeEach (by omega) ..

theorem parse_pad (h : c.serialize.length < 2 ^ 16) :
    parse (pad c.serialize) = some { c with
      skippedStreams := c.skippedStreams.map fun s => ⟨s.streamId, s.ssn, false, 0⟩ } := by
  have heq : c.serialize = store (store32 (Chunk.forwardTsnConfig.allocateTLV
      (c.skippedStreams.length * 4)) 4 c.newCumulativeTsn) 8
      (c.skippedStreams.flatMap encode) := storeEach_eq length_encode ..
  have hlen : c.serialize.length = 8 + c.skippedStreams.length * 4 := by
    simp [heq, Chunk.forwardTsnConfig]
  have hparse := c.block_serialize.parseTLV_aligned (by decide) rfl (by decide) (by decide) h
    (show 4 ∣ c.serialize.length by omega)
  have hdrop : c.serialize.drop 8 = c.skippedStreams.flatMap encode := by
    rw [heq]
    apply drop_store
    simp [Chunk.forwardTsnConfig, length_flatMap_encode length_encode]
  have htsn : load32 c.serialize 4 = c.newCumulativeTsn := by
    rw [heq]
    simp (disch := first | omega | (simp; done) | (simp; omega)) [Chunk.forwardTsnConfig]
  have hcount : (c.serialize.length - 8) / 4 = c.skippedStreams.length := by omega
  simp only [parse, hparse, Option.bind_eq_bind, Option.bind_some, htsn, hcount,
    loadEach_eq length_encode decode_encode (hdrop.trans (List.append_nil _).symm)]
  rfl

theorem iParse_pad (h : c.iSerialize.length < 2 ^ 16) :
    iParse (pad c.iSerialize) = some { c with
      skippedStreams := c.skippedStreams.map fun s => ⟨s.streamId, 0, s.unordered, s.mid⟩ } := by
  have heq : c.iSerialize = store (store32 (Chunk.iForwardTsnConfig.allocateTLV
      (c.skippedStreams.length * 8)) 4 c.newCumulativeTsn) 8
      (c.skippedStreams.flatMap iEncode) := storeEach_eq length_iEncode ..
  have hlen : c.iSerialize.length = 8 + c.skippedStreams.length * 8 := by
    simp [heq, Chunk.iForwardTsnConfig]
  have hparse := c.block_iSerialize.parseTLV_aligned (by decide) rfl (by decide) (by decide) h
    (show 8 ∣ c.iSerialize.length by omega)
  have hdrop : c.iSerialize.drop 8 = c.skippedStreams.flatMap iEncode := by
    rw [heq]
    apply drop_store
    simp [Chunk.iForwardTsnConfig, length_flatMap_encode length_iEncode]
  have htsn : load32 c.iSerialize 4 = c.newCumulativeTsn := by
    rw [heq]
    simp (disch := first | omega | (simp; done) | (simp; omega)) [Chunk.iForwardTsnConfig]
  have hcount : (c.iSerialize.length - 8) / 8 = c.skippedStreams.length := by omega
  simp only [iParse, hparse, Option.bind_eq_bind, Option.bind_some, htsn, hcount,
    loadEach_eq length_iEncode iDecode_iEncode (hdrop.trans (List.append_nil _).symm)]
  rfl

end ForwardTsnChunk

namespace Chunk

def parameters? : Chunk → Option Parameters
  | init c | initAck c => some c.parameters
  | heartbeatRequest parameters | heartbeatAck parameters | abort _ parameters | error parameters
  | reConfig parameters => some parameters
  | _ => none

structure WellFormed (c : Chunk) : Prop where
  sorted : ∀ s, c = sack s → s.duplicateTsns.Pairwise (· < ·)
  built : ∀ p, c.parameters? = some p → ∃ ps, p = Parameters.build ps

def normalize : Chunk → Chunk
  | data c => data { c with data := { c.data with mid := 0, fsn := 0 } }
  | iData c => iData { c with data := { c.data with
      ssn := 0
      fsn := if c.data.isBeginning then 0 else c.data.fsn
      ppid := if c.data.isBeginning then c.data.ppid else 0 } }
  | forwardTsn c => forwardTsn { c with
      skippedStreams := c.skippedStreams.map fun s => ⟨s.streamId, s.ssn, false, 0⟩ }
  | iForwardTsn c => iForwardTsn { c with
      skippedStreams := c.skippedStreams.map fun s => ⟨s.streamId, 0, s.unordered, s.mid⟩ }
  | c => c

def type (c : Chunk) : BitVec 8 := BitVec.ofNat 8 c.config.type

theorem four_le_headerSize (c : Chunk) : 4 ≤ c.config.headerSize := by
  cases c <;> exact Nat.le_of_ble_eq_true rfl

theorem block_serialize (c : Chunk) : c.config.Block c.serialize := by
  have hnew := TlvConfig.Block.allocateTLV c.four_le_headerSize
  have hbytes := TlvConfig.Block.serializeBytes c.four_le_headerSize
  cases c with
  | data c => exact c.block_serializeData
  | iData c => exact c.block_serializeIData
  | init c | initAck c => exact c.block_serialize rfl
  | sack c => exact c.block_serialize
  | forwardTsn c => exact c.block_serialize
  | iForwardTsn c => exact c.block_iSerialize
  | heartbeatRequest parameters | heartbeatAck parameters | error parameters
  | reConfig parameters => exact hbytes _
  | cookieEcho cookie => exact hbytes _
  | abort filledInVerificationTag errorCauses =>
    exact ((hnew _).store8_flags rfl _).store le_rfl _
  | shutdown cumulativeTsnAck => exact (hnew _).store32 (by omega) _
  | shutdownAck | cookieAck => exact hnew _
  | shutdownComplete tagReflected => exact (hnew _).store8_flags rfl _

theorem drop_serializeBytes (config : TlvConfig) (source : List UInt8) :
    (config.serializeBytes source).drop config.headerSize = source := by
  apply config.drop_copyToVariableData
  simp

variable {p : Parameters} {c : Chunk}

theorem length_serialize_of_parameters
    (hp : c.parameters? = some p) : c.serialize.length = c.config.headerSize + p.data.length := by
  cases c with
  | init c | initAck c =>
    cases hp
    simp [serialize, InitChunk.serialize, config]
  | heartbeatRequest q | heartbeatAck q | error q | reConfig q =>
    cases hp
    simp [serialize, serializeBytes, config]
  | abort filledInVerificationTag q =>
    cases hp
    simp [serialize, config]
  | _ => cases hp

theorem WellFormed.parse_parameters (hwf : c.WellFormed)
    (hp : c.parameters? = some p) (h : c.serialize.length < 2 ^ 16) :
    Parameters.parse p.data = some p := by
  have hlen := length_serialize_of_parameters hp
  have hfour := c.four_le_headerSize
  obtain ⟨ps, rfl⟩ := hwf.built p hp
  exact (parse_build (by omega)).1

theorem parseParameters_pad {config : TlvConfig} (hheader : config.headerSize = 4)
    (hsize : config.typeSizeInBytes = 1) (htype : config.type < 2 ^ 8)
    (hvariable : config.variableLengthAlignment ≠ 0)
    (hp : Parameters.parse p.data = some p) (h : (config.serializeBytes p.data).length < 2 ^ 16) :
    parseParameters config (pad (config.serializeBytes p.data)) =
      if (config.serializeBytes p.data).length % config.variableLengthAlignment = 0 then some p
      else none := by
  have hblock : config.Block (config.serializeBytes p.data) := .serializeBytes (by omega) _
  have hdrop : (config.serializeBytes p.data).drop 4 = p.data := by
    rw [← hheader, drop_serializeBytes]
  rw [parseParameters, hblock.parseTLV_pad (by omega) hsize htype hvariable h]
  split_ifs
  · simp only [Option.bind_eq_bind, Option.bind_some, hdrop, hp]
  · rfl

theorem parseParameters_unaligned {config : TlvConfig} (hheader : config.headerSize = 4)
    (hsize : config.typeSizeInBytes = 1) (htype : config.type < 2 ^ 8)
    (hvariable : config.variableLengthAlignment = 1)
    (hp : Parameters.parse p.data = some p) (h : (config.serializeBytes p.data).length < 2 ^ 16) :
    parseParameters config (pad (config.serializeBytes p.data)) = some p := by
  rw [parseParameters_pad hheader hsize htype (by omega) hp h, hvariable, if_pos (Nat.mod_one _)]

theorem parseAbort_pad {filledInVerificationTag : Bool} {errorCauses : Parameters}
    (hp : Parameters.parse errorCauses.data = some errorCauses)
    (h : (abort filledInVerificationTag errorCauses).serialize.length < 2 ^ 16) :
    parse 6 (pad (abort filledInVerificationTag errorCauses).serialize) =
      some (abort filledInVerificationTag errorCauses) := by
  have hparse := (abort filledInVerificationTag errorCauses).block_serialize.parseTLV_aligned
    le_rfl rfl (by simp [config, abortConfig]) (by simp [config, abortConfig]) h (one_dvd _)
  have hdrop : (abort filledInVerificationTag errorCauses).serialize.drop 4 = errorCauses.data := by
    apply abortConfig.drop_copyToVariableData
    simp
  have hflags : load8 (abort filledInVerificationTag errorCauses).serialize 1 =
      if filledInVerificationTag then 0 else 1#8 <<< kFlagsBitT := by
    simp (disch := first | omega | (simp; done) | (simp; omega)) [serialize,
      copyToVariableData, abortConfig]
  generalize (abort filledInVerificationTag errorCauses).serialize = out at hparse hdrop hflags ⊢
  have hparse : abortConfig.parseTLV (pad out) = some out := hparse
  simp only [parse, hparse, Option.bind_eq_bind, Option.bind_some, hdrop, hp, hflags]
  cases filledInVerificationTag <;> rfl

theorem parseTLV_fixed (hsize : c.config.typeSizeInBytes = 1)
    (htype : c.config.type < 2 ^ 8) (hfixed : c.config.variableLengthAlignment = 0)
    (hlen : c.serialize.length = c.config.headerSize) (hfour : 4 ∣ c.config.headerSize)
    (h : c.serialize.length < 2 ^ 16) : c.config.parseTLV (pad c.serialize) = some c.serialize :=
  c.block_serialize.parseTLV_fixed hsize htype hfixed hlen hfour h

theorem parse_pad (hwf : c.WellFormed) (h : c.serialize.length < 2 ^ 16)
    (herror : ∀ p, c ≠ error p) : parse c.type (pad c.serialize) = some c.normalize := by
  have hblock := c.block_serialize
  have hparameters : ∀ p, c.parameters? = some p → Parameters.parse p.data = some p :=
    fun p hp => hwf.parse_parameters hp h
  cases c with
  | error errorCauses => exact absurd rfl (herror errorCauses)
  | data c => exact congrArg (Option.map Chunk.data) (c.parseData_pad h)
  | iData c => exact congrArg (Option.map Chunk.iData) (c.parseIData_pad h)
  | init c =>
    exact congrArg (Option.map Chunk.init) (c.parse_pad rfl rfl (by decide) rfl
      (hparameters _ rfl) h)
  | initAck c =>
    exact congrArg (Option.map Chunk.initAck) (c.parse_pad rfl rfl (by decide) rfl
      (hparameters _ rfl) h)
  | sack c => exact congrArg (Option.map Chunk.sack) (c.parse_pad (hwf.sorted c rfl) h)
  | forwardTsn c => exact congrArg (Option.map Chunk.forwardTsn) (c.parse_pad h)
  | iForwardTsn c => exact congrArg (Option.map Chunk.iForwardTsn) (c.iParse_pad h)
  | heartbeatRequest p =>
    exact congrArg (Option.map Chunk.heartbeatRequest) (parseParameters_unaligned rfl rfl
      (by decide) rfl (hparameters _ rfl) h)
  | heartbeatAck p =>
    exact congrArg (Option.map Chunk.heartbeatAck) (parseParameters_unaligned rfl rfl
      (by decide) rfl (hparameters _ rfl) h)
  | reConfig p =>
    exact congrArg (Option.map Chunk.reConfig) (parseParameters_unaligned rfl rfl
      (by decide) rfl (hparameters _ rfl) h)
  | abort filledInVerificationTag errorCauses =>
    exact parseAbort_pad (hparameters _ rfl) h
  | cookieEcho cookie =>
    have hparse := hblock.parseTLV_aligned le_rfl rfl (by simp [config, cookieEchoConfig])
      (by simp [config, cookieEchoConfig]) h (one_dvd _)
    have hcookie : (cookieEchoConfig.serializeBytes cookie).drop 4 = cookie :=
      drop_serializeBytes cookieEchoConfig cookie
    refine (congrArg (Option.map fun reader => Chunk.cookieEcho (reader.drop 4)) hparse).trans ?_
    exact congrArg (fun cookie => some (Chunk.cookieEcho cookie)) hcookie
  | shutdown cumulativeTsnAck =>
    have hparse := parseTLV_fixed rfl (by simp [config, shutdownConfig]) rfl
      (by simp [serialize, config]) ⟨2, rfl⟩ h
    have htsn : load32 (shutdown cumulativeTsnAck).serialize 4 = cumulativeTsnAck := by
      simp [serialize, shutdownConfig]
    refine (congrArg (Option.map fun reader => Chunk.shutdown (load32 reader 4)) hparse).trans ?_
    exact congrArg (fun tsn => some (Chunk.shutdown tsn)) htsn
  | shutdownAck =>
    exact congrArg (Option.map fun _ => Chunk.shutdownAck) (parseTLV_fixed rfl
      (by simp [config, shutdownAckConfig]) rfl (by simp [serialize, config]) ⟨1, rfl⟩ h)
  | cookieAck =>
    exact congrArg (Option.map fun _ => Chunk.cookieAck) (parseTLV_fixed rfl
      (by simp [config, cookieAckConfig]) rfl (by simp [serialize, config]) ⟨1, rfl⟩ h)
  | shutdownComplete tagReflected =>
    have hparse := parseTLV_fixed rfl (by simp [config, shutdownCompleteConfig]) rfl
      (by simp [serialize, config]) ⟨1, rfl⟩ h
    have hflags : load8 (shutdownComplete tagReflected).serialize 1 =
        if tagReflected then 1#8 <<< kFlagsBitT else 0 := by
      simp [serialize, shutdownCompleteConfig]
    refine (congrArg (Option.map fun reader => Chunk.shutdownComplete
      (load8 reader 1 &&& (1#8 <<< kFlagsBitT) ≠ 0)) hparse).trans ?_
    simp only [Option.map_some, hflags]
    cases tagReflected <;> rfl

theorem parse_pad_error (hwf : (error p).WellFormed) (h : (error p).serialize.length < 2 ^ 16) :
    parse (error p).type (pad (error p).serialize) =
      if 4 ∣ (error p).serialize.length then some (error p) else none := by
  have hp := hwf.parse_parameters rfl h
  refine (congrArg (Option.map Chunk.error) (parseParameters_pad rfl rfl (by decide) (by decide)
    hp h)).trans ?_
  simp only [Nat.dvd_iff_mod_eq_zero, apply_ite (Option.map Chunk.error)]
  rfl

end Chunk

end WebRtc.DcSctp
