import WebRtc.DcSctp.Packet.Parameter
import WebRtc.DcSctp.ReassemblyStreams

/-! The chunks of a packet and their wire format (`packet/chunk`). -/

namespace WebRtc.DcSctp

open ByteBuffer

abbrev VerificationTag := BitVec 32

structure AnyDataChunk where
  tsn : TSN
  data : Data
  immediateAck : Bool
  deriving DecidableEq, Repr

structure InitChunk where
  initiateTag : VerificationTag
  aRwnd : BitVec 32
  nbrOutboundStreams : BitVec 16
  nbrInboundStreams : BitVec 16
  initialTsn : TSN
  parameters : Parameters
  deriving DecidableEq, Repr

inductive Chunk where
  | data (chunk : AnyDataChunk)
  | init (chunk : InitChunk)
  | initAck (chunk : InitChunk)
  | sack (chunk : SackChunk)
  | heartbeatRequest (parameters : Parameters)
  | heartbeatAck (parameters : Parameters)
  | abort (filledInVerificationTag : Bool) (errorCauses : Parameters)
  | shutdown (cumulativeTsnAck : TSN)
  | shutdownAck
  | error (errorCauses : Parameters)
  | cookieEcho (cookie : List UInt8)
  | cookieAck
  | shutdownComplete (tagReflected : Bool)
  | iData (chunk : AnyDataChunk)
  | reConfig (parameters : Parameters)
  | forwardTsn (chunk : ForwardTsnChunk)
  | iForwardTsn (chunk : ForwardTsnChunk)
  deriving DecidableEq, Repr

namespace Chunk

def dataConfig : TlvConfig := ⟨0, 1, 16, 1⟩
def initConfig : TlvConfig := ⟨1, 1, 20, 1⟩
def initAckConfig : TlvConfig := ⟨2, 1, 20, 1⟩
def sackConfig : TlvConfig := ⟨3, 1, 16, 4⟩
def heartbeatRequestConfig : TlvConfig := ⟨4, 1, 4, 1⟩
def heartbeatAckConfig : TlvConfig := ⟨5, 1, 4, 1⟩
def abortConfig : TlvConfig := ⟨6, 1, 4, 1⟩
def shutdownConfig : TlvConfig := ⟨7, 1, 8, 0⟩
def shutdownAckConfig : TlvConfig := ⟨8, 1, 4, 0⟩
def errorConfig : TlvConfig := ⟨9, 1, 4, 4⟩
def cookieEchoConfig : TlvConfig := ⟨10, 1, 4, 1⟩
def cookieAckConfig : TlvConfig := ⟨11, 1, 4, 0⟩
def shutdownCompleteConfig : TlvConfig := ⟨14, 1, 4, 0⟩
def iDataConfig : TlvConfig := ⟨64, 1, 20, 1⟩
def reConfigConfig : TlvConfig := ⟨130, 1, 4, 1⟩
def forwardTsnConfig : TlvConfig := ⟨192, 1, 8, 4⟩
def iForwardTsnConfig : TlvConfig := ⟨194, 1, 8, 8⟩

def config : Chunk → TlvConfig
  | data _ => dataConfig
  | init _ => initConfig
  | initAck _ => initAckConfig
  | sack _ => sackConfig
  | heartbeatRequest _ => heartbeatRequestConfig
  | heartbeatAck _ => heartbeatAckConfig
  | abort .. => abortConfig
  | shutdown _ => shutdownConfig
  | shutdownAck => shutdownAckConfig
  | error _ => errorConfig
  | cookieEcho _ => cookieEchoConfig
  | cookieAck => cookieAckConfig
  | shutdownComplete _ => shutdownCompleteConfig
  | iData _ => iDataConfig
  | reConfig _ => reConfigConfig
  | forwardTsn _ => forwardTsnConfig
  | iForwardTsn _ => iForwardTsnConfig

end Chunk

/-! ### DATA and I-DATA -/

namespace AnyDataChunk

def kFlagsBitEnd : Nat := 0
def kFlagsBitBeginning : Nat := 1
def kFlagsBitUnordered : Nat := 2
def kFlagsBitImmediateAck : Nat := 3

def flags (c : AnyDataChunk) : BitVec 8 :=
  (if c.data.isEnd then 1#8 <<< kFlagsBitEnd else 0) |||
  (if c.data.isBeginning then 1#8 <<< kFlagsBitBeginning else 0) |||
  (if c.data.isUnordered then 1#8 <<< kFlagsBitUnordered else 0) |||
  (if c.immediateAck then 1#8 <<< kFlagsBitImmediateAck else 0)

def hasFlag (flags : BitVec 8) (bit : Nat) : Bool := flags &&& (1#8 <<< bit) ≠ 0

def serializeData (c : AnyDataChunk) : List UInt8 :=
  let out := Chunk.dataConfig.allocateTLV c.data.payload.length
  let out := store8 out 1 c.flags
  let out := store32 out 4 c.tsn
  let out := store16 out 8 c.data.streamId
  let out := store16 out 10 c.data.ssn
  let out := store32 out 12 c.data.ppid
  Chunk.dataConfig.copyToVariableData out c.data.payload

def parseData (data : List UInt8) : Option AnyDataChunk := do
  let reader ← Chunk.dataConfig.parseTLV data
  let flags := load8 reader 1
  return {
    tsn := load32 reader 4
    data := {
      streamId := load16 reader 8
      ssn := load16 reader 10
      mid := 0
      fsn := 0
      ppid := load32 reader 12
      payload := reader.drop 16
      isBeginning := hasFlag flags kFlagsBitBeginning
      isEnd := hasFlag flags kFlagsBitEnd
      isUnordered := hasFlag flags kFlagsBitUnordered }
    immediateAck := hasFlag flags kFlagsBitImmediateAck }

def serializeIData (c : AnyDataChunk) : List UInt8 :=
  let out := Chunk.iDataConfig.allocateTLV c.data.payload.length
  let out := store8 out 1 c.flags
  let out := store32 out 4 c.tsn
  let out := store16 out 8 c.data.streamId
  let out := store32 out 12 c.data.mid
  let out := store32 out 16 (if c.data.isBeginning then c.data.ppid else c.data.fsn)
  Chunk.iDataConfig.copyToVariableData out c.data.payload

def parseIData (data : List UInt8) : Option AnyDataChunk := do
  let reader ← Chunk.iDataConfig.parseTLV data
  let flags := load8 reader 1
  let ppidOrFsn := load32 reader 16
  return {
    tsn := load32 reader 4
    data := {
      streamId := load16 reader 8
      ssn := 0
      mid := load32 reader 12
      fsn := if hasFlag flags kFlagsBitBeginning then 0 else ppidOrFsn
      ppid := if hasFlag flags kFlagsBitBeginning then ppidOrFsn else 0
      payload := reader.drop 20
      isBeginning := hasFlag flags kFlagsBitBeginning
      isEnd := hasFlag flags kFlagsBitEnd
      isUnordered := hasFlag flags kFlagsBitUnordered }
    immediateAck := hasFlag flags kFlagsBitImmediateAck }

end AnyDataChunk

/-! ### INIT and INIT-ACK -/

namespace InitChunk

def serialize (config : TlvConfig) (c : InitChunk) : List UInt8 :=
  let out := config.allocateTLV c.parameters.data.length
  let out := store32 out 4 c.initiateTag
  let out := store32 out 8 c.aRwnd
  let out := store16 out 12 c.nbrOutboundStreams
  let out := store16 out 14 c.nbrInboundStreams
  let out := store32 out 16 c.initialTsn
  config.copyToVariableData out c.parameters.data

def parse (config : TlvConfig) (data : List UInt8) : Option InitChunk := do
  let reader ← config.parseTLV data
  let parameters ← Parameters.parse (reader.drop 20)
  return {
    initiateTag := load32 reader 4
    aRwnd := load32 reader 8
    nbrOutboundStreams := load16 reader 12
    nbrInboundStreams := load16 reader 14
    initialTsn := load32 reader 16
    parameters }

end InitChunk

/-! ### SACK -/

def GapAckBlock.encode (block : GapAckBlock) : List UInt8 :=
  store16 (store16 (List.replicate 4 0) 0 block.start) 2 block.end

def GapAckBlock.decode (data : List UInt8) : GapAckBlock := ⟨load16 data 0, load16 data 2⟩

namespace SackChunk

def serialize (c : SackChunk) : List UInt8 :=
  let variableSize := c.gapAckBlocks.length * 4 + c.duplicateTsns.length * 4
  let out := Chunk.sackConfig.allocateTLV variableSize
  let out := store32 out 4 c.cumulativeTsnAck
  let out := store32 out 8 c.aRwnd
  let out := store16 out 12 (BitVec.ofNat 16 c.gapAckBlocks.length)
  let out := store16 out 14 (BitVec.ofNat 16 c.duplicateTsns.length)
  let out := storeEach GapAckBlock.encode 4 out 16 c.gapAckBlocks
  storeEach bigEndian32 4 out (16 + c.gapAckBlocks.length * 4) c.duplicateTsns

def parse (data : List UInt8) : Option SackChunk := do
  let reader ← Chunk.sackConfig.parseTLV data
  let nbrOfGapBlocks := (load16 reader 12).toNat
  let nbrOfDupTsns := (load16 reader 14).toNat
  if reader.length - 16 ≠ nbrOfGapBlocks * 4 + nbrOfDupTsns * 4 then none
  let duplicateTsns :=
    loadEach (load32 · 0) 4 reader (16 + nbrOfGapBlocks * 4) nbrOfDupTsns
  return {
    cumulativeTsnAck := load32 reader 4
    aRwnd := load32 reader 8
    gapAckBlocks := loadEach GapAckBlock.decode 4 reader 16 nbrOfGapBlocks
    duplicateTsns := (duplicateTsns.foldl OrdSet.insert ∅).toList }

end SackChunk

/-! ### FORWARD-TSN and I-FORWARD-TSN -/

namespace SkippedStream

def encode (s : SkippedStream) : List UInt8 :=
  store16 (store16 (List.replicate 4 0) 0 s.streamId) 2 s.ssn

def decode (data : List UInt8) : SkippedStream := ⟨load16 data 0, load16 data 2, false, 0⟩

def iEncode (s : SkippedStream) : List UInt8 :=
  store32 (store8 (store16 (List.replicate 8 0) 0 s.streamId) 3 (if s.unordered then 1 else 0)) 4
    s.mid

def iDecode (data : List UInt8) : SkippedStream :=
  ⟨load16 data 0, 0, load8 data 3 &&& 1 ≠ 0, load32 data 4⟩

end SkippedStream

namespace ForwardTsnChunk

def serialize (c : ForwardTsnChunk) : List UInt8 :=
  let out := Chunk.forwardTsnConfig.allocateTLV (c.skippedStreams.length * 4)
  let out := store32 out 4 c.newCumulativeTsn
  storeEach SkippedStream.encode 4 out 8 c.skippedStreams

def parse (data : List UInt8) : Option ForwardTsnChunk := do
  let reader ← Chunk.forwardTsnConfig.parseTLV data
  return {
    newCumulativeTsn := load32 reader 4
    skippedStreams := loadEach SkippedStream.decode 4 reader 8 ((reader.length - 8) / 4) }

def iSerialize (c : ForwardTsnChunk) : List UInt8 :=
  let out := Chunk.iForwardTsnConfig.allocateTLV (c.skippedStreams.length * 8)
  let out := store32 out 4 c.newCumulativeTsn
  storeEach SkippedStream.iEncode 8 out 8 c.skippedStreams

def iParse (data : List UInt8) : Option ForwardTsnChunk := do
  let reader ← Chunk.iForwardTsnConfig.parseTLV data
  return {
    newCumulativeTsn := load32 reader 4
    skippedStreams := loadEach SkippedStream.iDecode 8 reader 8 ((reader.length - 8) / 8) }

end ForwardTsnChunk

namespace Chunk

def parseParameters (config : TlvConfig) (data : List UInt8) : Option Parameters := do
  let reader ← config.parseTLV data
  Parameters.parse (reader.drop 4)

def kFlagsBitT : Nat := 0

/-- `SerializeTo`, which appends these bytes. -/
def serialize : Chunk → List UInt8
  | data c => c.serializeData
  | init c => c.serialize initConfig
  | initAck c => c.serialize initAckConfig
  | sack c => c.serialize
  | heartbeatRequest parameters => heartbeatRequestConfig.serializeBytes parameters.data
  | heartbeatAck parameters => heartbeatAckConfig.serializeBytes parameters.data
  | abort filledInVerificationTag errorCauses =>
    let out := abortConfig.allocateTLV errorCauses.data.length
    let out := store8 out 1 (if filledInVerificationTag then 0 else 1#8 <<< kFlagsBitT)
    abortConfig.copyToVariableData out errorCauses.data
  | shutdown cumulativeTsnAck => store32 (shutdownConfig.allocateTLV 0) 4 cumulativeTsnAck
  | shutdownAck => shutdownAckConfig.allocateTLV 0
  | error errorCauses => errorConfig.serializeBytes errorCauses.data
  | cookieEcho cookie => cookieEchoConfig.serializeBytes cookie
  | cookieAck => cookieAckConfig.allocateTLV 0
  | shutdownComplete tagReflected =>
    store8 (shutdownCompleteConfig.allocateTLV 0) 1 (if tagReflected then 1#8 <<< kFlagsBitT else 0)
  | iData c => c.serializeIData
  | reConfig parameters => reConfigConfig.serializeBytes parameters.data
  | forwardTsn c => c.serialize
  | iForwardTsn c => c.iSerialize

/-- The `Parse` of the class that handles chunks of this type. -/
def parse (type : BitVec 8) (data : List UInt8) : Option Chunk :=
  match type.toNat with
  | 0 => (AnyDataChunk.parseData data).map .data
  | 1 => (InitChunk.parse initConfig data).map .init
  | 2 => (InitChunk.parse initAckConfig data).map .initAck
  | 3 => (SackChunk.parse data).map .sack
  | 4 => (parseParameters heartbeatRequestConfig data).map .heartbeatRequest
  | 5 => (parseParameters heartbeatAckConfig data).map .heartbeatAck
  | 6 => do
    let reader ← abortConfig.parseTLV data
    let errorCauses ← Parameters.parse (reader.drop 4)
    return .abort (load8 reader 1 &&& (1#8 <<< kFlagsBitT) = 0) errorCauses
  | 7 => (shutdownConfig.parseTLV data).map fun reader => .shutdown (load32 reader 4)
  | 8 => (shutdownAckConfig.parseTLV data).map fun _ => .shutdownAck
  | 9 => (parseParameters errorConfig data).map .error
  | 10 => (cookieEchoConfig.parseTLV data).map fun reader => .cookieEcho (reader.drop 4)
  | 11 => (cookieAckConfig.parseTLV data).map fun _ => .cookieAck
  | 14 => (shutdownCompleteConfig.parseTLV data).map fun reader =>
    .shutdownComplete (load8 reader 1 &&& (1#8 <<< kFlagsBitT) ≠ 0)
  | 64 => (AnyDataChunk.parseIData data).map .iData
  | 130 => (parseParameters reConfigConfig data).map .reConfig
  | 192 => (ForwardTsnChunk.parse data).map .forwardTsn
  | 194 => (ForwardTsnChunk.iParse data).map .iForwardTsn
  | _ => none

end Chunk

end WebRtc.DcSctp
