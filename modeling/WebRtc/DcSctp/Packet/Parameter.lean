import WebRtc.Lib.ByteBuffer
import WebRtc.DcSctp.Types

/-! Type-length-value blocks (`packet/tlv_trait`) and the parameters and error causes that chunks
carry (`packet/parameter`, `packet/error_cause`). -/

namespace WebRtc.DcSctp

open ByteBuffer List

abbrev ReconfigRequestSN := BitVec 32

structure TlvConfig where
  type : Nat
  typeSizeInBytes : Nat
  headerSize : Nat
  variableLengthAlignment : Nat

namespace TlvConfig

def parseTLV (config : TlvConfig) (data : List UInt8) : Option (List UInt8) :=
  if data.length < config.headerSize then none
  else
    let type :=
      if config.typeSizeInBytes = 1 then (load8 data 0).toNat else (load16 data 0).toNat
    let length := (load16 data 2).toNat
    if type ≠ config.type then none
    else if config.variableLengthAlignment = 0 then
      if length ≠ config.headerSize ∨ data.length ≠ config.headerSize then none
      else some (data.take length)
    else if data.length < length ∨ length < config.headerSize then none
    else if 3 < data.length - length then none
    else if length % config.variableLengthAlignment ≠ 0 then none
    else some (data.take length)

def allocateTLV (config : TlvConfig) (variableSize : Nat) : List UInt8 :=
  let size := config.headerSize + variableSize
  let out := List.replicate size 0
  let out :=
    if config.typeSizeInBytes = 1 then store8 out 0 (BitVec.ofNat 8 config.type)
    else store16 out 0 (BitVec.ofNat 16 config.type)
  store16 out 2 (BitVec.ofNat 16 size)

def copyToVariableData (config : TlvConfig) (out source : List UInt8) : List UInt8 :=
  store out config.headerSize (source.take (out.length - config.headerSize))

def serializeBytes (config : TlvConfig) (source : List UInt8) : List UInt8 :=
  config.copyToVariableData (config.allocateTLV source.length) source

@[simp] theorem length_allocateTLV (config : TlvConfig) (variableSize : Nat) :
    (config.allocateTLV variableSize).length = config.headerSize + variableSize := by
  simp only [allocateTLV]
  split_ifs <;> simp

@[simp] theorem length_copyToVariableData (config : TlvConfig) (out source : List UInt8) :
    (config.copyToVariableData out source).length = out.length := by
  simp [copyToVariableData]

structure Block (config : TlvConfig) (out : List UInt8) : Prop where
  headerSize_le : config.headerSize ≤ out.length
  type_eq : if config.typeSizeInBytes = 1 then load8 out 0 = BitVec.ofNat 8 config.type
    else load16 out 0 = BitVec.ofNat 16 config.type
  length_eq : load16 out 2 = BitVec.ofNat 16 out.length

namespace Block

variable {config : TlvConfig} {out : List UInt8}

theorem allocateTLV (h : 4 ≤ config.headerSize) (variableSize : Nat) :
    config.Block (config.allocateTLV variableSize) where
  headerSize_le := by simp
  type_eq := by
    by_cases hsize : config.typeSizeInBytes = 1
    · simp only [TlvConfig.allocateTLV, hsize, if_true]
      rw [store16, load8_store_of_disjoint (.inl (by omega)), load8_store8 (by simp; omega)]
    · simp only [TlvConfig.allocateTLV, hsize, if_false]
      rw [store16, load16_store_of_disjoint (.inl (by omega)), load16_store16 (by simp; omega)]
  length_eq := by
    rw [length_allocateTLV]
    apply load16_store16
    split_ifs <;> simp <;> omega

section

variable (h : config.Block out)
include h

theorem store {offset : Nat} (ho : 4 ≤ offset) (bytes : List UInt8) :
    config.Block (ByteBuffer.store out offset bytes) where
  headerSize_le := by simpa using h.headerSize_le
  type_eq := by
    rw [load8_store_of_disjoint (.inl (by omega)), load16_store_of_disjoint (.inl (by omega))]
    exact h.type_eq
  length_eq := by
    rw [load16_store_of_disjoint (.inl (by omega)), length_store]
    exact h.length_eq

theorem store16 {offset : Nat} (ho : 4 ≤ offset) (v : BitVec 16) :
    config.Block (ByteBuffer.store16 out offset v) := h.store ho _

theorem store32 {offset : Nat} (ho : 4 ≤ offset) (v : BitVec 32) :
    config.Block (ByteBuffer.store32 out offset v) := h.store ho _

theorem storeEach {offset : Nat} (ho : 4 ≤ offset) {α : Type}
    (encode : α → List UInt8) (size : Nat) (items : List α) :
    config.Block (ByteBuffer.storeEach encode size out offset items) := by
  induction items generalizing out offset with
  | nil => exact h
  | cons item items ih => exact ih (h.store ho _) (by omega)

theorem store8_flags (hsize : config.typeSizeInBytes = 1)
    (flags : BitVec 8) : config.Block (store8 out 1 flags) where
  headerSize_le := by simpa using h.headerSize_le
  type_eq := by
    rw [store8, load8_store_of_disjoint (.inl (by omega)), if_pos hsize]
    exact (if_pos hsize ▸ h.type_eq :)
  length_eq := by
    rw [store8, load16_store_of_disjoint (.inr (by simp [bigEndian8])), length_store]
    exact h.length_eq

end

theorem serializeBytes (h : 4 ≤ config.headerSize) (source : List UInt8) :
    config.Block (config.serializeBytes source) :=
  (allocateTLV h _).store h _

end Block

end TlvConfig

namespace ReconfigurationResponseParameter

inductive Result where
  | kSuccessNothingToDo
  | kSuccessPerformed
  | kDenied
  | kErrorWrongSSN
  | kErrorRequestAlreadyInProgress
  | kErrorBadSequenceNumber
  | kInProgress
  deriving DecidableEq, Repr

def Result.toUnderlying : Result → BitVec 32
  | .kSuccessNothingToDo => 0
  | .kSuccessPerformed => 1
  | .kDenied => 2
  | .kErrorWrongSSN => 3
  | .kErrorRequestAlreadyInProgress => 4
  | .kErrorBadSequenceNumber => 5
  | .kInProgress => 6

end ReconfigurationResponseParameter

/-- The classes derived from `Parameter`. Error causes are among them. -/
inductive Parameter where
  | heartbeatInfo (info : List UInt8)
  | stateCookie (data : List UInt8)
  | outgoingSSNResetRequest (requestSequenceNumber responseSequenceNumber : ReconfigRequestSN)
    (senderLastAssignedTsn : TSN) (streamIds : List StreamID)
  | incomingSSNResetRequest (requestSequenceNumber : ReconfigRequestSN)
    (streamIds : List StreamID)
  | ssnTSNResetRequest (requestSequenceNumber : ReconfigRequestSN)
  | reconfigurationResponse (responseSequenceNumber : ReconfigRequestSN)
    (result : ReconfigurationResponseParameter.Result)
    (senderNextTsn receiverNextTsn : Option TSN)
  | addOutgoingStreamsRequest (requestSequenceNumber : ReconfigRequestSN)
    (nbrOfNewStreams : BitVec 16)
  | addIncomingStreamsRequest (requestSequenceNumber : ReconfigRequestSN)
    (nbrOfNewStreams : BitVec 16)
  | zeroChecksumAcceptableChunk (errorDetectionMethod : BitVec 32)
  | supportedExtensions (chunkTypes : List UInt8)
  | forwardTsnSupported
  | invalidStreamIdentifierCause (streamId : StreamID)
  | missingMandatoryParameterCause (missingParameterTypes : List (BitVec 16))
  | staleCookieErrorCause (stalenessUs : BitVec 32)
  | outOfResourceErrorCause
  | unresolvableAddressCause (unresolvableAddress : List UInt8)
  | unrecognizedChunkTypeCause (unrecognizedChunk : List UInt8)
  | invalidMandatoryParameterCause
  | unrecognizedParametersCause (unrecognizedParameters : List UInt8)
  | noUserDataCause (tsn : TSN)
  | cookieReceivedWhileShuttingDownCause
  | restartOfAnAssociationWithNewAddressesCause (newAddressTlvs : List UInt8)
  | userInitiatedAbortCause (upperLayerAbortReason : List UInt8)
  | protocolViolationCause (additionalInformation : List UInt8)
  deriving DecidableEq, Repr

variable (p : Parameter)

namespace Parameter

def config : Parameter → TlvConfig
  | heartbeatInfo _ => ⟨1, 2, 4, 1⟩
  | stateCookie _ => ⟨7, 2, 4, 1⟩
  | outgoingSSNResetRequest .. => ⟨13, 2, 16, 2⟩
  | incomingSSNResetRequest .. => ⟨14, 2, 8, 2⟩
  | ssnTSNResetRequest _ => ⟨15, 2, 8, 0⟩
  | reconfigurationResponse .. => ⟨16, 2, 12, 4⟩
  | addOutgoingStreamsRequest .. => ⟨17, 2, 12, 0⟩
  | addIncomingStreamsRequest .. => ⟨18, 2, 12, 0⟩
  | zeroChecksumAcceptableChunk _ => ⟨0x8001, 2, 8, 0⟩
  | supportedExtensions _ => ⟨0x8008, 2, 4, 1⟩
  | forwardTsnSupported => ⟨49152, 2, 4, 0⟩
  | invalidStreamIdentifierCause _ => ⟨1, 2, 8, 0⟩
  | missingMandatoryParameterCause _ => ⟨2, 2, 8, 2⟩
  | staleCookieErrorCause _ => ⟨3, 2, 8, 0⟩
  | outOfResourceErrorCause => ⟨4, 2, 4, 0⟩
  | unresolvableAddressCause _ => ⟨5, 2, 4, 1⟩
  | unrecognizedChunkTypeCause _ => ⟨6, 2, 4, 1⟩
  | invalidMandatoryParameterCause => ⟨7, 2, 4, 0⟩
  | unrecognizedParametersCause _ => ⟨8, 2, 4, 1⟩
  | noUserDataCause _ => ⟨9, 2, 8, 0⟩
  | cookieReceivedWhileShuttingDownCause => ⟨10, 2, 4, 0⟩
  | restartOfAnAssociationWithNewAddressesCause _ => ⟨11, 2, 4, 1⟩
  | userInitiatedAbortCause _ => ⟨12, 2, 4, 1⟩
  | protocolViolationCause _ => ⟨13, 2, 4, 1⟩

/-- `SerializeTo`, which appends these bytes. -/
def serialize (p : Parameter) : List UInt8 :=
  match p with
  | heartbeatInfo source | stateCookie source | supportedExtensions source
  | unresolvableAddressCause source | unrecognizedChunkTypeCause source
  | unrecognizedParametersCause source | restartOfAnAssociationWithNewAddressesCause source
  | userInitiatedAbortCause source | protocolViolationCause source =>
    p.config.serializeBytes source
  | outgoingSSNResetRequest request response senderLastAssignedTsn streamIds =>
    let out := p.config.allocateTLV (streamIds.length * 2)
    let out := store32 (store32 (store32 out 4 request) 8 response) 12 senderLastAssignedTsn
    storeEach bigEndian16 2 out 16 streamIds
  | incomingSSNResetRequest request streamIds =>
    let out := store32 (p.config.allocateTLV (streamIds.length * 2)) 4 request
    storeEach bigEndian16 2 out 8 streamIds
  | reconfigurationResponse response result senderNextTsn receiverNextTsn =>
    let out := p.config.allocateTLV (if senderNextTsn.isSome then 8 else 0)
    let out := store32 (store32 out 4 response) 8 result.toUnderlying
    if senderNextTsn.isSome then
      store32 (store32 out 12 (senderNextTsn.getD 0)) 16 (receiverNextTsn.getD 0)
    else out
  | addOutgoingStreamsRequest request nbrOfNewStreams
  | addIncomingStreamsRequest request nbrOfNewStreams =>
    store16 (store32 (p.config.allocateTLV 0) 4 request) 8 nbrOfNewStreams
  | ssnTSNResetRequest value | zeroChecksumAcceptableChunk value | staleCookieErrorCause value
  | noUserDataCause value => store32 (p.config.allocateTLV 0) 4 value
  | invalidStreamIdentifierCause streamId => store16 (p.config.allocateTLV 0) 4 streamId
  | missingMandatoryParameterCause missingParameterTypes =>
    let out := p.config.allocateTLV (missingParameterTypes.length * 2)
    let out := store32 out 4 (BitVec.ofNat 32 missingParameterTypes.length)
    storeEach bigEndian16 2 out 8 missingParameterTypes
  | forwardTsnSupported | outOfResourceErrorCause | invalidMandatoryParameterCause
  | cookieReceivedWhileShuttingDownCause => p.config.allocateTLV 0

theorem four_le_headerSize : 4 ≤ p.config.headerSize := by
  cases p <;> simp [config]

theorem block_serialize : p.config.Block p.serialize := by
  have hnew := TlvConfig.Block.allocateTLV p.four_le_headerSize
  have hbytes := TlvConfig.Block.serializeBytes p.four_le_headerSize
  cases p with
  | outgoingSSNResetRequest request response tsn streamIds =>
    refine TlvConfig.Block.storeEach ?_ (by omega) ..
    exact (((hnew _).store32 (by omega) _).store32 (by omega) _).store32 (by omega) _
  | incomingSSNResetRequest request streamIds =>
    exact ((hnew _).store32 (by omega) _).storeEach (by omega) ..
  | reconfigurationResponse response result senderNextTsn receiverNextTsn =>
    simp only [serialize]
    have hout variableSize := ((hnew variableSize).store32 (show 4 ≤ 4 by omega) response).store32
      (show 4 ≤ 8 by omega) result.toUnderlying
    split
    · exact ((hout _).store32 (by omega) _).store32 (by omega) _
    · exact hout _
  | addOutgoingStreamsRequest request nbrOfNewStreams
  | addIncomingStreamsRequest request nbrOfNewStreams =>
    exact ((hnew _).store32 (by omega) _).store16 (by omega) _
  | ssnTSNResetRequest value | zeroChecksumAcceptableChunk value | staleCookieErrorCause value
  | noUserDataCause value =>
    exact (hnew _).store32 (by omega) _
  | invalidStreamIdentifierCause streamId => exact (hnew _).store16 (by omega) _
  | missingMandatoryParameterCause missingParameterTypes =>
    exact ((hnew _).store32 (by omega) _).storeEach (by omega) ..
  | forwardTsnSupported | outOfResourceErrorCause | invalidMandatoryParameterCause
  | cookieReceivedWhileShuttingDownCause => exact hnew _
  | heartbeatInfo source | stateCookie source | supportedExtensions source
  | unresolvableAddressCause source | unrecognizedChunkTypeCause source
  | unrecognizedParametersCause source | restartOfAnAssociationWithNewAddressesCause source
  | userInitiatedAbortCause source | protocolViolationCause source => exact hbytes source

end Parameter

open Parameter

structure ParameterDescriptor where
  type : BitVec 16
  data : List UInt8
  deriving DecidableEq, Repr

def Parameter.descriptor (p : Parameter) : ParameterDescriptor :=
  ⟨BitVec.ofNat 16 p.config.type, p.serialize⟩

structure Parameters where
  data : List UInt8
  deriving DecidableEq, Repr

namespace Parameters

def pad (data : List UInt8) : List UInt8 :=
  data ++ List.replicate (roundUpTo4 data.length - data.length) 0

def add (data : List UInt8) (p : Parameter) : List UInt8 := pad data ++ p.serialize

def build (ps : List Parameter) : Parameters := ⟨ps.foldl add []⟩

/-- `RoundUpTo4` of a `uint16_t`. -/
def lengthWithPadding (length : BitVec 16) : Nat :=
  (BitVec.ofNat 16 (roundUpTo4 length.toNat)).toNat

/-- The loop of `descriptors`. It has no result if a header does not fit, which is a failed check,
or if the loop does not end, which `fuel` cuts off. -/
def descriptorsFrom : Nat → List UInt8 → Option (List ParameterDescriptor)
  | 0, _ => none
  | fuel + 1, span =>
    if span.isEmpty then some []
    else if span.length < 4 then none
    else
      let length := load16 span 2
      let descriptor := ⟨load16 span 0, span.take length.toNat⟩
      if span.length < lengthWithPadding length then some [descriptor]
      else (descriptorsFrom fuel (span.drop (lengthWithPadding length))).map (descriptor :: ·)

def descriptors (ps : Parameters) : Option (List ParameterDescriptor) :=
  descriptorsFrom (ps.data.length + 1) ps.data

/-- The loop of `Parse`: whether the descriptors are valid. -/
def validateFrom : Nat → List UInt8 → Bool
  | 0, _ => false
  | fuel + 1, span =>
    if span.isEmpty then true
    else if span.length < 4 then false
    else
      let length := load16 span 2
      if length.toNat < 4 ∨ span.length < length.toNat then false
      else if span.length < lengthWithPadding length then true
      else validateFrom fuel (span.drop (lengthWithPadding length))

def parse (data : List UInt8) : Option Parameters :=
  if validateFrom (data.length + 1) data then some ⟨data⟩ else none

theorem le_roundUpTo4 (n : Nat) : n ≤ roundUpTo4 n := by
  simp only [roundUpTo4]
  omega

@[simp] theorem length_pad (data : List UInt8) : (pad data).length = roundUpTo4 data.length := by
  have := le_roundUpTo4 data.length
  simp only [pad, length_append, length_replicate]
  omega

theorem pad_append {a : List UInt8} (h : 4 ∣ a.length) (b : List UInt8) :
    pad (a ++ b) = a ++ pad b := by
  have hpadding : roundUpTo4 (a.length + b.length) - (a.length + b.length) =
      roundUpTo4 b.length - b.length := by
    simp only [roundUpTo4]
    omega
  simp [pad, hpadding]

def join : List (List UInt8) → List UInt8
  | [] => []
  | [block] => block
  | block :: blocks => pad block ++ join blocks

variable (ps : List Parameter)

theorem foldl_add (data : List UInt8) :
    (p :: ps).foldl add data = pad data ++ join ((p :: ps).map serialize) := by
  induction ps generalizing p data with
  | nil => rfl
  | cons next ps ih =>
    rw [foldl_cons, ih, add, pad_append (by simp [roundUpTo4])]
    simp [join]

theorem build_data : (build ps).data = join (ps.map serialize) := by
  cases ps with
  | nil => rfl
  | cons p ps =>
    rw [build, foldl_add]
    simp [pad, roundUpTo4]

structure Starts (p : Parameter) (span rest : List UInt8) : Prop where
  length_le : p.serialize.length ≤ span.length
  type_eq : load16 span 0 = BitVec.ofNat 16 p.config.type
  length_eq : (load16 span 2).toNat = p.serialize.length
  take_eq : span.take p.serialize.length = p.serialize
  next : (span.length < lengthWithPadding (load16 span 2) ∧ rest = []) ∨
    (lengthWithPadding (load16 span 2) ≤ span.length ∧
      span.drop (lengthWithPadding (load16 span 2)) = rest)

theorem four_le_serialize : 4 ≤ p.serialize.length :=
  p.four_le_headerSize.trans p.block_serialize.headerSize_le

theorem load16_serialize_append (tail : List UInt8) :
    load16 (p.serialize ++ tail) 0 = BitVec.ofNat 16 p.config.type ∧
      load16 (p.serialize ++ tail) 2 = BitVec.ofNat 16 p.serialize.length := by
  have hfour := four_le_serialize p
  have htype := p.block_serialize.type_eq
  rw [if_neg (by cases p <;> simp [config])] at htype
  rw [load16_append _ (by omega), load16_append _ (by omega)]
  exact ⟨htype, p.block_serialize.length_eq⟩

variable {p : Parameter}

theorem starts_join (h : roundUpTo4 p.serialize.length < 2 ^ 16) :
    Starts p (join ((p :: ps).map serialize)) (join (ps.map serialize)) := by
  have hle := le_roundUpTo4 p.serialize.length
  have hlength : (BitVec.ofNat 16 p.serialize.length).toNat = p.serialize.length := by
    rw [BitVec.toNat_ofNat]
    omega
  have hpadded : lengthWithPadding (BitVec.ofNat 16 p.serialize.length) =
      roundUpTo4 p.serialize.length := by
    rw [lengthWithPadding, hlength, BitVec.toNat_ofNat]
    omega
  cases ps with
  | nil =>
    obtain ⟨htype, hlen⟩ := load16_serialize_append p []
    rw [append_nil] at htype hlen
    simp only [map_cons, map_nil, join]
    refine ⟨le_rfl, htype, by rw [hlen, hlength], take_length, ?_⟩
    rw [hlen, hpadded]
    by_cases heq : roundUpTo4 p.serialize.length ≤ p.serialize.length
    · exact .inr ⟨heq, drop_eq_nil_of_le hle⟩
    · exact .inl ⟨by omega, rfl⟩
  | cons next ps =>
    have hjoin : join ((p :: next :: ps).map serialize) =
        pad p.serialize ++ join ((next :: ps).map serialize) := rfl
    rw [hjoin]
    generalize join ((next :: ps).map serialize) = rest
    obtain ⟨htype, hlen⟩ := load16_serialize_append p
      (List.replicate (roundUpTo4 p.serialize.length - p.serialize.length) 0 ++ rest)
    rw [← append_assoc, show p.serialize ++ List.replicate _ 0 = pad p.serialize from rfl]
      at htype hlen
    refine ⟨by simp; omega, htype, by rw [hlen, hlength], ?_, .inr ?_⟩
    · rw [pad, append_assoc, take_left']
      rfl
    · rw [hlen, hpadded]
      exact ⟨by simp, drop_left' (length_pad _)⟩

variable {span rest : List UInt8}

theorem Starts.descriptorsFrom_eq (hs : Starts p span rest)
    {fuel : Nat} {ds : List ParameterDescriptor} (hrest : descriptorsFrom fuel rest = some ds) :
    descriptorsFrom (fuel + 1) span = some (p.descriptor :: ds) := by
  have hfour := four_le_serialize p
  have hle := hs.length_le
  have hne : span.isEmpty = false :=
    List.isEmpty_eq_false_iff.mpr (ne_nil_of_length_pos (by omega))
  have hd : (⟨load16 span 0, span.take (load16 span 2).toNat⟩ : ParameterDescriptor) =
      p.descriptor := by
    rw [hs.type_eq, hs.length_eq, hs.take_eq]
    rfl
  simp only [descriptorsFrom, hne, if_neg (show ¬span.length < 4 by omega), hd]
  rcases hs.next with ⟨hlt, rfl⟩ | ⟨hle, hdrop⟩
  · have hnil : ds = [] := by
      cases fuel <;> simp_all [descriptorsFrom]
    simp [hlt, hnil]
  · simp [Nat.not_lt.mpr hle, hdrop, hrest]

theorem Starts.validateFrom_eq (hs : Starts p span rest)
    {fuel : Nat} (hrest : validateFrom fuel rest = true) : validateFrom (fuel + 1) span = true := by
  have hfour := four_le_serialize p
  have hle := hs.length_le
  have hlen := hs.length_eq
  have hok : ¬((load16 span 2).toNat < 4 ∨ span.length < (load16 span 2).toNat) := by omega
  simp only [validateFrom, if_neg (show ¬span.length < 4 by omega), if_neg hok]
  rcases hs.next with ⟨hlt, -⟩ | ⟨hle, hdrop⟩
  · simp [hlt]
  · simp [Nat.not_lt.mpr hle, hdrop, hrest]

section Join

variable {ps : List Parameter} (h : ∀ p ∈ ps, roundUpTo4 p.serialize.length < 2 ^ 16)

include h

theorem descriptorsFrom_join (fuel : Nat) :
    descriptorsFrom (ps.length + fuel + 1) (join (ps.map serialize)) =
      some (ps.map descriptor) := by
  induction ps with
  | nil => simp [descriptorsFrom, join]
  | cons p ps ih =>
    have hrest := ih (fun q hq => h q (by simp [hq]))
    rw [length_cons, Nat.add_right_comm ps.length 1 fuel]
    exact (starts_join ps (h p (by simp))).descriptorsFrom_eq hrest

theorem validateFrom_join (fuel : Nat) :
    validateFrom (ps.length + fuel + 1) (join (ps.map serialize)) = true := by
  induction ps with
  | nil => simp [validateFrom, join]
  | cons p ps ih =>
    have hrest := ih (fun q hq => h q (by simp [hq]))
    rw [length_cons, Nat.add_right_comm ps.length 1 fuel]
    exact (starts_join ps (h p (by simp))).validateFrom_eq hrest

end Join

theorem length_le_join : ps.length ≤ (join (ps.map serialize)).length := by
  induction ps with
  | nil => simp
  | cons p ps ih =>
    have hfour := four_le_serialize p
    have hle := le_roundUpTo4 p.serialize.length
    cases ps with
    | nil => simpa [join] using by omega
    | cons next ps =>
      simp only [map_cons, join, length_append, length_pad, length_cons] at ih ⊢
      omega

theorem serialize_length_le_join {ps : List Parameter} (hp : p ∈ ps) :
    p.serialize.length ≤ (join (ps.map serialize)).length := by
  induction ps with
  | nil => simp at hp
  | cons q ps ih =>
    have hle := le_roundUpTo4 q.serialize.length
    cases ps with
    | nil => simp_all [join]
    | cons next ps =>
      simp only [map_cons, join, length_append, length_pad] at ih ⊢
      rcases List.mem_cons.mp hp with rfl | hp
      · omega
      · have := ih hp
        omega

theorem parse_build {ps : List Parameter} (h : (build ps).data.length + 4 < 2 ^ 16) :
    parse (build ps).data = some (build ps) ∧
      (build ps).descriptors = some (ps.map descriptor) := by
  have hdata := build_data ps
  have hfit : ∀ p ∈ ps, roundUpTo4 p.serialize.length < 2 ^ 16 := by
    intro p hp
    have hle := serialize_length_le_join hp
    rw [← hdata] at hle
    simp only [roundUpTo4]
    omega
  obtain ⟨extra, hextra⟩ := Nat.exists_eq_add_of_le (length_le_join ps)
  constructor
  · rw [parse, if_pos]
    rw [hdata, hextra]
    exact validateFrom_join hfit extra
  · rw [descriptors, hdata, hextra]
    exact descriptorsFrom_join hfit extra

end Parameters

end WebRtc.DcSctp
