import WebRtc.DcSctp.ChunkValidators
import WebRtc.DcSctp.OutstandingData
import WebRtc.DcSctp.SendQueue

/-! The retransmission queue (`tx/retransmission_queue`): congestion control and flow control
around the outstanding data. Its send queue is part of the state, since it is called back. The
receiver window is a `size_t`; the other counters are taken to stay below `2 ^ 64`. -/

namespace WebRtc.DcSctp

structure CongestionOptions where
  mtu : Nat
  cwndMtusInitial : Nat
  cwndMtusMin : Nat
  avoidFragmentationCwndMtus : Nat
  /-- `mtu * 0.9` as a `float`, truncated. -/
  minBytesRequiredToSend : Nat

inductive CongestionAlgorithmPhase where
  | kSlowStart
  | kCongestionAvoidance
  deriving DecidableEq, Repr

inductive RetransmissionQueue.Event where
  | onNewRtt (us : Int)
  | onLifecycleMessageDelivered (lifecycleId : LifecycleId)
  | onLifecycleMessageExpired (lifecycleId : LifecycleId) (maybeDelivered : Bool)
  | onLifecycleMessageFullySent (lifecycleId : LifecycleId)
  | onLifecycleEnd (lifecycleId : LifecycleId)
  | onClearRetransmissionCounter
  deriving DecidableEq, Repr

structure RetransmissionQueue (σ : Type) where
  options : CongestionOptions
  partialReliability : Bool
  t3RtxIsRunning : Bool
  cwnd : Nat
  rwnd : Nat
  /-- Whether a subtraction from `rwnd` has wrapped; not a member of the source. -/
  rwndWrapped : Bool
  rtxPacketsCount : Nat
  rtxBytesCount : Nat
  ssthresh : Nat
  partialBytesAcked : Nat
  fastRecoveryExitTsn : Option Int
  tsnUnwrapper : SeqNumUnwrapper 32
  outstandingData : OutstandingData
  sendQueue : σ
  events : List RetransmissionQueue.Event

namespace RetransmissionQueue

variable {σ : Type}

def new (options : CongestionOptions) (myInitialTsn : TSN) (aRwnd : Nat)
    (supportsPartialReliability useMessageInterleaving : Bool) (sendQueue : σ) :
    RetransmissionQueue σ :=
  let (last, tsnUnwrapper) := SeqNumUnwrapper.pristine.unwrap (myInitialTsn - 1)
  { options
    partialReliability := supportsPartialReliability
    t3RtxIsRunning := false
    cwnd := options.cwndMtusInitial * options.mtu
    rwnd := aRwnd
    rwndWrapped := false
    rtxPacketsCount := 0
    rtxBytesCount := 0
    ssthresh := aRwnd
    partialBytesAcked := 0
    fastRecoveryExitTsn := none
    tsnUnwrapper
    outstandingData := .new (if useMessageInterleaving then 20 else 16) last
    sendQueue
    events := [] }

def dataChunkHeaderSize (rq : RetransmissionQueue σ) : Nat := rq.outstandingData.dataChunkHeaderSize

def getSerializedChunkSize (rq : RetransmissionQueue σ) (data : Data) : Nat :=
  roundUpTo4 (rq.dataChunkHeaderSize + data.size)

def unackedBytes (rq : RetransmissionQueue σ) : Nat := rq.outstandingData.unackedBytes

def isInFastRecovery (rq : RetransmissionQueue σ) : Bool := rq.fastRecoveryExitTsn.isSome

def phase (rq : RetransmissionQueue σ) : CongestionAlgorithmPhase :=
  if rq.cwnd ≤ rq.ssthresh then .kSlowStart else .kCongestionAvoidance

def notify (events : List Event) (rq : RetransmissionQueue σ) : RetransmissionQueue σ :=
  { rq with events := rq.events ++ events }

def maybeExitFastRecovery (cumulativeTsnAck : Int) (rq : RetransmissionQueue σ) :
    RetransmissionQueue σ :=
  if rq.fastRecoveryExitTsn.any fun exitTsn => exitTsn ≤ cumulativeTsnAck then
    { rq with fastRecoveryExitTsn := none }
  else rq

def handleIncreasedCumulativeTsnAck (unackedBytes totalBytesAcked : Nat)
    (rq : RetransmissionQueue σ) : RetransmissionQueue σ :=
  let isFullyUtilized : Bool := rq.cwnd ≤ unackedBytes + rq.options.mtu
  match rq.phase with
  | .kSlowStart =>
    if isFullyUtilized && !rq.isInFastRecovery then
      { rq with cwnd := rq.cwnd + min totalBytesAcked rq.options.mtu }
    else rq
  | .kCongestionAvoidance =>
    let partialBytesAcked := rq.partialBytesAcked + totalBytesAcked
    if rq.cwnd ≤ partialBytesAcked && isFullyUtilized then
      { rq with
        partialBytesAcked := partialBytesAcked - rq.cwnd
        cwnd := rq.cwnd + rq.options.mtu }
    else { rq with partialBytesAcked }

def handlePacketLoss (rq : RetransmissionQueue σ) : RetransmissionQueue σ :=
  if rq.isInFastRecovery then rq
  else
    let ssthresh := max (rq.cwnd / 2) (rq.options.cwndMtusMin * rq.options.mtu)
    { rq with
      ssthresh
      cwnd := ssthresh
      partialBytesAcked := 0
      fastRecoveryExitTsn := some rq.outstandingData.highestOutstandingTsn }

def updateReceiverWindow (aRwnd : BitVec 32) (rq : RetransmissionQueue σ) : RetransmissionQueue σ :=
  { rq with rwnd := if aRwnd.toNat ≤ rq.unackedBytes then 0 else aRwnd.toNat - rq.unackedBytes }

def stopT3Rtx (rq : RetransmissionQueue σ) : RetransmissionQueue σ :=
  { rq with t3RtxIsRunning := false }

def startT3RtxTimerIfOutstandingData (rq : RetransmissionQueue σ) : RetransmissionQueue σ :=
  if rq.outstandingData.outstandingData.isEmpty then rq else { rq with t3RtxIsRunning := true }

def isSackValid (rq : RetransmissionQueue σ) (sack : SackChunk) : Bool :=
  rq.outstandingData.isSackValid (rq.tsnUnwrapper.peekUnwrap sack.cumulativeTsnAck)
    sack.gapAckBlocks

def updateRTT (now : Timestamp) (cumulativeTsnAck : Int) (rq : RetransmissionQueue σ) :
    RetransmissionQueue σ :=
  match rq.outstandingData.measureRTT now cumulativeTsnAck with
  | none => rq
  | some rtt => rq.notify [.onNewRtt rtt]

/-- The part of `HandleSack` before the update of the outstanding data. -/
def prepareForSack (now : Timestamp) (cumulativeTsnAck : Int) (gapAckBlocks : List GapAckBlock)
    (rq : RetransmissionQueue σ) : RetransmissionQueue σ :=
  let rq := if gapAckBlocks.isEmpty then rq.updateRTT now cumulativeTsnAck else rq
  rq.maybeExitFastRecovery cumulativeTsnAck

def notifyAcked (ackInfo : OutstandingData.AckInfo) (rq : RetransmissionQueue σ) :
    RetransmissionQueue σ :=
  rq.notify ((ackInfo.ackedLifecycleIds.flatMap fun lifecycleId =>
      [.onLifecycleMessageDelivered lifecycleId, .onLifecycleEnd lifecycleId]) ++
    ackInfo.abandonedLifecycleIds.flatMap fun lifecycleId =>
      [.onLifecycleMessageExpired lifecycleId true, .onLifecycleEnd lifecycleId])

/-- The part of `HandleSack` after the update of the outstanding data. -/
def controlCongestion (oldLastCumulativeTsnAck cumulativeTsnAck : Int) (oldUnackedBytes : Nat)
    (aRwnd : BitVec 32) (ackInfo : OutstandingData.AckInfo) (rq : RetransmissionQueue σ) :
    RetransmissionQueue σ :=
  let rq := rq.updateReceiverWindow aRwnd
  let rq :=
    if oldLastCumulativeTsnAck < cumulativeTsnAck then
      rq.stopT3Rtx.handleIncreasedCumulativeTsnAck oldUnackedBytes ackInfo.bytesAcked
    else rq
  let rq := if ackInfo.hasPacketLoss then rq.handlePacketLoss else rq
  let rq := if 0 < ackInfo.bytesAcked then rq.notify [.onClearRetransmissionCounter] else rq
  rq.startT3RtxTimerIfOutstandingData

variable [SendQueue σ]

def handleSack (now : Timestamp) (sack : SackChunk) (rq : RetransmissionQueue σ) :
    Option (Bool × RetransmissionQueue σ) :=
  if rq.isSackValid sack then do
    let oldLastCumulativeTsnAck := rq.outstandingData.lastCumulativeTsnAck
    let oldUnackedBytes := rq.unackedBytes
    let (cumulativeTsnAck, tsnUnwrapper) := rq.tsnUnwrapper.unwrap sack.cumulativeTsnAck
    let rq := { rq with tsnUnwrapper }.prepareForSack now cumulativeTsnAck sack.gapAckBlocks
    let (ackInfo, outstandingData, sendQueue) ← OutstandingData.handleSack SendQueue.discard
      cumulativeTsnAck sack.gapAckBlocks rq.isInFastRecovery (rq.outstandingData, rq.sendQueue)
    let rq := { rq with outstandingData, sendQueue }.notifyAcked ackInfo
    some (true, rq.controlCongestion oldLastCumulativeTsnAck cumulativeTsnAck oldUnackedBytes
      sack.aRwnd ackInfo)
  else some (false, rq)

def handleT3RtxTimerExpiry (rq : RetransmissionQueue σ) : Option (RetransmissionQueue σ) := do
  let (outstandingData, sendQueue) ←
    OutstandingData.nackAll SendQueue.discard (rq.outstandingData, rq.sendQueue)
  some { rq with
    ssthresh := max (rq.cwnd / 2) (4 * rq.options.mtu)
    cwnd := rq.options.mtu
    partialBytesAcked := 0
    outstandingData
    sendQueue }

def getChunksForFastRetransmit (bytesInPacket : Nat) (rq : RetransmissionQueue σ) :
    Option (List (TSN × Data) × RetransmissionQueue σ) := do
  guard (rq.outstandingData.hasDataToBeFastRetransmitted ∧ bytesInPacket % 4 = 0)
  let (toBeSent, outstandingData) ←
    rq.outstandingData.getChunksToBeFastRetransmitted bytesInPacket
  guard (toBeSent ≠ [])
  let bytesRetransmitted :=
    toSizeT (accumulateInt (toBeSent.map fun c => rq.getSerializedChunkSize c.2))
  some (toBeSent, { rq with
    outstandingData
    t3RtxIsRunning := true
    rtxPacketsCount := rq.rtxPacketsCount + 1
    rtxBytesCount := rq.rtxBytesCount + bytesRetransmitted })

def maxBytesToSend (rq : RetransmissionQueue σ) : Nat :=
  let left := if rq.cwnd ≤ rq.unackedBytes then 0 else rq.cwnd - rq.unackedBytes
  if rq.unackedBytes = 0 then left else min rq.rwnd left

def sendNewChunk (now : Timestamp) (chunk : SendQueue.DataToSend) (rq : RetransmissionQueue σ) :
    List (TSN × Data) × RetransmissionQueue σ :=
  let chunkSize := rq.getSerializedChunkSize chunk.data
  let (tsn, outstandingData, sendQueue) := OutstandingData.insert SendQueue.discard chunk.messageId
    chunk.data now (if rq.partialReliability then chunk.maxRetransmissions else .noLimit)
    (if rq.partialReliability then chunk.expiresAt else .plusInfinity) chunk.lifecycleId
    (rq.outstandingData, rq.sendQueue)
  let rq := { rq with
    rwnd := toSizeT (rq.rwnd - chunkSize)
    rwndWrapped := rq.rwndWrapped || rq.rwnd < chunkSize
    outstandingData
    sendQueue }
  match tsn with
  | none => ([], rq)
  | some tsn =>
    ([(wrap 32 tsn, chunk.data)],
      if chunk.lifecycleId = 0 then rq
      else rq.notify [.onLifecycleMessageFullySent chunk.lifecycleId])

/-- The loop of `GetChunksToSend`, for at most `rounds` rounds. -/
def sendNewChunks (now : Timestamp) :
    Nat → Nat → RetransmissionQueue σ → List (TSN × Data) × RetransmissionQueue σ
  | 0, _, rq => ([], rq)
  | rounds + 1, maxBytes, rq =>
    if rq.dataChunkHeaderSize < maxBytes then
      match SendQueue.produce now (maxBytes - rq.dataChunkHeaderSize) rq.sendQueue with
      | (none, sendQueue) => ([], { rq with sendQueue })
      | (some chunk, sendQueue) =>
        let (sent, rq') := { rq with sendQueue }.sendNewChunk now chunk
        let (rest, rq') :=
          sendNewChunks now rounds (maxBytes - rq.getSerializedChunkSize chunk.data) rq'
        (sent ++ rest, rq')
    else ([], rq)

def countRetransmitted (retransmitted : List (TSN × Data)) (bytesRetransmitted : Nat)
    (rq : RetransmissionQueue σ) : RetransmissionQueue σ :=
  if retransmitted.isEmpty then rq
  else { rq with
    rtxPacketsCount := rq.rtxPacketsCount + 1
    rtxBytesCount := rq.rtxBytesCount + bytesRetransmitted }

def startT3RtxIfSent (toBeSent : List (TSN × Data)) (rq : RetransmissionQueue σ) :
    RetransmissionQueue σ :=
  if toBeSent.isEmpty then rq else { rq with t3RtxIsRunning := true }

def getChunksToSend (now : Timestamp) (bytesRemainingInPacket : Nat) (rq : RetransmissionQueue σ) :
    Option (List (TSN × Data) × RetransmissionQueue σ) := do
  guard (bytesRemainingInPacket % 4 = 0)
  let maxBytes := roundDownTo4 (min rq.maxBytesToSend bytesRemainingInPacket)
  let (retransmitted, outstandingData) ← rq.outstandingData.getChunksToBeRetransmitted maxBytes
  let bytesRetransmitted :=
    toSizeT (accumulateInt (retransmitted.map fun c => rq.getSerializedChunkSize c.2))
  let maxBytes := toSizeT (maxBytes - bytesRetransmitted)
  let rq := { rq with outstandingData }.countRetransmitted retransmitted bytesRetransmitted
  let (sent, rq) := rq.sendNewChunks now maxBytes maxBytes
  let toBeSent := retransmitted ++ sent
  some (toBeSent, rq.startT3RtxIfSent toBeSent)

def canSendData (rq : RetransmissionQueue σ) : Bool :=
  rq.cwnd < rq.options.avoidFragmentationCwndMtus * rq.options.mtu ||
    rq.options.minBytesRequiredToSend ≤ rq.maxBytesToSend

def shouldSendForwardTsn (now : Timestamp) (rq : RetransmissionQueue σ) :
    Bool × RetransmissionQueue σ :=
  if rq.partialReliability then
    let (outstandingData, sendQueue) := OutstandingData.expireOutstandingChunks SendQueue.discard now
      (rq.outstandingData, rq.sendQueue)
    (outstandingData.shouldSendForwardTsn, { rq with outstandingData, sendQueue })
  else (false, rq)

def beginResetStreams (rq : RetransmissionQueue σ) : List StreamID × RetransmissionQueue σ :=
  let (streams, sendQueue) := SendQueue.getStreamsReadyToBeReset rq.sendQueue
  (streams, { rq with outstandingData := rq.outstandingData.beginResetStreams, sendQueue })

end RetransmissionQueue

end WebRtc.DcSctp
