import WebRtc.DcSctp.DataTracker
import WebRtc.DcSctp.QueuedBytes

/-! The receiving half of a socket (`socket/dcsctp_socket`, `socket/transmission_control_block`):
which chunks it admits to its reassembly queue, and the window that its SACKs advertise. -/

namespace WebRtc.DcSctp

inductive ErrorKind where
  | kNoError
  | kTooManyRetries
  | kNotConnected
  | kParseFailed
  | kWrongSequence
  | kPeerReported
  | kProtocolViolation
  | kResourceExhaustion
  | kUnsupportedOperation
  deriving DecidableEq, Repr

inductive ReceiverEvent where
  | sack (chunk : SackChunk)
  | errorNoUserData (tsn : TSN)
  | abortOutOfResource
  | abortProtocolViolation (information : String)
  | onError (error : ErrorKind) (message : String)
  | onAborted (error : ErrorKind) (message : String)
  | onMessageReceived (message : Assembled)
  deriving DecidableEq, Repr

/-- The parts of the transmission control block that receive data. `closed` is set when the socket
has dropped it. -/
structure Receiver where
  dataTracker : DataTracker
  reassemblyQueue : ReassemblyQueue
  partialReliability : Bool
  closed : Bool

namespace Receiver

def new (peerInitialTsn : TSN) (maxReceiverWindowBufferSize : Nat)
    (messageInterleaving partialReliability : Bool) : Receiver :=
  { dataTracker := .new peerInitialTsn
    reassemblyQueue := .new maxReceiverWindowBufferSize messageInterleaving
    partialReliability
    closed := false }

def maybeDeliverMessages (r : Receiver) : Receiver × List ReceiverEvent :=
  let (messages, queue) := r.reassemblyQueue.flushMessages
  ({ r with reassemblyQueue := queue }, messages.map .onMessageReceived)

/-- The part of `HandleDataCommon` after the admission rules. -/
def acceptData (r : Receiver) (tsn : TSN) (immediateAck : Bool) (data : Data) :
    Receiver × List ReceiverEvent :=
  if !r.dataTracker.isTSNValid tsn then (r, [])
  else
    let (tracker, isNew) := r.dataTracker.observe tsn immediateAck
    let r := { r with dataTracker := tracker }
    if isNew then
      { r with reassemblyQueue := r.reassemblyQueue.add tsn data }.maybeDeliverMessages
    else (r, [])

def handleDataCommon (r : Receiver) (tsn : TSN) (immediateAck : Bool) (data : Data) :
    Receiver × List ReceiverEvent :=
  if data.payload.isEmpty then
    (r, [.errorNoUserData tsn,
      .onError .kProtocolViolation "Received DATA chunk with no user data"])
  else if r.reassemblyQueue.isFull then
    ({ r with closed := true },
      [.abortOutOfResource, .onAborted .kResourceExhaustion "Reassembly Queue is exhausted"])
  else if r.reassemblyQueue.isAboveWatermark && !r.dataTracker.willIncreaseCumAckTsn tsn then
    ({ r with dataTracker := r.dataTracker.forceImmediateSack }, [])
  else r.acceptData tsn immediateAck data

def handleForwardTsnCommon (r : Receiver) (chunk : ForwardTsnChunk) :
    Receiver × List ReceiverEvent :=
  if !r.partialReliability then
    (r, [.abortProtocolViolation
        "I-FORWARD-TSN received, but not indicated during connection establishment",
      .onError .kProtocolViolation "Received a FORWARD_TSN without announced peer support"])
  else
    let (tracker, handled) := r.dataTracker.handleForwardTsn chunk.newCumulativeTsn
    let r := { r with dataTracker := tracker }
    if handled then
      { r with reassemblyQueue :=
          r.reassemblyQueue.handleForwardTsn chunk.newCumulativeTsn chunk.skippedStreams
        }.maybeDeliverMessages
    else r.maybeDeliverMessages

/-- A SACK, if one is due: in `MaybeSendSack`, or also a delayed one in `SendBufferedPackets`. -/
def sendSack (r : Receiver) (alsoIfDelayed : Bool) : Receiver × List ReceiverEvent :=
  let (tracker, shouldSend) := r.dataTracker.shouldSendAck alsoIfDelayed
  if shouldSend then
    let (sack, tracker) := tracker.createSelectiveAck r.reassemblyQueue.remainingBytes
    ({ r with dataTracker := tracker }, [.sack sack])
  else ({ r with dataTracker := tracker }, [])

def handleResetOutgoing (r : Receiver) (senderLastAssignedTsn : TSN) (streamIds : List StreamID) :
    Receiver :=
  if r.dataTracker.isLaterThanCumulativeAckedTsn senderLastAssignedTsn then
    { r with reassemblyQueue :=
        r.reassemblyQueue.enterDeferredReset senderLastAssignedTsn streamIds }
  else
    { r with reassemblyQueue := r.reassemblyQueue.resetStreamsAndLeaveDeferredReset streamIds }

inductive Op where
  | data (tsn : TSN) (immediateAck : Bool) (data : Data)
  | forwardTsn (chunk : ForwardTsnChunk)
  | resetOutgoing (senderLastAssignedTsn : TSN) (streamIds : List StreamID)
  | deliverMessages
  | packetEnd
  | delayedAckTimerExpiry
  | sendBufferedPackets

def exec (r : Receiver) : Op → Receiver × List ReceiverEvent
  | .data tsn immediateAck data => r.handleDataCommon tsn immediateAck data
  | .forwardTsn chunk => r.handleForwardTsnCommon chunk
  | .resetOutgoing senderLastAssignedTsn streamIds =>
    (r.handleResetOutgoing senderLastAssignedTsn streamIds, [])
  | .deliverMessages => r.maybeDeliverMessages
  | .packetEnd => { r with dataTracker := r.dataTracker.observePacketEnd }.sendSack false
  | .delayedAckTimerExpiry =>
    { r with dataTracker := r.dataTracker.handleDelayedAckTimerExpiry }.sendSack false
  | .sendBufferedPackets => r.sendSack true

def machine : Machine Receiver Op where
  initial r := ∃ peerInitialTsn maxReceiverWindowBufferSize messageInterleaving partialReliability,
    r = new peerInitialTsn maxReceiverWindowBufferSize messageInterleaving partialReliability
  enabled r _ := r.closed = false
  step r op := some (r.exec op).1

instance (r : Receiver) (op : Op) : Decidable (machine.enabled r op) :=
  inferInstanceAs (Decidable (r.closed = false))

variable {sack : SackChunk} {r : Receiver}

theorem mem_sendSack {alsoIfDelayed : Bool} (h : .sack sack ∈ (r.sendSack alsoIfDelayed).2) :
    sack.aRwnd = BitVec.ofNat 32 r.reassemblyQueue.remainingBytes := by
  simp only [sendSack] at h
  split_ifs at h
  · obtain rfl : sack = _ := by simpa using h
    rfl
  · simp at h

theorem not_mem_maybeDeliverMessages : .sack sack ∉ r.maybeDeliverMessages.2 := by
  simp [maybeDeliverMessages]

theorem not_mem_acceptData {tsn : TSN} {immediateAck : Bool} {data : Data} : .sack sack ∉
    (r.acceptData tsn immediateAck data).2 := by
  simp only [acceptData]
  split_ifs
  · simp
  · exact not_mem_maybeDeliverMessages
  · simp

theorem mem_exec_sack {op : Op} (h : .sack sack ∈ (r.exec op).2) :
    sack.aRwnd = BitVec.ofNat 32 r.reassemblyQueue.remainingBytes := by
  cases op with
  | data tsn immediateAck data =>
    simp only [exec, handleDataCommon] at h
    split_ifs at h
    · simp at h
    · simp at h
    · simp at h
    · exact absurd h not_mem_acceptData
  | forwardTsn chunk =>
    simp only [exec, handleForwardTsnCommon] at h
    split_ifs at h
    · simp at h
    · exact absurd h not_mem_maybeDeliverMessages
    · exact absurd h not_mem_maybeDeliverMessages
  | resetOutgoing senderLastAssignedTsn streamIds => simp [exec] at h
  | deliverMessages => exact absurd h not_mem_maybeDeliverMessages
  | packetEnd =>
    exact mem_sendSack (r := { r with dataTracker := r.dataTracker.observePacketEnd }) h
  | delayedAckTimerExpiry =>
    exact mem_sendSack (r := { r with dataTracker := r.dataTracker.handleDelayedAckTimerExpiry }) h
  | sendBufferedPackets => exact mem_sendSack h

theorem remainingBytes_narrowed_eq_iff (q : ReassemblyQueue) :
    (BitVec.ofNat 32 q.remainingBytes).toNat = q.watermarkBytes - q.queuedBytes ↔
      (q.queuedBytes ≤ q.watermarkBytes ∧ q.watermarkBytes - q.queuedBytes < 2 ^ 32) ∨
        (q.watermarkBytes < q.queuedBytes ∧ 2 ^ 32 ∣ q.queuedBytes - q.watermarkBytes) := by
  simp only [BitVec.toNat_ofNat, ReassemblyQueue.remainingBytes, toSizeT]
  omega

/-- The advertised window is right exactly if the queue is not above its watermark and the
difference fits 32 bits, or lies above it by a multiple of `2 ^ 32`. -/
theorem sack_aRwnd_eq_iff {r : Receiver} {op : Op} {sack : SackChunk}
    (h : .sack sack ∈ (r.exec op).2) : (sack.aRwnd.toNat ≤ r.reassemblyQueue.watermarkBytes ∧
      sack.aRwnd.toNat = r.reassemblyQueue.watermarkBytes - r.reassemblyQueue.queuedBytes) ↔
      (r.reassemblyQueue.queuedBytes ≤ r.reassemblyQueue.watermarkBytes ∧
        r.reassemblyQueue.watermarkBytes - r.reassemblyQueue.queuedBytes < 2 ^ 32) ∨
      (r.reassemblyQueue.watermarkBytes < r.reassemblyQueue.queuedBytes ∧
        2 ^ 32 ∣ r.reassemblyQueue.queuedBytes - r.reassemblyQueue.watermarkBytes) := by
  rw [mem_exec_sack h, ← remainingBytes_narrowed_eq_iff]
  exact ⟨fun h => h.2, fun h => ⟨h.le.trans (Nat.sub_le _ _), h⟩⟩

/-- A receiver of 20 bytes, watermark 18, that got the first `size` bytes of a message. -/
def afterFirstFragment (size : Nat) : Receiver :=
  ((new 10 20 false true).exec (.data 10 false
    { streamId := 1, ssn := 0, mid := 0, fsn := 0, ppid := 53, payload := List.replicate size 0
      isBeginning := true, isEnd := false, isUnordered := false })).1

theorem sack_aRwnd_eq_iff_below_watermark :
    ∃ sack, .sack sack ∈ ((afterFirstFragment 8).exec .packetEnd).2 ∧
      sack.aRwnd.toNat ≤ (afterFirstFragment 8).reassemblyQueue.watermarkBytes ∧
      sack.aRwnd.toNat = (afterFirstFragment 8).reassemblyQueue.watermarkBytes -
        (afterFirstFragment 8).reassemblyQueue.queuedBytes := by
  have hs : ReceiverEvent.sack ⟨10, 10, [], []⟩ ∈ ((afterFirstFragment 8).exec .packetEnd).2 := by
    decide
  exact ⟨_, hs, (sack_aRwnd_eq_iff hs).mpr (.inl (by decide))⟩

/-- One fragment takes the queue from empty to above the watermark, and the SACK for it advertises
almost 4 GiB. -/
theorem sack_aRwnd_wraps : ∃ r sack, machine.Reachable r ∧ .sack sack ∈ (r.exec .packetEnd).2 ∧
      r.reassemblyQueue.watermarkBytes = 18 ∧ r.reassemblyQueue.queuedBytes = 23 ∧
      sack.aRwnd.toNat = 2 ^ 32 - 5 := by
  refine ⟨afterFirstFragment 23, ⟨10, -5, [], []⟩, ?_, ?_, ?_, ?_, ?_⟩
  · exact .step (.initial ⟨10, 20, false, true, rfl⟩) rfl rfl
  all_goals decide

end Receiver

end WebRtc.DcSctp
