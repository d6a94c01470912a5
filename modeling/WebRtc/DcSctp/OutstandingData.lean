import WebRtc.Lib.Checked
import WebRtc.DcSctp.Types

/-! The sender's record of chunks sent and not yet cumulatively acked (`tx/outstanding_data`).
Subtractions from the counters, `GetItem` and the checks on the retransmission sets fail the
computation. The number of chunks is taken to fit an `int`. -/

namespace WebRtc.DcSctp

def kNumberOfNacksForRetransmission : BitVec 8 := 3

namespace OutstandingData

inductive Lifecycle where
  | kActive
  | kToBeRetransmitted
  | kAbandoned
  deriving DecidableEq, Repr

inductive AckState where
  | kUnacked
  | kAcked
  | kNacked
  deriving DecidableEq, Repr

inductive NackAction where
  | kNothing
  | kRetransmit
  | kAbandon
  deriving DecidableEq, Repr

structure Item where
  messageId : OutgoingMessageId
  timeSent : Timestamp
  maxRetransmissions : MaxRetransmits
  lifecycle : Lifecycle
  ackState : AckState
  nackCount : BitVec 8
  numRetransmissions : BitVec 16
  expiresAt : Timestamp
  lifecycleId : LifecycleId
  data : Data
  deriving DecidableEq

namespace Item

def new (messageId : OutgoingMessageId) (data : Data) (timeSent : Timestamp)
    (maxRetransmissions : MaxRetransmits) (expiresAt : Timestamp) (lifecycleId : LifecycleId) : Item :=
  { messageId, timeSent, maxRetransmissions, lifecycle := .kActive, ackState := .kUnacked,
    nackCount := 0, numRetransmissions := 0, expiresAt, lifecycleId, data }

def isOutstanding (item : Item) : Bool := item.ackState = .kUnacked

def isAcked (item : Item) : Bool := item.ackState = .kAcked

def isNacked (item : Item) : Bool := item.ackState = .kNacked

def isAbandoned (item : Item) : Bool := item.lifecycle = .kAbandoned

def shouldBeRetransmitted (item : Item) : Bool := item.lifecycle = .kToBeRetransmitted

def hasBeenRetransmitted (item : Item) : Bool := 0 < item.numRetransmissions

def hasExpired (item : Item) (now : Timestamp) : Bool := item.expiresAt.le now

def ack (item : Item) : Item :=
  { item with
    lifecycle := if item.lifecycle = .kAbandoned then .kAbandoned else .kActive
    ackState := .kAcked }

def abandon (item : Item) : Item := { item with lifecycle := .kAbandoned }

def nack (item : Item) (retransmitNow : Bool) : Item × NackAction :=
  let item := { item with ackState := .kNacked, nackCount := item.nackCount + 1 }
  if !item.shouldBeRetransmitted && !item.isAbandoned &&
      (retransmitNow || kNumberOfNacksForRetransmission ≤ item.nackCount) then
    if item.numRetransmissions < item.maxRetransmissions then
      ({ item with lifecycle := .kToBeRetransmitted }, .kRetransmit)
    else (item.abandon, .kAbandon)
  else (item, .kNothing)

def markAsRetransmitted (item : Item) : Item :=
  { item with
    lifecycle := .kActive
    ackState := .kUnacked
    nackCount := 0
    numRetransmissions := item.numRetransmissions + 1 }

end Item

structure AckInfo where
  bytesAcked : Nat
  hasPacketLoss : Bool
  highestTsnAcked : Int
  ackedLifecycleIds : List LifecycleId
  abandonedLifecycleIds : List LifecycleId

def AckInfo.new (cumulativeTsnAck : Int) : AckInfo := ⟨0, false, cumulativeTsnAck, [], []⟩

end OutstandingData

open OutstandingData in
structure OutstandingData where
  dataChunkHeaderSize : Nat
  lastCumulativeTsnAck : Int
  outstandingData : List Item
  unackedBytes : Nat
  unackedItems : Nat
  toBeFastRetransmitted : OrdSet Int
  toBeRetransmitted : OrdSet Int
  streamResetBreakpointTsns : OrdSet Int
  deriving DecidableEq

namespace OutstandingData

def new (dataChunkHeaderSize : Nat) (lastCumulativeTsnAck : Int) : OutstandingData :=
  ⟨dataChunkHeaderSize, lastCumulativeTsnAck, [], 0, 0, ∅, ∅, ∅⟩

def getSerializedChunkSize (od : OutstandingData) (data : Data) : Nat :=
  roundUpTo4 (od.dataChunkHeaderSize + data.size)

def highestOutstandingTsn (od : OutstandingData) : Int :=
  od.lastCumulativeTsnAck + od.outstandingData.length

def nextTsn (od : OutstandingData) : Int := od.highestOutstandingTsn + 1

def hasDataToBeFastRetransmitted (od : OutstandingData) : Bool :=
  !od.toBeFastRetransmitted.toList.isEmpty

def hasDataToBeRetransmitted (od : OutstandingData) : Bool :=
  !od.toBeRetransmitted.toList.isEmpty || !od.toBeFastRetransmitted.toList.isEmpty

def tsns (od : OutstandingData) : List Int :=
  (List.range od.outstandingData.length).map fun (i : Nat) => od.lastCumulativeTsnAck + 1 + i

def getItem (od : OutstandingData) (tsn : Int) : Option Item :=
  if od.lastCumulativeTsnAck < tsn ∧ tsn < od.nextTsn then
    od.outstandingData[(tsn - od.lastCumulativeTsnAck - 1).toNat]?
  else none

def setItem (od : OutstandingData) (tsn : Int) (item : Item) : OutstandingData :=
  { od with
    outstandingData := od.outstandingData.set (tsn - od.lastCumulativeTsnAck - 1).toNat item }

def removeUnacked (od : OutstandingData) (item : Item) : Option OutstandingData :=
  if item.isOutstanding then do
    let unackedBytes ← checkedSub od.unackedBytes (od.getSerializedChunkSize item.data)
    let unackedItems ← checkedSub od.unackedItems 1
    some { od with unackedBytes, unackedItems }
  else some od

def isConsistent (od : OutstandingData) : Bool :=
  let outstanding := od.outstandingData.filter Item.isOutstanding
  (outstanding.map fun item => od.getSerializedChunkSize item.data).sum = od.unackedBytes &&
  outstanding.length = od.unackedItems &&
  od.tsns.filter (fun tsn => (od.getItem tsn).any Item.shouldBeRetransmitted) =
    (od.toBeRetransmitted.union od.toBeFastRetransmitted).toList

def ackChunk (od : OutstandingData) (ackInfo : AckInfo) (tsn : Int) (item : Item) :
    Option (OutstandingData × AckInfo) :=
  if item.isAcked then some (od, ackInfo)
  else do
    let od ← od.removeUnacked item
    let od ←
      if item.shouldBeRetransmitted then do
        guard (tsn ∉ od.toBeFastRetransmitted)
        some { od with toBeRetransmitted := od.toBeRetransmitted.erase tsn }
      else some od
    some (od.setItem tsn item.ack,
      { ackInfo with
        bytesAcked := ackInfo.bytesAcked + od.getSerializedChunkSize item.data
        highestTsnAcked := max ackInfo.highestTsnAcked tsn })

def popFront (od : OutstandingData) : OutstandingData :=
  { od with
    outstandingData := od.outstandingData.tail
    lastCumulativeTsnAck := od.lastCumulativeTsnAck + 1 }

def addLifecycleId (ackInfo : AckInfo) (item : Item) : AckInfo :=
  if item.lifecycleId = 0 then ackInfo
  else if item.isAbandoned then
    { ackInfo with abandonedLifecycleIds := ackInfo.abandonedLifecycleIds ++ [item.lifecycleId] }
  else { ackInfo with ackedLifecycleIds := ackInfo.ackedLifecycleIds ++ [item.lifecycleId] }

/-- The loop of `RemoveAcked`, for at most as many rounds as there are chunks. -/
def removeAckedLoop (cumulativeTsnAck : Int) :
    Nat → OutstandingData × AckInfo → Option (OutstandingData × AckInfo)
  | 0, s => some s
  | rounds + 1, (od, ackInfo) =>
    match od.outstandingData with
    | [] => some (od, ackInfo)
    | item :: _ =>
      if od.lastCumulativeTsnAck < cumulativeTsnAck then do
        let (od, ackInfo) ← od.ackChunk ackInfo (od.lastCumulativeTsnAck + 1) item
        removeAckedLoop cumulativeTsnAck rounds (od.popFront, addLifecycleId ackInfo item)
      else some (od, ackInfo)

def removeAcked (od : OutstandingData) (cumulativeTsnAck : Int) (ackInfo : AckInfo) :
    Option (OutstandingData × AckInfo) := do
  let (od, ackInfo) ← removeAckedLoop cumulativeTsnAck od.outstandingData.length (od, ackInfo)
  some ({ od with
    streamResetBreakpointTsns :=
      od.streamResetBreakpointTsns.filterKeys fun tsn => cumulativeTsnAck + 1 < tsn }, ackInfo)

def tsnsFromTo (first last : Int) : List Int :=
  (List.range (last + 1 - first).toNat).map fun (i : Nat) => first + i

def ackGapTsn (s : OutstandingData × AckInfo) (tsn : Int) : Option (OutstandingData × AckInfo) :=
  if s.1.lastCumulativeTsnAck < tsn ∧ tsn < s.1.nextTsn then do
    let item ← s.1.getItem tsn
    s.1.ackChunk s.2 tsn item
  else some s

def ackGapBlocks (cumulativeTsnAck : Int) (gapAckBlocks : List GapAckBlock)
    (s : OutstandingData × AckInfo) : Option (OutstandingData × AckInfo) :=
  gapAckBlocks.foldlM (fun s block =>
    (tsnsFromTo (cumulativeTsnAck + block.start.toNat) (cumulativeTsnAck + block.end.toNat)).foldlM
      ackGapTsn s) s

/-- The part of `RetransmissionQueue::IsSackValid` that looks at the outstanding data. -/
def isSackValid (od : OutstandingData) (cumulativeTsnAck : Int) (gapAckBlocks : List GapAckBlock) :
    Bool :=
  od.lastCumulativeTsnAck ≤ cumulativeTsnAck && cumulativeTsnAck ≤ od.highestOutstandingTsn &&
  gapAckBlocks.all fun block => cumulativeTsnAck + block.end.toNat ≤ od.highestOutstandingTsn

section Discarding

/-! The send queue is asked to discard the unsent rest of an abandoned message. It answers
whether there was any. -/

variable {σ : Type} (discard : StreamID → OutgoingMessageId → σ → Bool × σ)

/-- One round of the loop of `AbandonAllFor`. -/
def abandonIfSameMessage (item : Item) (od : OutstandingData) (tsn : Int) : OutstandingData :=
  match od.getItem tsn with
  | none => od
  | some other =>
    if !other.isAbandoned && other.data.streamId = item.data.streamId &&
        other.messageId = item.messageId then
      let od :=
        if other.shouldBeRetransmitted then
          { od with
            toBeFastRetransmitted := od.toBeFastRetransmitted.erase tsn
            toBeRetransmitted := od.toBeRetransmitted.erase tsn }
        else od
      od.setItem tsn other.abandon
    else od

def messageEnd (item : Item) : Item :=
  (Item.new item.messageId { item.data with payload := [], isBeginning := false, isEnd := true }
    (.micros 0) 0 .plusInfinity 0).ack

def pushBack (od : OutstandingData) (item : Item) : OutstandingData :=
  { od with outstandingData := od.outstandingData ++ [item] }

def abandonAllFor (item : Item) (s : OutstandingData × σ) : OutstandingData × σ :=
  let (discarded, queue) := discard item.data.streamId item.messageId s.2
  let od := if discarded then s.1.pushBack (messageEnd item) else s.1
  (od.tsns.foldl (abandonIfSameMessage item) od, queue)

def nackItem (retransmitNow doFastRetransmit : Bool) (s : OutstandingData × σ) (tsn : Int) :
    Option (Bool × OutstandingData × σ) := do
  let item ← s.1.getItem tsn
  let od ← s.1.removeUnacked item
  let (nacked, action) := item.nack retransmitNow
  let od := od.setItem tsn nacked
  match action with
  | .kNothing => some (false, od, s.2)
  | .kRetransmit =>
    if doFastRetransmit then
      some (true, { od with toBeFastRetransmitted := od.toBeFastRetransmitted.insert tsn }, s.2)
    else some (true, { od with toBeRetransmitted := od.toBeRetransmitted.insert tsn }, s.2)
  | .kAbandon => some (true, abandonAllFor discard nacked (od, s.2))

/-- The inner loop of `NackBetweenAckBlocks`; the first argument is the number of TSNs
before the next block. The last TSN can move while chunks are abandoned. -/
def nackBefore (maxTsnToNack : Int) (doFastRetransmit : Bool) :
    Nat → Int → Bool × OutstandingData × σ → Option (Bool × OutstandingData × σ)
  | 0, _, s => some s
  | rounds + 1, tsn, (hasPacketLoss, s) =>
    if tsn ≤ maxTsnToNack ∧ tsn < s.1.nextTsn then do
      let (loss, s) ← nackItem discard false doFastRetransmit s tsn
      nackBefore maxTsnToNack doFastRetransmit rounds (tsn + 1) (hasPacketLoss || loss, s)
    else some (hasPacketLoss, s)

def nackBlocks (cumulativeTsnAck maxTsnToNack : Int) (doFastRetransmit : Bool) :
    Int → List GapAckBlock → Bool × OutstandingData × σ → Option (Bool × OutstandingData × σ)
  | _, [], s => some s
  | prevBlockLastAcked, block :: blocks, s => do
    let curBlockFirstAcked := cumulativeTsnAck + block.start.toNat
    let s ← nackBefore discard maxTsnToNack doFastRetransmit
      (curBlockFirstAcked - (prevBlockLastAcked + 1)).toNat (prevBlockLastAcked + 1) s
    nackBlocks cumulativeTsnAck maxTsnToNack doFastRetransmit
      (cumulativeTsnAck + block.end.toNat) blocks s

def nackBetweenAckBlocks (cumulativeTsnAck : Int) (gapAckBlocks : List GapAckBlock)
    (isInFastRecovery : Bool) (ackInfo : AckInfo) (s : OutstandingData × σ) :
    Option (AckInfo × OutstandingData × σ) := do
  let maxTsnToNack :=
    if isInFastRecovery && s.1.lastCumulativeTsnAck < cumulativeTsnAck then
      cumulativeTsnAck + (gapAckBlocks.getLast?.elim 0 fun block => block.end.toNat)
    else ackInfo.highestTsnAcked
  let (hasPacketLoss, s) ← nackBlocks discard cumulativeTsnAck maxTsnToNack (!isInFastRecovery)
    cumulativeTsnAck gapAckBlocks (ackInfo.hasPacketLoss, s)
  some ({ ackInfo with hasPacketLoss := hasPacketLoss }, s)

def handleSack (cumulativeTsnAck : Int) (gapAckBlocks : List GapAckBlock) (isInFastRecovery : Bool)
    (s : OutstandingData × σ) : Option (AckInfo × OutstandingData × σ) := do
  let (od, ackInfo) ← s.1.removeAcked cumulativeTsnAck (AckInfo.new cumulativeTsnAck)
  let (od, ackInfo) ← ackGapBlocks cumulativeTsnAck gapAckBlocks (od, ackInfo)
  nackBetweenAckBlocks discard cumulativeTsnAck gapAckBlocks isInFastRecovery ackInfo (od, s.2)

/-- The loop of `ExpireOutstandingChunks`, over the chunks present at its start. -/
def expireLoop (now : Timestamp) : List Int → OutstandingData × σ → OutstandingData × σ
  | [], s => s
  | tsn :: rest, s =>
    match s.1.getItem tsn with
    | none => s
    | some item =>
      if item.isAbandoned then expireLoop now rest s
      else if item.isNacked && item.hasExpired now then
        expireLoop now rest (abandonAllFor discard item s)
      else s

def expireOutstandingChunks (now : Timestamp) (s : OutstandingData × σ) : OutstandingData × σ :=
  expireLoop discard now s.1.tsns s

def insert (messageId : OutgoingMessageId) (data : Data) (timeSent : Timestamp)
    (maxRetransmissions : MaxRetransmits) (expiresAt : Timestamp) (lifecycleId : LifecycleId)
    (s : OutstandingData × σ) : Option Int × OutstandingData × σ :=
  let item := Item.new messageId data timeSent maxRetransmissions expiresAt lifecycleId
  let tsn := s.1.nextTsn
  let od := { s.1.pushBack item with
    unackedBytes := s.1.unackedBytes + s.1.getSerializedChunkSize data
    unackedItems := s.1.unackedItems + 1 }
  if item.hasExpired timeSent then (none, abandonAllFor discard item (od, s.2))
  else (some tsn, od, s.2)

def nackAll (s : OutstandingData × σ) : Option (OutstandingData × σ) :=
  let tsnsToNack := s.1.tsns.filter fun tsn => (s.1.getItem tsn).any fun item => !item.isAcked
  tsnsToNack.foldlM (fun s tsn => do
    let (_, s) ← nackItem discard true false s tsn
    some s) s

end Discarding

/-- Send the chunk again; `fast` says which of the two sets it is taken from. -/
def retransmit (od : OutstandingData) (fast : Bool) (tsn : Int) (item : Item) : OutstandingData :=
  { od.setItem tsn item.markAsRetransmitted with
    unackedBytes := od.unackedBytes + od.getSerializedChunkSize item.data
    unackedItems := od.unackedItems + 1
    toBeFastRetransmitted :=
      if fast then od.toBeFastRetransmitted.erase tsn else od.toBeFastRetransmitted
    toBeRetransmitted := if fast then od.toBeRetransmitted else od.toBeRetransmitted.erase tsn }

/-- The loop of `ExtractChunksThatCanFit`, over the TSNs in the set. -/
def extractLoop (fast : Bool) :
    List Int → Nat → OutstandingData → Option (List (TSN × Data) × OutstandingData)
  | [], _, od => some ([], od)
  | tsn :: rest, maxSize, od => do
    let item ← od.getItem tsn
    guard (item.shouldBeRetransmitted ∧ ¬ item.isOutstanding ∧ ¬ item.isAbandoned ∧ ¬ item.isAcked)
    let serializedSize := od.getSerializedChunkSize item.data
    if serializedSize ≤ maxSize then
      let od := od.retransmit fast tsn item
      if maxSize - serializedSize ≤ od.dataChunkHeaderSize then
        some ([(wrap 32 tsn, item.data)], od)
      else do
        let (result, od) ← extractLoop fast rest (maxSize - serializedSize) od
        some ((wrap 32 tsn, item.data) :: result, od)
    else if maxSize ≤ od.dataChunkHeaderSize then some ([], od)
    else extractLoop fast rest maxSize od

def getChunksToBeFastRetransmitted (od : OutstandingData) (maxSize : Nat) :
    Option (List (TSN × Data) × OutstandingData) := do
  let (result, od) ← extractLoop true od.toBeFastRetransmitted.toList maxSize od
  some (result, { od with
    toBeRetransmitted := od.toBeRetransmitted.union od.toBeFastRetransmitted
    toBeFastRetransmitted := ∅ })

def getChunksToBeRetransmitted (od : OutstandingData) (maxSize : Nat) :
    Option (List (TSN × Data) × OutstandingData) := do
  guard (¬ od.hasDataToBeFastRetransmitted)
  extractLoop false od.toBeRetransmitted.toList maxSize od

/-- Nothing stands for an infinite time. A chunk that was sent more than once is not measured. -/
def measureRTT (od : OutstandingData) (now : Timestamp) (tsn : Int) : Option Int := do
  let item ← od.getItem tsn
  if item.hasBeenRetransmitted then none else now.since item.timeSent

def beginResetStreams (od : OutstandingData) : OutstandingData :=
  { od with streamResetBreakpointTsns := od.streamResetBreakpointTsns.insert od.nextTsn }

def shouldSendForwardTsn (od : OutstandingData) : Bool := od.outstandingData.head?.any Item.isAbandoned

end OutstandingData

end WebRtc.DcSctp
