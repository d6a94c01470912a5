import WebRtc.DcSctp.SendQueue

/-! The send queue (`tx/rr_send_queue`) and the scheduler of its streams (`tx/stream_scheduler`).
Operations are total; a failed `RTC_DCHECK` is remembered in the context, and nothing is said about
what follows one. -/

namespace WebRtc.DcSctp

/-- Virtual finish times: `double`s in the source, of which only positivity matters. -/
class VirtualTime (τ : Type) extends LinearOrder τ, Zero τ where
  addOne : τ → τ
  /-- `t + bytes * inverse_weight` for the weight of a priority. -/
  addWeighted : τ → Nat → StreamPriority → τ
  addOne_pos : ∀ t, 0 ≤ t → 0 < addOne t
  addWeighted_pos : ∀ t bytes priority, 0 ≤ t → 0 < bytes → 0 < addWeighted t bytes priority

/-- Exact arithmetic. The weight of priority zero is `0.000001`. -/
instance : VirtualTime ℚ where
  addOne t := t + 1
  addWeighted t bytes priority := t + bytes / max (priority.toNat : ℚ) (1 / 1000000)
  addOne_pos t h := by linarith
  addWeighted_pos t bytes priority h hb := by
    have : (0 : ℚ) < bytes := by exact_mod_cast hb
    have : (0 : ℚ) < max (priority.toNat : ℚ) (1 / 1000000) := lt_max_of_lt_right (by norm_num)
    positivity

namespace SendQueue

inductive Event where
  | onBufferedAmountLow (streamId : StreamID)
  | onTotalBufferedAmountLow
  | onLifecycleMessageExpired (lifecycleId : LifecycleId) (maybeDelivered : Bool)
  | onLifecycleEnd (lifecycleId : LifecycleId)
  deriving DecidableEq, Repr

end SendQueue

structure SendOptions where
  unordered : Bool
  lifetimeMs : Option Int
  maxRetransmissions : Option Nat
  lifecycleId : LifecycleId

structure ThresholdWatcher where
  value : Nat
  lowThreshold : Nat

namespace ThresholdWatcher

def increase (w : ThresholdWatcher) (bytes : Nat) : ThresholdWatcher :=
  { w with value := w.value + bytes }

def decrease (w : ThresholdWatcher) (bytes : Nat) : ThresholdWatcher × Bool :=
  ({ w with value := w.value - bytes },
    w.lowThreshold < w.value ∧ w.value - bytes ≤ w.lowThreshold)

def setLowThreshold (w : ThresholdWatcher) (lowThreshold : Nat) : ThresholdWatcher × Bool :=
  ({ w with lowThreshold }, w.lowThreshold < w.value ∧ w.value ≤ lowThreshold)

end ThresholdWatcher

structure StreamScheduler (τ : Type) [VirtualTime τ] where
  maxPayloadBytes : Nat
  virtualTime : τ
  currentStream : Option StreamID
  enableMessageInterleaving : Bool
  currentlySendingAMessage : Bool
  /-- Ordered by virtual finish time, then by stream. -/
  activeStreams : OrdSet (τ ×ₗ StreamID)

structure SendQueueContext (τ : Type) [VirtualTime τ] where
  scheduler : StreamScheduler τ
  totalBufferedAmount : ThresholdWatcher
  currentMessageId : OutgoingMessageId
  events : List SendQueue.Event
  checksHold : Bool

inductive PauseState where
  | kNotPaused
  | kPending
  | kPaused
  | kResetting
  deriving DecidableEq, Repr

structure MessageAttributes where
  unordered : Bool
  maxRetransmissions : MaxRetransmits
  expiresAt : Timestamp
  lifecycleId : LifecycleId

structure QueuedMessage where
  messageId : OutgoingMessageId
  message : DcSctpMessage
  attributes : MessageAttributes
  remainingOffset : Nat
  remainingSize : Nat
  mid : Option MID
  ssn : Option SSN
  currentFsn : FSN

def QueuedMessage.new (messageId : OutgoingMessageId) (message : DcSctpMessage)
    (attributes : MessageAttributes) : QueuedMessage :=
  ⟨messageId, message, attributes, 0, message.payload.length, none, none, 0⟩

structure OutgoingStream (τ : Type) [VirtualTime τ] where
  streamId : StreamID
  priority : StreamPriority
  currentVirtualTime : τ
  nextFinishTime : τ
  pauseState : PauseState
  nextUnorderedMid : MID
  nextOrderedMid : MID
  nextSsn : SSN
  items : List QueuedMessage
  bufferedAmount : ThresholdWatcher

variable {τ : Type} [VirtualTime τ]

namespace SendQueueContext

def check (ctx : SendQueueContext τ) (p : Prop) [Decidable p] : SendQueueContext τ :=
  { ctx with checksHold := ctx.checksHold && p }

def notify (ctx : SendQueueContext τ) (condition : Bool) (event : SendQueue.Event) :
    SendQueueContext τ :=
  if condition then { ctx with events := ctx.events ++ [event] } else ctx

def forceReschedule (ctx : SendQueueContext τ) : SendQueueContext τ :=
  { ctx with scheduler := { ctx.scheduler with currentlySendingAMessage := false } }

def setActiveStreams (ctx : SendQueueContext τ) (activeStreams : OrdSet (τ ×ₗ StreamID)) :
    SendQueueContext τ :=
  { ctx with scheduler := { ctx.scheduler with activeStreams } }

def takeStream (ctx : SendQueueContext τ) (first : τ ×ₗ StreamID) : SendQueueContext τ :=
  { ctx with scheduler := { ctx.scheduler with
      currentStream := some (ofLex first).2
      activeStreams := ctx.scheduler.activeStreams.erase first } }

def fragmentProduced (ctx : SendQueueContext τ) (streamId : StreamID) (virtualTime : τ)
    (data : Data) : SendQueueContext τ :=
  let ctx := ctx.check (data.streamId = streamId)
  { ctx with scheduler :=
      { ctx.scheduler with currentlySendingAMessage := !data.isEnd, virtualTime } }

end SendQueueContext

namespace OutgoingStream

def new (streamId : StreamID) (priority : StreamPriority) : OutgoingStream τ :=
  { streamId, priority, currentVirtualTime := 0, nextFinishTime := 0, pauseState := .kNotPaused,
    nextUnorderedMid := 0, nextOrderedMid := 0, nextSsn := 0, items := [], bufferedAmount := ⟨0, 0⟩ }

def bytesToSendInNextMessage (s : OutgoingStream τ) : Nat :=
  if s.pauseState = .kPaused ∨ s.pauseState = .kResetting then 0
  else
    match s.items with
    | [] => 0
    | front :: _ => front.remainingSize

def isReadyToBeReset (s : OutgoingStream τ) : Bool := s.pauseState = .kPaused

def isResetting (s : OutgoingStream τ) : Bool := s.pauseState = .kResetting

def hasPartiallySentMessage (s : OutgoingStream τ) : Bool :=
  match s.items with
  | [] => false
  | front :: _ => front.mid.isSome

def isConsistent (s : OutgoingStream τ) : Bool :=
  (s.items.map QueuedMessage.remainingSize).sum = s.bufferedAmount.value

/-! The part of a stream in the scheduler. -/

def calculateFinishTime (s : OutgoingStream τ) (scheduler : StreamScheduler τ) (bytes : Nat) : τ :=
  if scheduler.enableMessageInterleaving then
    VirtualTime.addWeighted s.currentVirtualTime bytes s.priority
  else VirtualTime.addOne s.currentVirtualTime

def makeActive (bytesToSendNext : Nat) (c : SendQueueContext τ × OutgoingStream τ) :
    SendQueueContext τ × OutgoingStream τ :=
  let (ctx, s) := c
  let s := { s with currentVirtualTime := ctx.scheduler.virtualTime }
  let nextFinishTime := s.calculateFinishTime ctx.scheduler
    (min bytesToSendNext ctx.scheduler.maxPayloadBytes)
  let ctx := ctx.check (0 < bytesToSendNext ∧ (0 : τ) < nextFinishTime ∧ s.nextFinishTime = (0 : τ) ∧
    ∀ p ∈ ctx.scheduler.activeStreams.toList, (ofLex p).2 ≠ s.streamId)
  (ctx.setActiveStreams (ctx.scheduler.activeStreams.insert (toLex (nextFinishTime, s.streamId))),
    { s with nextFinishTime })

def maybeMakeActive (c : SendQueueContext τ × OutgoingStream τ) :
    SendQueueContext τ × OutgoingStream τ :=
  let (ctx, s) := c
  let ctx := ctx.check (s.nextFinishTime = 0)
  let bytesToSendNext := s.bytesToSendInNextMessage
  if bytesToSendNext = 0 then (ctx, s) else makeActive bytesToSendNext (ctx, s)

def forceMarkInactive (c : SendQueueContext τ × OutgoingStream τ) :
    SendQueueContext τ × OutgoingStream τ :=
  (c.1.check (c.2.nextFinishTime ≠ 0), { c.2 with nextFinishTime := 0 })

def makeInactive (c : SendQueueContext τ × OutgoingStream τ) :
    SendQueueContext τ × OutgoingStream τ :=
  let (ctx, s) := forceMarkInactive c
  (ctx.setActiveStreams
    (ctx.scheduler.activeStreams.filterKeys fun p => (ofLex p).2 ≠ s.streamId), s)

/-! The part of a stream in the queue. -/

def decreaseBuffered (bytes : Nat) (c : SendQueueContext τ × OutgoingStream τ) :
    SendQueueContext τ × OutgoingStream τ :=
  let (ctx, s) := c
  let (bufferedAmount, low) := s.bufferedAmount.decrease bytes
  let ctx := (ctx.check (bytes ≤ s.bufferedAmount.value)).notify low
    (.onBufferedAmountLow s.streamId)
  let (totalBufferedAmount, low) := ctx.totalBufferedAmount.decrease bytes
  let ctx := (ctx.check (bytes ≤ ctx.totalBufferedAmount.value)).notify low .onTotalBufferedAmountLow
  ({ ctx with totalBufferedAmount }, { s with bufferedAmount })

def increaseBuffered (bytes : Nat) (c : SendQueueContext τ × OutgoingStream τ) :
    SendQueueContext τ × OutgoingStream τ :=
  ({ c.1 with totalBufferedAmount := c.1.totalBufferedAmount.increase bytes },
    { c.2 with bufferedAmount := c.2.bufferedAmount.increase bytes })

def handleMessageExpired (item : QueuedMessage) (c : SendQueueContext τ × OutgoingStream τ) :
    SendQueueContext τ × OutgoingStream τ :=
  let (ctx, s) := decreaseBuffered item.remainingSize c
  let isSet : Bool := item.attributes.lifecycleId ≠ 0
  ((ctx.notify isSet (.onLifecycleMessageExpired item.attributes.lifecycleId false)).notify isSet
    (.onLifecycleEnd item.attributes.lifecycleId), s)

def add (message : DcSctpMessage) (attributes : MessageAttributes)
    (c : SendQueueContext τ × OutgoingStream τ) : SendQueueContext τ × OutgoingStream τ :=
  let wasActive := 0 < c.2.bytesToSendInNextMessage
  let (ctx, s) := increaseBuffered message.payload.length c
  let item := QueuedMessage.new ctx.currentMessageId message attributes
  let ctx := { ctx with currentMessageId := ctx.currentMessageId + 1 }
  let s := { s with items := s.items ++ [item] }
  if wasActive then (ctx, s) else maybeMakeActive (ctx, s)

/-- The rounds of `Produce` that drop messages which expired before any fragment was sent. -/
def dropExpired (now : Timestamp) :
    Nat → SendQueueContext τ × OutgoingStream τ → SendQueueContext τ × OutgoingStream τ
  | 0, c => c
  | rounds + 1, c =>
    match c.2.items with
    | [] => c
    | item :: rest =>
      if item.mid.isNone && item.attributes.expiresAt.le now then
        let (ctx, s) := handleMessageExpired item c
        dropExpired now rounds (ctx, { s with items := rest })
      else c

def allocate (s : OutgoingStream τ) (item : QueuedMessage) : QueuedMessage × OutgoingStream τ :=
  let (item, s) :=
    if item.mid.isSome then (item, s)
    else if item.attributes.unordered then
      ({ item with mid := some s.nextUnorderedMid },
        { s with nextUnorderedMid := s.nextUnorderedMid + 1 })
    else ({ item with mid := some s.nextOrderedMid }, { s with nextOrderedMid := s.nextOrderedMid + 1 })
  if item.attributes.unordered || item.ssn.isSome then (item, s)
  else ({ item with ssn := some s.nextSsn }, { s with nextSsn := s.nextSsn + 1 })

/-- The next fragment of a message, of at most `maxSize` bytes. The beginning is found by comparing
addresses, and that of an empty fragment is null. -/
def nextFragment (item : QueuedMessage) (maxSize : Nat) : SendQueue.DataToSend :=
  let payload := (item.message.payload.drop item.remainingOffset).take maxSize
  let isEnd : Bool := item.remainingOffset + payload.length = item.message.payload.length
  { messageId := item.messageId
    data :=
      { streamId := item.message.streamId
        ssn := item.ssn.getD 0
        mid := item.mid.getD 0
        fsn := item.currentFsn
        ppid := item.message.ppid
        payload
        isBeginning := item.remainingOffset = 0 && payload.isEmpty = item.message.payload.isEmpty
        isEnd
        isUnordered := item.attributes.unordered }
    maxRetransmissions := item.attributes.maxRetransmissions
    expiresAt := item.attributes.expiresAt
    lifecycleId := if isEnd then item.attributes.lifecycleId else 0 }

/-- The round of `Produce` that sends a fragment of the front message. -/
def produceFragment (maxSize : Nat) (item : QueuedMessage) (rest : List QueuedMessage)
    (c : SendQueueContext τ × OutgoingStream τ) :
    SendQueue.DataToSend × SendQueueContext τ × OutgoingStream τ :=
  let (item, s) := c.2.allocate item
  let chunk := nextFragment item maxSize
  let (ctx, s) := decreaseBuffered chunk.data.size (c.1, s)
  if chunk.data.isEnd then
    (chunk, ctx, { s with
      items := rest
      pauseState := if s.pauseState = .kPending then .kPaused else s.pauseState })
  else
    let item := { item with
      currentFsn := item.currentFsn + 1
      remainingOffset := item.remainingOffset + chunk.data.size
      remainingSize := item.remainingSize - chunk.data.size }
    (chunk, ctx.check (item.remainingOffset + item.remainingSize = item.message.payload.length ∧
      0 < item.remainingSize), { s with items := item :: rest })

def produce (now : Timestamp) (maxSize : Nat) (c : SendQueueContext τ × OutgoingStream τ) :
    Option SendQueue.DataToSend × SendQueueContext τ × OutgoingStream τ :=
  let ctx := c.1.check (c.2.pauseState ≠ .kPaused ∧ c.2.pauseState ≠ .kResetting)
  let c := dropExpired now c.2.items.length (ctx, c.2)
  match c.2.items with
  | [] => (none, c)
  | item :: rest =>
    let (chunk, c) := produceFragment maxSize item rest c
    (some chunk, c)

/-- `StreamScheduler::Stream::Produce`: producing moves the stream's virtual time. -/
def scheduledProduce (now : Timestamp) (maxSize : Nat) (c : SendQueueContext τ × OutgoingStream τ) :
    Option SendQueue.DataToSend × SendQueueContext τ × OutgoingStream τ :=
  let (data, ctx, s) := produce now maxSize c
  match data with
  | none => (none, ctx, s)
  | some chunk =>
    (some chunk, ctx,
      { s with currentVirtualTime := s.calculateFinishTime ctx.scheduler chunk.data.size })

def discard (messageId : OutgoingMessageId) (c : SendQueueContext τ × OutgoingStream τ) :
    Bool × SendQueueContext τ × OutgoingStream τ :=
  match c.2.items with
  | [] => (false, c)
  | item :: rest =>
    if item.messageId = messageId then
      let (ctx, s) := handleMessageExpired item c
      let ctx := ctx.forceReschedule
      let s := { s with items := rest }
      if s.pauseState = .kPending then (true, makeInactive (ctx, { s with pauseState := .kPaused }))
      else if s.bytesToSendInNextMessage = 0 then (true, makeInactive (ctx, s))
      else (true, ctx, s)
    else (false, c)

/-- The loop of `Pause` that drops the messages of which nothing was sent. -/
def dropUnsent : List QueuedMessage → SendQueueContext τ × OutgoingStream τ →
      List QueuedMessage × SendQueueContext τ × OutgoingStream τ
  | [], c => ([], c)
  | item :: rest, c =>
    if item.remainingOffset = 0 then dropUnsent rest (handleMessageExpired item c)
    else
      let (kept, c) := dropUnsent rest c
      (item :: kept, c)

def pause (c : SendQueueContext τ × OutgoingStream τ) : SendQueueContext τ × OutgoingStream τ :=
  if c.2.pauseState ≠ .kNotPaused then c
  else
    let hadPendingItems := !c.2.items.isEmpty
    let (items, ctx, s) := dropUnsent c.2.items c
    let pauseState :=
      if items.head?.all fun front => front.remainingOffset = 0 then PauseState.kPaused
      else .kPending
    let s := { s with items, pauseState }
    if hadPendingItems && pauseState = .kPaused then makeInactive (ctx, s) else (ctx, s)

def resume (c : SendQueueContext τ × OutgoingStream τ) : SendQueueContext τ × OutgoingStream τ :=
  maybeMakeActive
    (c.1.check (c.2.pauseState = .kResetting), { c.2 with pauseState := .kNotPaused })

def setAsResetting (c : SendQueueContext τ × OutgoingStream τ) :
    SendQueueContext τ × OutgoingStream τ :=
  (c.1.check (c.2.pauseState = .kPaused), { c.2 with pauseState := .kResetting })

def unsend (item : QueuedMessage) : QueuedMessage :=
  { item with
    remainingOffset := 0
    remainingSize := item.message.payload.length
    mid := none
    ssn := none
    currentFsn := 0 }

def reset (c : SendQueueContext τ × OutgoingStream τ) : SendQueueContext τ × OutgoingStream τ :=
  let (ctx, s) := c
  let wasPaused := s.pauseState = .kPaused ∨ s.pauseState = .kResetting
  let s := { s with
    pauseState := .kNotPaused, nextOrderedMid := 0, nextUnorderedMid := 0, nextSsn := 0 }
  match s.items with
  | [] => (ctx, s)
  | item :: rest =>
    let (ctx, s) := increaseBuffered (item.message.payload.length - item.remainingSize) (ctx, s)
    let s := { s with items := unsend item :: rest }
    if wasPaused then maybeMakeActive (ctx, s) else (ctx, s)

end OutgoingStream

structure RRSendQueue (τ : Type) [VirtualTime τ] where
  bufferSize : Nat
  defaultPriority : StreamPriority
  ctx : SendQueueContext τ
  streams : OrdMap StreamID (OutgoingStream τ)

namespace RRSendQueue

def new (bufferSize mtu : Nat) (defaultPriority : StreamPriority)
    (totalBufferedAmountLowThreshold : Nat) : RRSendQueue τ :=
  { bufferSize
    defaultPriority
    ctx :=
      { scheduler :=
          { maxPayloadBytes := (((mtu : Int) - 12 - 20) % 2 ^ 64).toNat
            virtualTime := 0
            currentStream := none
            enableMessageInterleaving := false
            currentlySendingAMessage := false
            activeStreams := ∅ }
        totalBufferedAmount := ⟨0, totalBufferedAmountLowThreshold⟩
        currentMessageId := 0
        events := []
        checksHold := true }
    streams := ∅ }

def check (q : RRSendQueue τ) (p : Prop) [Decidable p] : RRSendQueue τ :=
  { q with ctx := q.ctx.check p }

def getOrCreateStreamInfo (q : RRSendQueue τ) (streamId : StreamID) : OutgoingStream τ :=
  (q.streams.find? streamId).getD (.new streamId q.defaultPriority)

def putStream (q : RRSendQueue τ) (c : SendQueueContext τ × OutgoingStream τ) : RRSendQueue τ :=
  { q with ctx := c.1, streams := q.streams.upsert c.2.streamId fun _ => c.2 }

def updateStream (q : RRSendQueue τ) (streamId : StreamID)
    (f : SendQueueContext τ × OutgoingStream τ → SendQueueContext τ × OutgoingStream τ) :
    RRSendQueue τ :=
  q.putStream (f (q.ctx, q.getOrCreateStreamInfo streamId))

def schedulerIsConsistent (q : RRSendQueue τ) : Bool :=
  q.ctx.scheduler.activeStreams.toList.all fun p =>
    (q.getOrCreateStreamInfo (ofLex p).2).nextFinishTime ≠ 0

def isConsistent (q : RRSendQueue τ) : Bool :=
  let actualActiveStreams : OrdSet StreamID :=
    q.ctx.scheduler.activeStreams.toList.foldl (fun ids p => ids.insert (ofLex p).2) ∅
  let expectedActiveStreams := (q.streams.entries.filter fun e =>
    0 < e.2.bytesToSendInNextMessage).map Prod.fst
  actualActiveStreams.toList = expectedActiveStreams &&
    q.streams.sumBy (fun s => s.bufferedAmount.value) = q.ctx.totalBufferedAmount.value

def attributesOf (now : Timestamp) (options : SendOptions) : MessageAttributes :=
  { unordered := options.unordered
    maxRetransmissions := options.maxRetransmissions.elim .noLimit fun n => BitVec.ofNat 16 n
    expiresAt := options.lifetimeMs.elim .plusInfinity fun ms => now.addMicros (ms * 1000 + 1000)
    lifecycleId := options.lifecycleId }

def add (q : RRSendQueue τ) (now : Timestamp) (message : DcSctpMessage) (options : SendOptions) :
    RRSendQueue τ :=
  (q.check (message.payload ≠ [])).updateStream message.streamId
    (OutgoingStream.add message (attributesOf now options))

def isFull (q : RRSendQueue τ) : Bool := q.bufferSize ≤ q.ctx.totalBufferedAmount.value

def isEmpty (q : RRSendQueue τ) : Bool := q.ctx.totalBufferedAmount.value = 0

def reschedule (q : RRSendQueue τ) (first : τ ×ₗ StreamID) : RRSendQueue τ :=
  { q with ctx := q.ctx.takeStream first }.updateStream (ofLex first).2
    OutgoingStream.forceMarkInactive

def produceFrom (q : RRSendQueue τ) (now : Timestamp) (maxSize : Nat) (streamId : StreamID) :
    Option SendQueue.DataToSend × RRSendQueue τ :=
  let (data, c) := OutgoingStream.scheduledProduce now maxSize (q.ctx, q.getOrCreateStreamInfo streamId)
  (data, q.putStream c)

/-- The loop of `StreamScheduler::Produce` while it reschedules: every round takes one stream off
the active ones. -/
def produceRescheduling (now : Timestamp) (maxSize : Nat) :
    Nat → RRSendQueue τ → Option SendQueue.DataToSend × RRSendQueue τ
  | 0, q => (none, q)
  | rounds + 1, q =>
    match q.ctx.scheduler.activeStreams.toList with
    | [] => (none, q)
    | first :: _ =>
      match (q.reschedule first).produceFrom now maxSize (ofLex first).2 with
      | (some data, q) => (some data, q)
      | (none, q) => produceRescheduling now maxSize rounds q

def produceFromCurrent (q : RRSendQueue τ) (now : Timestamp) (maxSize : Nat) (streamId : StreamID) :
    Option SendQueue.DataToSend × RRSendQueue τ :=
  if q.ctx.scheduler.activeStreams.toList.isEmpty then (none, q)
  else
    (q.check (∃ p ∈ q.ctx.scheduler.activeStreams.toList, (ofLex p).2 = streamId)).produceFrom
      now maxSize streamId

/-- The part of `StreamScheduler::Produce` after a fragment was produced. -/
def afterProduce (q : RRSendQueue τ) (rescheduling : Bool) (streamId : StreamID)
    (data : SendQueue.DataToSend) : RRSendQueue τ :=
  let s := q.getOrCreateStreamInfo streamId
  let ctx := q.ctx.fragmentProduced streamId s.currentVirtualTime data.data
  let bytesToSendNext := s.bytesToSendInNextMessage
  if rescheduling && 0 < bytesToSendNext then
    q.putStream (OutgoingStream.makeActive bytesToSendNext (ctx, s))
  else if !rescheduling && bytesToSendNext = 0 then
    q.putStream (OutgoingStream.makeInactive (ctx, s))
  else { q with ctx }

/-- A message that is not interleaved with others is sent in full before the next stream is
scheduled. Its stream has a fragment to send, so the loop does not come back to it. -/
def produce (q : RRSendQueue τ) (now : Timestamp) (maxSize : Nat) :
    Option SendQueue.DataToSend × RRSendQueue τ :=
  let rescheduling :=
    q.ctx.scheduler.enableMessageInterleaving || !q.ctx.scheduler.currentlySendingAMessage
  let q := q.check (rescheduling ∨ q.ctx.scheduler.currentStream.isSome)
  let (data, q) :=
    if rescheduling then
      q.produceRescheduling now maxSize q.ctx.scheduler.activeStreams.toList.length
    else
      match q.ctx.scheduler.currentStream with
      | none => (none, q)
      | some streamId => q.produceFromCurrent now maxSize streamId
  match data, q.ctx.scheduler.currentStream with
  | some data, some streamId => (some data, q.afterProduce rescheduling streamId data)
  | _, _ => (none, q)

def discard (q : RRSendQueue τ) (streamId : StreamID) (messageId : OutgoingMessageId) :
    Bool × RRSendQueue τ :=
  let (result, c) := OutgoingStream.discard messageId (q.ctx, q.getOrCreateStreamInfo streamId)
  (result, q.putStream c)

def prepareResetStream (q : RRSendQueue τ) (streamId : StreamID) : RRSendQueue τ :=
  q.updateStream streamId OutgoingStream.pause

def hasStreamsReadyToBeReset (q : RRSendQueue τ) : Bool :=
  q.streams.entries.any fun e => e.2.isReadyToBeReset

def hasResettingStreams (q : RRSendQueue τ) : Bool :=
  q.streams.entries.any fun e => e.2.isResetting

def forStreams (condition : OutgoingStream τ → Bool)
    (f : SendQueueContext τ × OutgoingStream τ → SendQueueContext τ × OutgoingStream τ) :
    List StreamID → RRSendQueue τ → RRSendQueue τ
  | [], q => q
  | streamId :: rest, q =>
    forStreams condition f rest
      (if condition (q.getOrCreateStreamInfo streamId) then q.updateStream streamId f else q)

def streamIds (q : RRSendQueue τ) : List StreamID := q.streams.entries.map Prod.fst

def getStreamsReadyToBeReset (q : RRSendQueue τ) : List StreamID × RRSendQueue τ :=
  ((q.streams.entries.filter fun e => e.2.isReadyToBeReset).map Prod.fst,
    forStreams OutgoingStream.isReadyToBeReset OutgoingStream.setAsResetting q.streamIds
      (q.check (q.hasResettingStreams = false)))

def commitResetStreams (q : RRSendQueue τ) : RRSendQueue τ :=
  forStreams OutgoingStream.isResetting OutgoingStream.reset q.streamIds
    (q.check (q.hasResettingStreams = true))

def rollbackResetStreams (q : RRSendQueue τ) : RRSendQueue τ :=
  forStreams OutgoingStream.isResetting OutgoingStream.resume q.streamIds
    (q.check (q.hasResettingStreams = true))

def reset (q : RRSendQueue τ) : RRSendQueue τ :=
  let q := forStreams (fun _ => true) OutgoingStream.reset q.streamIds q
  { q with ctx := q.ctx.forceReschedule }

def setBufferedAmountLowThreshold (q : RRSendQueue τ) (streamId : StreamID) (bytes : Nat) :
    RRSendQueue τ :=
  q.updateStream streamId fun (ctx, s) =>
    let (bufferedAmount, low) := s.bufferedAmount.setLowThreshold bytes
    (ctx.notify low (.onBufferedAmountLow streamId), { s with bufferedAmount })

def setStreamPriority (q : RRSendQueue τ) (streamId : StreamID) (priority : StreamPriority) :
    RRSendQueue τ :=
  q.updateStream streamId fun (ctx, s) => (ctx, { s with priority })

def setMessageInterleaving (q : RRSendQueue τ) (enabled : Bool) : RRSendQueue τ :=
  { q with ctx := { q.ctx with scheduler :=
      { q.ctx.scheduler with enableMessageInterleaving := enabled } } }

theorem nextFragment_size_le (item : QueuedMessage) (maxSize : Nat) :
    (OutgoingStream.nextFragment item maxSize).data.size ≤ maxSize :=
  List.length_take_le ..

variable {chunk : SendQueue.DataToSend} {now : Timestamp}

theorem scheduledProduce_size_le {maxSize : Nat} {c : SendQueueContext τ × OutgoingStream τ}
    (h : (OutgoingStream.scheduledProduce now maxSize c).1 = some chunk) :
    chunk.data.size ≤ maxSize := by
  simp only [OutgoingStream.scheduledProduce, OutgoingStream.produce] at h
  split at h
  · cases h
  · rename_i he
    split at he
    · cases he
    · simp only [OutgoingStream.produceFragment, Option.some.injEq] at he h
      subst h
      rw [← he]
      split_ifs <;> exact nextFragment_size_le _ _

theorem produceRescheduling_size_le {maxSize rounds : Nat} {q : RRSendQueue τ}
    (h : (produceRescheduling now maxSize rounds q).1 = some chunk) :
    chunk.data.size ≤ maxSize := by
  induction rounds generalizing q with
  | zero => cases h
  | succ rounds ih =>
    simp only [produceRescheduling] at h
    split at h
    · cases h
    · split at h
      · rename_i he
        cases h
        exact scheduledProduce_size_le (congrArg Prod.fst he)
      · exact ih h

theorem produce_size_le {maxSize : Nat} {q : RRSendQueue τ}
    (h : (q.produce now maxSize).1 = some chunk) : chunk.data.size ≤ maxSize := by
  simp only [produce] at h
  split at h
  · rename_i hdata _
    cases h
    split_ifs at hdata
    · exact produceRescheduling_size_le hdata
    · split at hdata
      · cases hdata
      · simp only [produceFromCurrent] at hdata
        split_ifs at hdata
        exact scheduledProduce_size_le hdata
  · cases h

instance : SendQueue (RRSendQueue τ) where
  produce now maxSize q := q.produce now maxSize
  discard streamId messageId q := q.discard streamId messageId
  getStreamsReadyToBeReset q := q.getStreamsReadyToBeReset
  size_le h := produce_size_le h

end RRSendQueue

end WebRtc.DcSctp
