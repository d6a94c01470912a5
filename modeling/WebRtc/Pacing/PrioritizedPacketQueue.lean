import WebRtc.Lib.Checked
import WebRtc.Lib.OrdMapTotal

/-! The queue of the pacer (`prioritized_packet_queue.cc`): a queue for each stream and priority
level, served round robin, with the counters, the enqueue times and the queue times kept beside. -/

namespace WebRtc.Pacing

inductive RtpPacketMediaType
  | kAudio
  | kVideo
  | kRetransmission
  | kForwardErrorCorrection
  | kPadding
  deriving DecidableEq, Repr

inductive OriginalType
  | kAudio
  | kVideo
  deriving DecidableEq, Repr

structure RtpPacketToSend where
  ssrc : Nat
  packetType : RtpPacketMediaType
  originalPacketType : Option OriginalType
  payloadSize : Nat
  paddingSize : Nat
  isKeyFrame : Bool
  deriving DecidableEq, Repr

def getPriorityForType (type : RtpPacketMediaType) (originalType : Option OriginalType) : Fin 5 :=
  match type with
  | .kAudio => 0
  | .kRetransmission => if originalType = some .kVideo then 2 else 1
  | .kVideo => 3
  | .kForwardErrorCorrection => 3
  | .kPadding => 4

structure PacketQueueTTL where
  audioRetransmission : Option Int
  videoRetransmission : Option Int
  video : Option Int
  deriving DecidableEq, Repr

def toTtlPerPrio (ttl : PacketQueueTTL) : Fin 5 → Option Int :=
  Function.update
    (Function.update
      (Function.update (fun _ => none) (getPriorityForType .kRetransmission (some .kAudio))
        ttl.audioRetransmission)
      (getPriorityForType .kRetransmission (some .kVideo)) ttl.videoRetransmission)
    (getPriorityForType .kVideo none) ttl.video

structure QueuedPacket where
  packet : RtpPacketToSend
  enqueueTime : Int
  /-- The node of the list of enqueue times. -/
  enqueueTimeIterator : Nat
  deriving DecidableEq, Repr

def QueuedPacket.packetSize (p : QueuedPacket) : Int := p.packet.payloadSize + p.packet.paddingSize

structure StreamQueue where
  packets : Fin 5 → List QueuedPacket
  lastEnqueueTime : Int
  numKeyframePackets : Int

namespace StreamQueue

def create (creationTime : Int) : StreamQueue := ⟨fun _ => [], creationTime, 0⟩

def enqueuePacket (s : StreamQueue) (packet : QueuedPacket) (priorityLevel : Fin 5) :
    Bool × StreamQueue :=
  ((s.packets priorityLevel).isEmpty,
    { s with
      packets := Function.update s.packets priorityLevel (s.packets priorityLevel ++ [packet])
      numKeyframePackets := s.numKeyframePackets + if packet.packet.isKeyFrame then 1 else 0 })

def dequeuePacket (s : StreamQueue) (priorityLevel : Fin 5) : Option (QueuedPacket × StreamQueue) :=
  match s.packets priorityLevel with
  | [] => none
  | packet :: rest => do
    guard (packet.packet.isKeyFrame → s.numKeyframePackets > 0)
    return (packet,
      { s with
        packets := Function.update s.packets priorityLevel rest
        numKeyframePackets := s.numKeyframePackets - if packet.packet.isKeyFrame then 1 else 0 })

def hasPacketsAtPrio (s : StreamQueue) (priorityLevel : Fin 5) : Bool :=
  !(s.packets priorityLevel).isEmpty

def isEmpty (s : StreamQueue) : Bool := (List.finRange 5).all fun i => (s.packets i).isEmpty

def dequeueAll (s : StreamQueue) : StreamQueue :=
  { s with packets := fun _ => [], numKeyframePackets := 0 }

end StreamQueue

structure PrioritizedPacketQueue where
  prioritizeAudioRetransmission : Bool
  timeToLivePerPrio : Fin 5 → Option Int
  queueTimeSum : Int
  pauseTimeSum : Int
  sizePackets : Int
  sizePacketsPerMediaType : RtpPacketMediaType → Int
  sizePayload : Int
  lastUpdateTime : Int
  paused : Bool
  lastCullingTime : Int
  streams : OrdMap Nat StreamQueue
  streamsByPrio : Fin 5 → List Nat
  /-- None is the level -1. -/
  topActivePrioLevel : Option (Fin 5)
  enqueueTimes : List (Nat × Int)
  /-- The node that the next insertion into the list makes. -/
  nextNode : Nat

namespace PrioritizedPacketQueue

variable (q : PrioritizedPacketQueue)

def create (creationTime : Int) (prioritizeAudioRetransmission : Bool) (ttl : PacketQueueTTL) :
    PrioritizedPacketQueue where
  prioritizeAudioRetransmission := prioritizeAudioRetransmission
  timeToLivePerPrio := toTtlPerPrio ttl
  queueTimeSum := 0
  pauseTimeSum := 0
  sizePackets := 0
  sizePacketsPerMediaType := fun _ => 0
  sizePayload := 0
  lastUpdateTime := creationTime
  paused := false
  lastCullingTime := creationTime
  streams := ∅
  streamsByPrio := fun _ => []
  topActivePrioLevel := none
  enqueueTimes := []
  nextNode := 0

def prioLevel (packet : RtpPacketToSend) : Fin 5 :=
  getPriorityForType packet.packetType
    (if q.prioritizeAudioRetransmission then packet.originalPacketType else none)

def setStream (ssrc : Nat) (stream : StreamQueue) : PrioritizedPacketQueue :=
  { q with streams := q.streams.upsert ssrc fun _ => stream }

def updateAverageQueueTime (now : Int) : Option PrioritizedPacketQueue := do
  guard (now ≥ q.lastUpdateTime)
  let delta := now - q.lastUpdateTime
  if now = q.lastUpdateTime then some q
  else if q.paused then
    some { q with pauseTimeSum := q.pauseTimeSum + delta, lastUpdateTime := now }
  else
    some { q with queueTimeSum := q.queueTimeSum + delta * q.sizePackets, lastUpdateTime := now }

def setPauseState (paused : Bool) (now : Int) : Option PrioritizedPacketQueue :=
  (q.updateAverageQueueTime now).map fun q => { q with paused }

def dequeuePacketInternal (packet : QueuedPacket) : Option PrioritizedPacketQueue := do
  let sizePackets := q.sizePackets - 1
  let count := q.sizePacketsPerMediaType packet.packet.packetType - 1
  guard (count ≥ 0)
  let queueTimeSum :=
    q.queueTimeSum - (q.lastUpdateTime - packet.enqueueTime - q.pauseTimeSum)
  guard (sizePackets > 0 ∨ queueTimeSum = 0)
  guard (packet.enqueueTimeIterator ∈ q.enqueueTimes.map Prod.fst)
  return { q with
    sizePackets
    sizePacketsPerMediaType :=
      Function.update q.sizePacketsPerMediaType packet.packet.packetType count
    sizePayload := q.sizePayload - packet.packetSize
    queueTimeSum
    enqueueTimes := q.enqueueTimes.filter fun e => e.1 ≠ packet.enqueueTimeIterator }

def purgeStream (prioLevel : Fin 5) (timeToLive now : Int) (ssrc : Nat) :
    Nat → PrioritizedPacketQueue → Option PrioritizedPacketQueue
  | 0, q => some q
  | n + 1, q => do
    let stream ← q.streams.find? ssrc
    match stream.packets prioLevel with
    | [] => some q
    | leading :: _ =>
      if now - leading.enqueueTime > timeToLive then do
        let (packet, stream) ← stream.dequeuePacket prioLevel
        let q ← (q.setStream ssrc stream).dequeuePacketInternal packet
        purgeStream prioLevel timeToLive now ssrc n q
      else some q

def purgeStreams (prioLevel : Fin 5) (timeToLive now : Int) :
    List Nat → PrioritizedPacketQueue → Option (List Nat × PrioritizedPacketQueue)
  | [], q => some ([], q)
  | ssrc :: rest, q => do
    let stream ← q.streams.find? ssrc
    let q ← purgeStream prioLevel timeToLive now ssrc (stream.packets prioLevel).length q
    let stream ← q.streams.find? ssrc
    let (kept, q) ← purgeStreams prioLevel timeToLive now rest q
    return (if stream.hasPacketsAtPrio prioLevel then ssrc :: kept else kept, q)

def purgeOldPacketsAtPriorityLevel (prioLevel : Fin 5) (now : Int) :
    Option PrioritizedPacketQueue :=
  match q.timeToLivePerPrio prioLevel with
  | none => some q
  | some timeToLive =>
    (purgeStreams prioLevel timeToLive now (q.streamsByPrio prioLevel) q).map fun (kept, q) =>
      { q with streamsByPrio := Function.update q.streamsByPrio prioLevel kept }

def findTopPrioLevel : List (Fin 5) → PrioritizedPacketQueue → Option PrioritizedPacketQueue
  | [], q => some q
  | i :: rest, q => do
    let q ← q.purgeOldPacketsAtPriorityLevel i q.lastUpdateTime
    if q.streamsByPrio i ≠ [] then return { q with topActivePrioLevel := some i }
    else findTopPrioLevel rest q

def maybeUpdateTopPrioLevel : Option PrioritizedPacketQueue :=
  if q.topActivePrioLevel.any fun top => !(q.streamsByPrio top).isEmpty then some q
  else (findTopPrioLevel (List.finRange 5) q).map fun q =>
    if q.sizePackets = 0 then { q with topActivePrioLevel := none } else q

def cullStreams (enqueueTime : Int) : PrioritizedPacketQueue :=
  if enqueueTime - q.lastCullingTime > 500000 then
    { q with
      streams := q.streams.filterKeys fun ssrc => !(q.streams.find? ssrc).any fun stream =>
        stream.isEmpty && decide (stream.lastEnqueueTime + 500000 < enqueueTime)
      lastCullingTime := enqueueTime }
  else q

/-- The part of `Push` that puts the packet into the queue of its stream. -/
def enqueue (prioLevel : Fin 5) (packet : QueuedPacket) : Option PrioritizedPacketQueue := do
  let stream ← q.streams.find? packet.packet.ssrc
  let (first, stream) := stream.enqueuePacket packet prioLevel
  return { q with
    sizePackets := q.sizePackets + 1
    sizePacketsPerMediaType := Function.update q.sizePacketsPerMediaType packet.packet.packetType
      (q.sizePacketsPerMediaType packet.packet.packetType + 1)
    sizePayload := q.sizePayload + packet.packetSize
    streams := q.streams.upsert packet.packet.ssrc fun _ => stream
    streamsByPrio :=
      if first then Function.update q.streamsByPrio prioLevel
        (q.streamsByPrio prioLevel ++ [packet.packet.ssrc])
      else q.streamsByPrio
    topActivePrioLevel :=
      if q.topActivePrioLevel.all fun top => prioLevel < top then some prioLevel
      else q.topActivePrioLevel }

def push (enqueueTime : Int) (packet : RtpPacketToSend) : Option PrioritizedPacketQueue := do
  let node := q.nextNode
  let prioLevel := q.prioLevel packet
  let q : PrioritizedPacketQueue := { q with
    streams := q.streams.upsert packet.ssrc fun stream => stream.getD (.create enqueueTime)
    enqueueTimes := q.enqueueTimes ++ [(node, enqueueTime)]
    nextNode := node + 1 }
  let q ← q.purgeOldPacketsAtPriorityLevel prioLevel enqueueTime
  let q ← q.updateAverageQueueTime enqueueTime
  let q ← q.enqueue prioLevel ⟨packet, enqueueTime - q.pauseTimeSum, node⟩
  return q.cullStreams enqueueTime

def pop : Option (Option RtpPacketToSend × PrioritizedPacketQueue) :=
  if q.sizePackets = 0 then some (none, q)
  else do
    let top ← q.topActivePrioLevel
    let ssrc ← (q.streamsByPrio top).head?
    let stream ← q.streams.find? ssrc
    let (packet, stream) ← stream.dequeuePacket top
    let q ← (q.setStream ssrc stream).dequeuePacketInternal packet
    let rest := (q.streamsByPrio top).tail
    if stream.hasPacketsAtPrio top then
      return (packet.packet,
        { q with streamsByPrio := Function.update q.streamsByPrio top (rest ++ [ssrc]) })
    else
      let q ← maybeUpdateTopPrioLevel
        { q with streamsByPrio := Function.update q.streamsByPrio top rest }
      return (packet.packet, q)

/-- One turn of the loop of `RemovePacketsForSsrc`. -/
def removeLevel (ssrc : Nat) (packets : Fin 5 → List QueuedPacket) (q : PrioritizedPacketQueue)
    (i : Fin 5) : Option PrioritizedPacketQueue :=
  if packets i = [] then some q
  else do
    let q ← (packets i).foldlM dequeuePacketInternal q
    guard (q.streamsByPrio i ≠ [])
    guard ((q.streamsByPrio i).length = 1 → (q.streamsByPrio i).head? = some ssrc)
    return { q with
      streamsByPrio := Function.update q.streamsByPrio i
        (if (q.streamsByPrio i).length = 1 then (q.streamsByPrio i).tail
         else (q.streamsByPrio i).filter fun other => other ≠ ssrc) }

def removePacketsForSsrc (ssrc : Nat) : Option PrioritizedPacketQueue :=
  match q.streams.find? ssrc with
  | none => q.maybeUpdateTopPrioLevel
  | some stream => do
    let q ← (List.finRange 5).foldlM (removeLevel ssrc stream.packets)
      (q.setStream ssrc stream.dequeueAll)
    q.maybeUpdateTopPrioLevel

end PrioritizedPacketQueue

end WebRtc.Pacing
