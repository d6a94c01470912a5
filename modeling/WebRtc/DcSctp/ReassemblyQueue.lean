import WebRtc.DcSctp.TraditionalReassemblyStreams
import WebRtc.DcSctp.InterleavedReassemblyStreams

/-! The receiver's reassembly queue (`rx/reassembly_queue`): the streams, the messages ready for
delivery, and the actions held back during a deferred stream reset. -/

namespace WebRtc.DcSctp

/-- A number rounded to the 24 significant bits of a `float`, ties to even. -/
def roundToFloat (n : Nat) : Nat :=
  let unit := 2 ^ (n.log2 - 23)
  let (q, r) := (n / unit, n % unit)
  if unit < 2 * r ∨ (2 * r = unit ∧ q % 2 = 1) then (q + 1) * unit else q * unit

/-- `max_size_bytes * 0.9f`, where the `float` nearest to 0.9 is `15099494 / 2 ^ 24`. -/
def highWatermark (maxSizeBytes : Nat) : Nat :=
  roundToFloat (roundToFloat maxSizeBytes * 15099494) / 2 ^ 24

inductive ReassemblyStreams where
  | traditional (streams : TraditionalReassemblyStreams)
  | interleaved (streams : InterleavedReassemblyStreams)

namespace ReassemblyStreams

def new (useMessageInterleaving : Bool) : ReassemblyStreams :=
  if useMessageInterleaving then .interleaved .new else .traditional .new

def add (tsn : Int) (data : Data) : ReassemblyStreams → ReassemblyStreams × List Assembled × Int
  | .traditional r => let (r, messages, bytes) := r.add tsn data; (.traditional r, messages, bytes)
  | .interleaved r => let (r, messages, bytes) := r.add tsn data; (.interleaved r, messages, bytes)

def handleForwardTsn (tsn : Int) (skippedStreams : List SkippedStream) :
    ReassemblyStreams → ReassemblyStreams × List Assembled × Nat
  | .traditional r =>
    let (r, messages, bytes) := r.handleForwardTsn tsn skippedStreams
    (.traditional r, messages, bytes)
  | .interleaved r =>
    let (r, messages, bytes) := r.handleForwardTsn skippedStreams
    (.interleaved r, messages, bytes)

def resetStreams (streamIds : List StreamID) : ReassemblyStreams → ReassemblyStreams
  | .traditional r => .traditional (r.resetStreams streamIds)
  | .interleaved r => .interleaved (r.resetStreams streamIds)

end ReassemblyStreams

inductive DeferredAction where
  | add (tsn : TSN) (data : Data)
  | handleForwardTsn (newCumulativeTsn : TSN) (skippedStreams : List SkippedStream)

structure DeferredResetStreams where
  senderLastAssignedTsn : Int
  streams : List StreamID
  deferredActions : List DeferredAction

structure ReassemblyQueue where
  maxSizeBytes : Nat
  watermarkBytes : Nat
  tsnUnwrapper : SeqNumUnwrapper 32
  reassembledMessages : List Assembled
  deferredResetStreams : Option DeferredResetStreams
  queuedBytes : Nat
  streams : ReassemblyStreams

namespace ReassemblyQueue

def new (maxSizeBytes : Nat) (useMessageInterleaving : Bool) : ReassemblyQueue :=
  { maxSizeBytes
    watermarkBytes := highWatermark maxSizeBytes
    tsnUnwrapper := .pristine
    reassembledMessages := []
    deferredResetStreams := none
    queuedBytes := 0
    streams := .new useMessageInterleaving }

/-- The part of `Add` that hands the chunk to its stream. -/
def addToStreams (q : ReassemblyQueue) (tsn : Int) (data : Data) : ReassemblyQueue :=
  let (streams, messages, bytes) := q.streams.add tsn data
  { q with
    streams := streams
    reassembledMessages := q.reassembledMessages ++ messages
    queuedBytes := toSizeT (q.queuedBytes + bytes) }

def add (q : ReassemblyQueue) (tsn : TSN) (data : Data) : ReassemblyQueue :=
  let (unwrappedTsn, tsnUnwrapper) := q.tsnUnwrapper.unwrap tsn
  let q := { q with tsnUnwrapper := tsnUnwrapper }
  match q.deferredResetStreams with
  | none => q.addToStreams unwrappedTsn data
  | some deferred =>
    if deferred.senderLastAssignedTsn < unwrappedTsn ∧ data.streamId ∈ deferred.streams then
      { q with
        queuedBytes := toSizeT (q.queuedBytes + data.size)
        deferredResetStreams := some { deferred with
          deferredActions := deferred.deferredActions ++ [.add tsn data] } }
    else q.addToStreams unwrappedTsn data

def forwardStreams (q : ReassemblyQueue) (tsn : Int) (skippedStreams : List SkippedStream) :
    ReassemblyQueue :=
  let (streams, messages, bytes) := q.streams.handleForwardTsn tsn skippedStreams
  { q with
    streams := streams
    reassembledMessages := q.reassembledMessages ++ messages
    queuedBytes := toSizeT (q.queuedBytes - bytes) }

def handleForwardTsn (q : ReassemblyQueue) (newCumulativeTsn : TSN)
    (skippedStreams : List SkippedStream) : ReassemblyQueue :=
  let (tsn, tsnUnwrapper) := q.tsnUnwrapper.unwrap newCumulativeTsn
  let q := { q with tsnUnwrapper := tsnUnwrapper }
  match q.deferredResetStreams with
  | none => q.forwardStreams tsn skippedStreams
  | some deferred =>
    if deferred.senderLastAssignedTsn < tsn then
      { q with deferredResetStreams := some { deferred with
          deferredActions :=
            deferred.deferredActions ++ [.handleForwardTsn newCumulativeTsn skippedStreams] } }
    else q.forwardStreams tsn skippedStreams

def performAction (q : ReassemblyQueue) : DeferredAction → ReassemblyQueue
  | .add tsn data => { q with queuedBytes := toSizeT (q.queuedBytes - data.size) }.add tsn data
  | .handleForwardTsn newCumulativeTsn skippedStreams =>
    q.handleForwardTsn newCumulativeTsn skippedStreams

def resetStreamsAndLeaveDeferredReset (q : ReassemblyQueue) (streamIds : List StreamID) :
    ReassemblyQueue :=
  let q := { q with streams := q.streams.resetStreams streamIds }
  match q.deferredResetStreams with
  | none => q
  | some deferred =>
    deferred.deferredActions.foldl performAction { q with deferredResetStreams := none }

def enterDeferredReset (q : ReassemblyQueue) (senderLastAssignedTsn : TSN)
    (streams : List StreamID) : ReassemblyQueue :=
  match q.deferredResetStreams with
  | some _ => q
  | none =>
    let (tsn, tsnUnwrapper) := q.tsnUnwrapper.unwrap senderLastAssignedTsn
    { q with
      tsnUnwrapper := tsnUnwrapper
      deferredResetStreams := some ⟨tsn, streams, []⟩ }

def flushMessages (q : ReassemblyQueue) : List Assembled × ReassemblyQueue :=
  (q.reassembledMessages, { q with reassembledMessages := [] })

def remainingBytes (q : ReassemblyQueue) : Nat := toSizeT (q.watermarkBytes - q.queuedBytes)

def isFull (q : ReassemblyQueue) : Bool := q.maxSizeBytes ≤ q.queuedBytes

def isAboveWatermark (q : ReassemblyQueue) : Bool := q.watermarkBytes ≤ q.queuedBytes

def hasMessages (q : ReassemblyQueue) : Bool := !q.reassembledMessages.isEmpty

end ReassemblyQueue

end WebRtc.DcSctp
