import WebRtc.DcSctp.ReassemblyStreams

/-! Reassembly of DATA chunks (`rx/traditional_reassembly_streams`): fragments are joined by TSN,
and ordered messages are delivered by SSN. -/

namespace WebRtc.DcSctp

abbrev ChunkMap := OrdMap Int Data

def ChunkMap.bytes (chunks : ChunkMap) : Nat := chunks.sumBy Data.size

/-- `emplace`: nothing happens when the key is present. -/
def ChunkMap.emplace (chunks : ChunkMap) (tsn : Int) (data : Data) : ChunkMap × Bool :=
  match chunks.find? tsn with
  | some _ => (chunks, false)
  | none => (chunks.upsert tsn fun _ => data, true)

structure UnorderedStream where
  chunks : ChunkMap

namespace UnorderedStream

def new : UnorderedStream := ⟨∅⟩

/-- The chunks from the beginning of the message to the first one given. The argument lists the
chunks at and before the iterator, last first. -/
def findBeginning : List (Int × Data) → Option (List (Int × Data))
  | [] => none
  | iter :: before =>
    if iter.2.isBeginning then some [iter]
    else
      match before with
      | [] => none
      | prev :: _ =>
        if prev.1 + 1 ≠ iter.1 then none
        else (findBeginning before).map (· ++ [iter])

def findEnd : List (Int × Data) → Option (List (Int × Data))
  | [] => none
  | iter :: after =>
    if iter.2.isEnd then some [iter]
    else
      match after with
      | [] => none
      | next :: _ =>
        if next.1 ≠ iter.1 + 1 then none
        else (findEnd after).map (iter :: ·)

def findMessage (chunks : ChunkMap) (tsn : Int) : Option (List (Int × Data)) := do
  let start ← findBeginning (chunks.entries.filter fun c => c.1 ≤ tsn).reverse
  let rest ← findEnd (chunks.entries.filter fun c => tsn ≤ c.1)
  some (start ++ rest.tail)

def tryToAssembleMessage (s : UnorderedStream) (tsn : Int) :
    UnorderedStream × List Assembled × Nat :=
  match findMessage s.chunks tsn with
  | none => (s, [], 0)
  | some message =>
    (⟨s.chunks.filterKeys fun t => !(message.map Prod.fst).contains t⟩, assembleMessage message,
      assembledBytes message)

def add (s : UnorderedStream) (tsn : Int) (data : Data) : UnorderedStream × List Assembled × Int :=
  if data.isBeginning && data.isEnd then (s, assembleMessage [(tsn, data)], 0)
  else
    let queuedBytes := toInt32 data.size
    let (chunks, inserted) := s.chunks.emplace tsn data
    if !inserted then (s, [], 0)
    else
      let (s, messages, assembled) := tryToAssembleMessage ⟨chunks⟩ tsn
      (s, messages, toInt32 (toSizeT queuedBytes - assembled))

def eraseTo (s : UnorderedStream) (tsn : Int) : UnorderedStream × Nat :=
  let erased := s.chunks.filterKeys fun t => t ≤ tsn
  (⟨s.chunks.filterKeys fun t => !(t ≤ tsn)⟩,
    toSizeT (accumulateInt (erased.entries.map fun c => c.2.size)))

end UnorderedStream

structure OrderedStream where
  chunksBySsn : OrdMap Int ChunkMap
  ssnUnwrapper : SeqNumUnwrapper 16
  nextSsn : Int

namespace OrderedStream

def new : OrderedStream :=
  let (nextSsn, ssnUnwrapper) := SeqNumUnwrapper.pristine.unwrap (0 : SSN)
  ⟨∅, ssnUnwrapper, nextSsn⟩

def reset (s : OrderedStream) : OrderedStream := { new with chunksBySsn := s.chunksBySsn }

def isComplete (chunks : ChunkMap) : Bool :=
  match chunks.entries.head?, chunks.entries.getLast? with
  | some first, some last =>
    first.2.isBeginning && last.2.isEnd && difference 32 last.1 first.1 = chunks.entries.length - 1
  | _, _ => false

def tryToAssembleMessage (s : OrderedStream) : OrderedStream × List Assembled × Nat :=
  match s.chunksBySsn.entries with
  | [] => (s, [], 0)
  | (ssn, chunks) :: _ =>
    if ssn ≠ s.nextSsn then (s, [], 0)
    else if !isComplete chunks then (s, [], 0)
    else
      ({ s with chunksBySsn := s.chunksBySsn.erase ssn, nextSsn := s.nextSsn + 1 },
        assembleMessage chunks.entries, assembledBytes chunks.entries)

/-- The loop of `TryToAssembleMessages`, for at most as many rounds as there are messages. It ends
when no bytes were assembled. -/
def assembleLoop : Nat → OrderedStream → OrderedStream × List Assembled × Nat
  | 0, s => (s, [], 0)
  | rounds + 1, s =>
    let (s, messages, bytes) := s.tryToAssembleMessage
    if bytes = 0 then (s, messages, 0)
    else
      let (s, messages', bytes') := assembleLoop rounds s
      (s, messages ++ messages', toSizeT (bytes + bytes'))

def tryToAssembleMessages (s : OrderedStream) : OrderedStream × List Assembled × Nat :=
  assembleLoop s.chunksBySsn.entries.length s

/-- `chunks_by_ssn_[ssn].emplace(tsn, data)` -/
def emplace (s : OrderedStream) (ssn tsn : Int) (data : Data) : OrderedStream × Bool :=
  let (chunks, inserted) := ((s.chunksBySsn.find? ssn).getD ∅).emplace tsn data
  ({ s with chunksBySsn := s.chunksBySsn.upsert ssn fun _ => chunks }, inserted)

def tryToAssembleMessagesFastpath (s : OrderedStream) (ssn tsn : Int) (data : Data) :
    OrderedStream × List Assembled × Nat :=
  if data.isBeginning && data.isEnd then
    let (s, messages, bytes) := { s with nextSsn := s.nextSsn + 1 }.tryToAssembleMessages
    (s, assembleMessage [(tsn, data)] ++ messages, toSizeT (data.size + bytes))
  else
    let (s, inserted) := s.emplace ssn tsn data
    if !inserted then (s, [], data.size) else s.tryToAssembleMessages

def add (s : OrderedStream) (tsn : Int) (data : Data) : OrderedStream × List Assembled × Int :=
  let queuedBytes := toInt32 data.size
  let (ssn, ssnUnwrapper) := s.ssnUnwrapper.unwrap data.ssn
  let s := { s with ssnUnwrapper := ssnUnwrapper }
  if ssn = s.nextSsn then
    let (s, messages, bytes) := s.tryToAssembleMessagesFastpath ssn tsn data
    (s, messages, toInt32 (toSizeT queuedBytes - bytes))
  else
    let (s, inserted) := s.emplace ssn tsn data
    (s, [], if inserted then queuedBytes else 0)

def eraseTo (s : OrderedStream) (ssn : SSN) : OrderedStream × List Assembled × Nat :=
  let (unwrappedSsn, ssnUnwrapper) := s.ssnUnwrapper.unwrap ssn
  let erased := s.chunksBySsn.filterKeys fun n => n ≤ unwrappedSsn
  let removedBytes := toSizeT (accumulateInt (erased.entries.map fun c =>
    toSizeT (accumulateInt (c.2.entries.map fun d => d.2.size))))
  let s := { s with
    ssnUnwrapper := ssnUnwrapper
    chunksBySsn := s.chunksBySsn.filterKeys fun n => !(n ≤ unwrappedSsn)
    nextSsn := if s.nextSsn ≤ unwrappedSsn then unwrappedSsn + 1 else s.nextSsn }
  let (s, messages, bytes) := s.tryToAssembleMessages
  (s, messages, toSizeT (removedBytes + bytes))

end OrderedStream

structure TraditionalReassemblyStreams where
  unorderedStreams : OrdMap StreamID UnorderedStream
  orderedStreams : OrdMap StreamID OrderedStream

namespace TraditionalReassemblyStreams

def new : TraditionalReassemblyStreams := ⟨∅, ∅⟩

def unorderedStream (r : TraditionalReassemblyStreams) (streamId : StreamID) : UnorderedStream :=
  (r.unorderedStreams.find? streamId).getD .new

def orderedStream (r : TraditionalReassemblyStreams) (streamId : StreamID) : OrderedStream :=
  (r.orderedStreams.find? streamId).getD .new

def add (r : TraditionalReassemblyStreams) (tsn : Int) (data : Data) :
    TraditionalReassemblyStreams × List Assembled × Int :=
  if data.isUnordered then
    let (stream, messages, bytes) := (r.unorderedStream data.streamId).add tsn data
    ({ r with unorderedStreams := r.unorderedStreams.upsert data.streamId fun _ => stream },
      messages, bytes)
  else
    let (stream, messages, bytes) := (r.orderedStream data.streamId).add tsn data
    ({ r with orderedStreams := r.orderedStreams.upsert data.streamId fun _ => stream },
      messages, bytes)

def eraseUnordered (r : TraditionalReassemblyStreams) (newCumulativeAckTsn : Int) :
    TraditionalReassemblyStreams × Nat :=
  ({ r with unorderedStreams :=
      r.unorderedStreams.mapValues fun _ stream => (stream.eraseTo newCumulativeAckTsn).1 },
    toSizeT (r.unorderedStreams.sumBy fun stream => (stream.eraseTo newCumulativeAckTsn).2))

def eraseOrdered (s : TraditionalReassemblyStreams × List Assembled × Nat) (skipped : SkippedStream) :
    TraditionalReassemblyStreams × List Assembled × Nat :=
  let (stream, messages, bytes) := (s.1.orderedStream skipped.streamId).eraseTo skipped.ssn
  ({ s.1 with orderedStreams := s.1.orderedStreams.upsert skipped.streamId fun _ => stream },
    s.2.1 ++ messages, toSizeT (s.2.2 + bytes))

def handleForwardTsn (r : TraditionalReassemblyStreams) (newCumulativeAckTsn : Int)
    (skippedStreams : List SkippedStream) : TraditionalReassemblyStreams × List Assembled × Nat :=
  let (r, bytes) := r.eraseUnordered newCumulativeAckTsn
  skippedStreams.foldl eraseOrdered (r, [], bytes)

def resetStreams (r : TraditionalReassemblyStreams) (streamIds : List StreamID) :
    TraditionalReassemblyStreams :=
  { r with orderedStreams := r.orderedStreams.mapValues fun streamId stream =>
      if streamIds.isEmpty || streamIds.contains streamId then stream.reset else stream }

end TraditionalReassemblyStreams

end WebRtc.DcSctp
