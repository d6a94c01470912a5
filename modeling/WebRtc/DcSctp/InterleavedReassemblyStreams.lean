import WebRtc.DcSctp.ReassemblyStreams

/-! Reassembly of I-DATA chunks (`rx/interleaved_reassembly_streams`): fragments are joined by
FSN within a MID, and ordered messages are delivered by MID. The streams are kept by orderedness
and stream identifier; the comparison of `FullStreamId` in the source is not an order on pairs that
differ in both. -/

namespace WebRtc.DcSctp

structure FullStreamId where
  unordered : Bool
  streamId : StreamID
  deriving DecidableEq, Repr

instance : LinearOrder FullStreamId :=
  LinearOrder.lift' (fun s => toLex (s.unordered, s.streamId)) fun s t h => by
    cases s
    cases t
    simpa using h

abbrev FragmentMap := OrdMap FSN (Int × Data)

def FragmentMap.bytes (chunks : FragmentMap) : Nat := chunks.sumBy fun c => c.2.size

structure InterleavedStream where
  streamId : FullStreamId
  chunksByMid : OrdMap Int FragmentMap
  midUnwrapper : SeqNumUnwrapper 32
  nextMid : Int

namespace InterleavedStream

def new (streamId : FullStreamId) : InterleavedStream :=
  let (nextMid, midUnwrapper) := SeqNumUnwrapper.pristine.unwrap (0 : MID)
  ⟨streamId, ∅, midUnwrapper, nextMid⟩

def reset (s : InterleavedStream) : InterleavedStream :=
  { new s.streamId with chunksByMid := s.chunksByMid }

def isComplete (chunks : FragmentMap) : Bool :=
  match chunks.entries.head?, chunks.entries.getLast? with
  | some first, some last =>
    first.2.2.isBeginning && last.2.2.isEnd &&
      (last.1 - first.1).toNat = chunks.entries.length - 1
  | _, _ => false

def tryToAssembleMessage (s : InterleavedStream) (mid : Int) :
    InterleavedStream × List Assembled × Nat :=
  match s.chunksByMid.find? mid with
  | none => (s, [], 0)
  | some chunks =>
    if !isComplete chunks then (s, [], 0)
    else
      ({ s with chunksByMid := s.chunksByMid.erase mid },
        assembleMessage (chunks.entries.map Prod.snd), assembledBytes (chunks.entries.map Prod.snd))

/-- The loop of `TryToAssembleMessages`, for at most as many rounds as there are messages. -/
def assembleLoop : Nat → InterleavedStream → InterleavedStream × List Assembled × Nat
  | 0, s => (s, [], 0)
  | rounds + 1, s =>
    let (s, messages, bytes) := s.tryToAssembleMessage s.nextMid
    if bytes = 0 then (s, messages, 0)
    else
      let (s, messages', bytes') := assembleLoop rounds { s with nextMid := s.nextMid + 1 }
      (s, messages ++ messages', toSizeT (bytes + bytes'))

def tryToAssembleMessages (s : InterleavedStream) : InterleavedStream × List Assembled × Nat :=
  assembleLoop s.chunksByMid.entries.length s

/-- `chunks_by_mid_[mid].emplace(fsn, (tsn, data))` -/
def emplace (s : InterleavedStream) (mid tsn : Int) (data : Data) : InterleavedStream × Bool :=
  let chunks := (s.chunksByMid.find? mid).getD ∅
  match chunks.find? data.fsn with
  | some _ => (s, false)
  | none =>
    ({ s with chunksByMid := s.chunksByMid.upsert mid fun _ =>
        chunks.upsert data.fsn fun _ => (tsn, data) }, true)

/-- The part of `Add` after a new fragment was inserted. -/
def assembleAfterAdd (s : InterleavedStream) (mid queuedBytes : Int) :
    InterleavedStream × List Assembled × Int :=
  if s.streamId.unordered then
    let (s, messages, bytes) := s.tryToAssembleMessage mid
    (s, messages, toInt32 (toSizeT queuedBytes - bytes))
  else if mid = s.nextMid then
    let (s, messages, bytes) := s.tryToAssembleMessages
    (s, messages, toInt32 (toSizeT queuedBytes - bytes))
  else (s, [], queuedBytes)

def add (s : InterleavedStream) (tsn : Int) (data : Data) :
    InterleavedStream × List Assembled × Int :=
  let queuedBytes := toInt32 data.size
  let (mid, midUnwrapper) := s.midUnwrapper.unwrap data.mid
  let (s, inserted) := { s with midUnwrapper := midUnwrapper }.emplace mid tsn data
  if !inserted then (s, [], 0) else s.assembleAfterAdd mid queuedBytes

def eraseTo (s : InterleavedStream) (mid : MID) : InterleavedStream × List Assembled × Nat :=
  let (unwrappedMid, midUnwrapper) := s.midUnwrapper.unwrap mid
  let erased := s.chunksByMid.filterKeys fun n => n ≤ unwrappedMid
  let removedBytes := toSizeT ((erased.entries.map fun c =>
    toSizeT (accumulateInt (c.2.entries.map fun d => d.2.2.size))).sum : Nat)
  let s := { s with
    midUnwrapper := midUnwrapper
    chunksByMid := s.chunksByMid.filterKeys fun n => !(n ≤ unwrappedMid) }
  if s.streamId.unordered then (s, [], removedBytes)
  else
    let s := { s with nextMid := if s.nextMid ≤ unwrappedMid then unwrappedMid + 1 else s.nextMid }
    let (s, messages, bytes) := s.tryToAssembleMessages
    (s, messages, toSizeT (removedBytes + bytes))

variable (s : InterleavedStream)

theorem tryToAssembleMessage_streamId (mid : Int) :
    (s.tryToAssembleMessage mid).1.streamId = s.streamId := by
  simp only [tryToAssembleMessage]
  split
  · rfl
  · split_ifs <;> rfl

theorem assembleLoop_streamId (rounds : Nat) (s : InterleavedStream) :
    (assembleLoop rounds s).1.streamId = s.streamId := by
  induction rounds generalizing s with
  | zero => rfl
  | succ rounds ih =>
    have hs := s.tryToAssembleMessage_streamId s.nextMid
    simp only [assembleLoop]
    split_ifs
    · exact hs
    · exact (ih _).trans hs

theorem emplace_streamId (mid tsn : Int) (data : Data) :
    (s.emplace mid tsn data).1.streamId = s.streamId := by
  simp only [emplace]
  split <;> rfl

theorem assembleAfterAdd_streamId (mid queuedBytes : Int) :
    (s.assembleAfterAdd mid queuedBytes).1.streamId = s.streamId := by
  simp only [assembleAfterAdd]
  split_ifs
  · exact tryToAssembleMessage_streamId s mid
  · exact assembleLoop_streamId _ s
  · rfl

theorem add_streamId (tsn : Int) (data : Data) : (s.add tsn data).1.streamId = s.streamId := by
  simp only [add]
  split_ifs
  · exact emplace_streamId _ _ _ _
  · exact (assembleAfterAdd_streamId _ _ _).trans (emplace_streamId _ _ _ _)

theorem eraseTo_streamId (mid : MID) : (s.eraseTo mid).1.streamId = s.streamId := by
  by_cases h : s.streamId.unordered
  · simp only [eraseTo, if_pos h]
  · simp only [eraseTo, if_neg h]
    exact assembleLoop_streamId _ _

end InterleavedStream

structure InterleavedReassemblyStreams where
  streams : OrdMap FullStreamId InterleavedStream
  streamId_eq : ∀ id stream, streams.find? id = some stream → stream.streamId = id

namespace InterleavedReassemblyStreams

def new : InterleavedReassemblyStreams := ⟨∅, by simp⟩

def getOrCreateStream (r : InterleavedReassemblyStreams) (streamId : FullStreamId) :
    InterleavedStream :=
  (r.streams.find? streamId).getD (.new streamId)

def setStream (r : InterleavedReassemblyStreams) (stream : InterleavedStream) :
    InterleavedReassemblyStreams where
  streams := r.streams.upsert stream.streamId fun _ => stream
  streamId_eq id s h := by
    rw [OrdMap.find?_upsert] at h
    split_ifs at h with hid
    · cases h
      exact hid.symm
    · exact r.streamId_eq id s h

variable (r : InterleavedReassemblyStreams)

theorem getOrCreateStream_streamId (id : FullStreamId) :
    (r.getOrCreateStream id).streamId = id := by
  simp only [getOrCreateStream]
  cases h : r.streams.find? id with
  | none => rfl
  | some stream => exact r.streamId_eq id stream h

theorem getOrCreateStream_setStream (stream : InterleavedStream) (id : FullStreamId) :
    (r.setStream stream).getOrCreateStream id =
      if id = stream.streamId then stream else r.getOrCreateStream id := by
  simp only [getOrCreateStream, setStream, OrdMap.find?_upsert]
  split_ifs <;> rfl

def add (r : InterleavedReassemblyStreams) (tsn : Int) (data : Data) :
    InterleavedReassemblyStreams × List Assembled × Int :=
  let (stream, messages, bytes) :=
    (r.getOrCreateStream ⟨data.isUnordered, data.streamId⟩).add tsn data
  (r.setStream stream, messages, bytes)

def eraseSkipped (s : InterleavedReassemblyStreams × List Assembled × Nat) (skipped : SkippedStream) :
    InterleavedReassemblyStreams × List Assembled × Nat :=
  let (stream, messages, bytes) :=
    (s.1.getOrCreateStream ⟨skipped.unordered, skipped.streamId⟩).eraseTo skipped.mid
  (s.1.setStream stream, s.2.1 ++ messages, toSizeT (s.2.2 + bytes))

def handleForwardTsn (r : InterleavedReassemblyStreams) (skippedStreams : List SkippedStream) :
    InterleavedReassemblyStreams × List Assembled × Nat :=
  skippedStreams.foldl eraseSkipped (r, [], 0)

def resetStream (r : InterleavedReassemblyStreams) (streamId : FullStreamId) :
    InterleavedReassemblyStreams :=
  r.setStream (r.getOrCreateStream streamId).reset

def resetAll (r : InterleavedReassemblyStreams) : InterleavedReassemblyStreams where
  streams := r.streams.mapValues fun _ stream => stream.reset
  streamId_eq id s h := by
    rw [OrdMap.find?_mapValues] at h
    obtain ⟨stream, hs, rfl⟩ := Option.map_eq_some_iff.mp h
    exact r.streamId_eq id stream hs

def resetStreams (r : InterleavedReassemblyStreams) (streamIds : List StreamID) :
    InterleavedReassemblyStreams :=
  if streamIds.isEmpty then r.resetAll
  else streamIds.foldl (fun r id => (r.resetStream ⟨true, id⟩).resetStream ⟨false, id⟩) r

end InterleavedReassemblyStreams

end WebRtc.DcSctp
