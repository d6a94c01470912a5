import WebRtc.Lib.OrdMap
import WebRtc.Video.DecodedFramesHistory

/-! The buffer of received frames (`frame_buffer.cc`). It caches which frames are continuous as they
arrive, and looks for a temporal unit that can be decoded up to the last continuous one. -/

namespace WebRtc.Video

structure EncodedFrame where
  id : Int
  rtpTimestamp : BitVec 32
  references : List Int
  isLastSpatialLayer : Bool
  deriving DecidableEq, Repr

def EncodedFrame.isKeyframe (f : EncodedFrame) : Bool := f.references.isEmpty

def kMaxFrameReferences : Nat := 5

def validReferences (f : EncodedFrame) : Bool :=
  decide ((∀ r ∈ f.references, r < f.id) ∧ f.references.Nodup)

structure FrameInfo where
  encodedFrame : EncodedFrame
  continuous : Bool
  deriving DecidableEq, Repr

def getReferences (f : FrameInfo) : List Int := f.encodedFrame.references.take kMaxFrameReferences

structure TemporalUnit where
  firstFrame : Int
  lastFrame : Int
  deriving DecidableEq, Repr

structure DecodabilityInfo where
  nextRtpTimestamp : BitVec 32
  lastRtpTimestamp : BitVec 32
  deriving DecidableEq, Repr

structure FrameBuffer where
  legacyFrameIdJumpBehavior : Bool
  maxSize : Nat
  frames : OrdMap Int FrameInfo
  nextDecodableTemporalUnit : Option TemporalUnit
  decodableTemporalUnitsInfo : Option DecodabilityInfo
  lastContinuousFrameId : Option Int
  lastContinuousTemporalUnitFrameId : Option Int
  decodedFrameHistory : DecodedFramesHistory
  numContinuousTemporalUnits : Nat
  numDroppedFrames : Nat

abbrev FrameEntry := Int × FrameInfo

namespace FrameBuffer

variable (b : FrameBuffer)

def create (maxSize maxDecodeHistory : Nat) (legacyFrameIdJumpBehavior : Bool) : FrameBuffer :=
  ⟨legacyFrameIdJumpBehavior, maxSize, ∅, none, none, none, none, .create maxDecodeHistory, 0, 0⟩

def clear : FrameBuffer :=
  { b with
    frames := ∅
    nextDecodableTemporalUnit := none
    decodableTemporalUnitsInfo := none
    lastContinuousFrameId := none
    lastContinuousTemporalUnitFrameId := none
    decodedFrameHistory := b.decodedFrameHistory.clear }

def isContinuous (f : FrameInfo) : Bool :=
  (getReferences f).all fun reference =>
    b.decodedFrameHistory.wasDecoded reference || (b.frames.find? reference).any FrameInfo.continuous

def raise (last : Option Int) (id : Int) : Option Int :=
  if last.all fun last => last < id then some id else last

/-- One turn of the loop of `PropagateContinuity`. -/
def propagateTo (b : FrameBuffer) (id : Int) : FrameBuffer :=
  match b.frames.find? id with
  | none => b
  | some f =>
    if f.continuous then b
    else if b.isContinuous f then
      let lastLayer := f.encodedFrame.isLastSpatialLayer
      { b with
        frames := b.frames.upsert id fun _ => { f with continuous := true }
        lastContinuousFrameId := raise b.lastContinuousFrameId id
        numContinuousTemporalUnits := b.numContinuousTemporalUnits + if lastLayer then 1 else 0
        lastContinuousTemporalUnitFrameId :=
          if lastLayer then raise b.lastContinuousTemporalUnitFrameId id
          else b.lastContinuousTemporalUnitFrameId }
    else b

def propagateContinuity (id : Int) : FrameBuffer :=
  ((b.frames.entries.map Prod.fst).filter fun other => decide (id ≤ other)).foldl propagateTo b

def unitDecodable (history : DecodedFramesHistory) (unit : List FrameEntry) : Bool :=
  unit.all fun f => (getReferences f.2).all fun reference =>
    history.wasDecoded reference || (unit.map Prod.fst).contains reference

def joinUnit (unit : List FrameEntry) (f : FrameEntry) : List FrameEntry :=
  match unit with
  | [] => [f]
  | first :: _ =>
    if f.2.encodedFrame.rtpTimestamp ≠ first.2.encodedFrame.rtpTimestamp then [f] else unit ++ [f]

/-- What the loop of `FindNextAndLastDecodableTemporalUnit` found so far: the first unit and the
timestamp of the last one. -/
abbrev Found := Option (TemporalUnit × DecodabilityInfo)

def found (unit : List FrameEntry) (last : FrameEntry) (result : Found) : Found :=
  match unit, result with
  | [], _ => result
  | first :: _, none =>
    some (⟨first.1, last.1⟩, ⟨first.2.encodedFrame.rtpTimestamp, first.2.encodedFrame.rtpTimestamp⟩)
  | first :: _, some (next, info) =>
    some (next, { info with lastRtpTimestamp := first.2.encodedFrame.rtpTimestamp })

def findLoop (history : DecodedFramesHistory) (lastContinuous : Int) :
    List FrameEntry → List FrameEntry → Found → Found
  | [], _, result => result
  | f :: rest, unit, result =>
    if f.1 > lastContinuous then result
    else
      let unit := joinUnit unit f
      findLoop history lastContinuous rest unit
        (if f.2.encodedFrame.isLastSpatialLayer && unitDecodable history unit then
          found unit f result
        else result)

/-- The units that `FindNextAndLastDecodableTemporalUnit` finds. -/
def decodableUnits : Found :=
  match b.lastContinuousTemporalUnitFrameId with
  | none => none
  | some lastContinuous => findLoop b.decodedFrameHistory lastContinuous b.frames.entries [] none

def findNextAndLastDecodableTemporalUnit : FrameBuffer :=
  { b with
    nextDecodableTemporalUnit := b.decodableUnits.map Prod.fst
    decodableTemporalUnitsInfo := b.decodableUnits.map Prod.snd }

/-- The checks at the head of `InsertFrame`, with whether they cleared the buffer; none when the
frame is refused. -/
def acceptDecoded (frame : EncodedFrame) : Option (Bool × FrameBuffer) :=
  match b.decodedFrameHistory.lastDecodedFrame, b.decodedFrameHistory.lastDecodedFrameTimestamp with
  | some last, some timestamp =>
    if frame.id ≤ last then
      if b.legacyFrameIdJumpBehavior && frame.isKeyframe && aheadOf frame.rtpTimestamp timestamp then
        some (true, b.clear)
      else none
    else some (false, b)
  | _, _ => some (false, b)

def acceptSize (frame : EncodedFrame) : Option (Bool × FrameBuffer) :=
  if b.frames.entries.length = b.maxSize then
    if frame.isKeyframe then some (true, b.clear) else none
  else some (false, b)

def accept (frame : EncodedFrame) : Option (Bool × FrameBuffer) := do
  let (cleared, b) ← b.acceptDecoded frame
  let (cleared', b) ← b.acceptSize frame
  return (cleared || cleared', b)

def store (frame : EncodedFrame) : FrameBuffer :=
  (propagateContinuity { b with frames := b.frames.upsert frame.id fun _ => ⟨frame, false⟩ }
    frame.id).findNextAndLastDecodableTemporalUnit

def insertFrame (frame : EncodedFrame) : Bool × FrameBuffer :=
  if !validReferences frame then (false, b)
  else match b.accept frame with
    | none => (false, b)
    | some (_, b) =>
      if (b.frames.find? frame.id).isSome then (false, b) else (true, b.store frame)

def unitFrames (unit : TemporalUnit) : List FrameEntry :=
  b.frames.entries.filter fun f => decide (unit.firstFrame ≤ f.1 ∧ f.1 ≤ unit.lastFrame)

/-- The frames up to the end of the unit are erased; `moved` tells the frames whose data was moved
out before. -/
def eraseUnit (unit : TemporalUnit) (moved : Int → Bool) : FrameBuffer :=
  findNextAndLastDecodableTemporalUnit { b with
    numDroppedFrames := b.numDroppedFrames +
      b.frames.entries.countP fun f => decide (f.1 ≤ unit.lastFrame) && !moved f.1
    frames := b.frames.filterKeys fun id => decide (unit.lastFrame < id) }

def dropNextDecodableTemporalUnit : FrameBuffer :=
  match b.nextDecodableTemporalUnit with
  | none => b
  | some unit => b.eraseUnit unit fun _ => false

def extractNextDecodableTemporalUnit : Option (List EncodedFrame × FrameBuffer) :=
  match b.nextDecodableTemporalUnit with
  | none => some ([], b)
  | some unit => do
    let frames := b.unitFrames unit
    let history ← frames.foldlM
      (fun history f => history.insertDecoded f.1 f.2.encodedFrame.rtpTimestamp)
      b.decodedFrameHistory
    return (frames.map fun f => f.2.encodedFrame,
      eraseUnit { b with decodedFrameHistory := history } unit
        fun id => (frames.map Prod.fst).contains id)

end FrameBuffer

end WebRtc.Video
