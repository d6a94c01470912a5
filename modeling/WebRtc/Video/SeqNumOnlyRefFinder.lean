import WebRtc.Lib.Checked
import WebRtc.Numerics.FixedWidth

/-! The finder of frame references that only has sequence numbers
(`rtp_seq_num_only_ref_finder.cc`). Its ordered containers are lists in the order of their
comparator, in which a number comes before those that are ahead of it. -/

namespace WebRtc.Video

def lowerBound {α : Type} (key : α → BitVec 16) (l : List α) (x : BitVec 16) : List α × List α :=
  l.span fun e => aheadOf x (key e)

def upperBound {α : Type} (key : α → BitVec 16) (l : List α) (x : BitVec 16) : List α × List α :=
  l.span fun e => !aheadOf (key e) x

def insertOrdered {α : Type} (key : α → BitVec 16) (l : List α) (a : α) : List α :=
  let (before, after) := lowerBound key l (key a)
  match after with
  | e :: _ => if aheadOf (key e) (key a) then before ++ a :: after else l
  | [] => before ++ [a]

structure SeqFrame where
  /-- The place of the frame in its stream. -/
  index : Nat
  isKey : Bool
  firstSeqNum : BitVec 16
  lastSeqNum : BitVec 16
  deriving DecidableEq

structure HandedFrame where
  index : Nat
  id : Int
  references : List Int
  deriving DecidableEq

structure Gop where
  key : BitVec 16
  lastId : BitVec 16
  withPadding : BitVec 16
  deriving DecidableEq

structure RefFinder where
  lastSeqNumGop : List Gop
  stashedPadding : List (BitVec 16)
  stashedFrames : List SeqFrame
  unwrapper : SeqNumUnwrapper 16

inductive FrameDecision where
  | stash
  | handOff (frame : HandedFrame)
  | drop

namespace RefFinder

def create : RefFinder := ⟨[], [], [], .pristine⟩

def takePadding (withPadding : BitVec 16) : List (BitVec 16) → BitVec 16 × List (BitVec 16)
  | [] => (withPadding, [])
  | p :: ps => if p = withPadding + 1 then takePadding (withPadding + 1) ps else (withPadding, p :: ps)

def updateLastPictureIdWithPadding (r : RefFinder) (seqNum : BitVec 16) : RefFinder :=
  let (before, after) := upperBound Gop.key r.lastSeqNumGop seqNum
  match before.getLast? with
  | none => r
  | some gop =>
    let (earlier, later) := lowerBound id r.stashedPadding (gop.withPadding + 1)
    let (withPadding, padding) := takePadding gop.withPadding later
    let gop' := { gop with withPadding := withPadding }
    { r with
      stashedPadding := earlier ++ padding
      lastSeqNumGop :=
        if (forwardDiff gop.key seqNum).toNat > 10000 then [{ gop' with key := seqNum }]
        else before.dropLast ++ gop' :: after }

def cleanGops (gops : List Gop) (lastSeqNum : BitVec 16) : List Gop :=
  gops.drop (min (lowerBound Gop.key gops (lastSeqNum - 100)).1.length (gops.length - 1))

/-- The part of `ManageFrameInternal` after the group of a frame was found. -/
def handOff (r : RefFinder) (frame : SeqFrame) (before after : List Gop) (gop : Gop) :
    Option (FrameDecision × RefFinder) := do
  guard (aheadOrAt frame.lastSeqNum gop.key)
  let (reference, unwrapper) := r.unwrapper.unwrap gop.lastId
  let gop' := if aheadOf frame.lastSeqNum gop.lastId then
    { gop with lastId := frame.lastSeqNum, withPadding := frame.lastSeqNum } else gop
  let r := { r with unwrapper, lastSeqNumGop := before ++ gop' :: after }
  let r := r.updateLastPictureIdWithPadding frame.lastSeqNum
  let (id, unwrapper) := r.unwrapper.unwrap frame.lastSeqNum
  return (.handOff ⟨frame.index, id, if frame.isKey then [] else [reference]⟩, { r with unwrapper })

def manageFrameInternal (r : RefFinder) (frame : SeqFrame) : Option (FrameDecision × RefFinder) :=
  let gops := if frame.isKey then
    insertOrdered Gop.key r.lastSeqNumGop ⟨frame.lastSeqNum, frame.lastSeqNum, frame.lastSeqNum⟩
    else r.lastSeqNumGop
  let r := { r with lastSeqNumGop := gops }
  if gops = [] then some (.stash, r)
  else
    let gops := cleanGops gops frame.lastSeqNum
    let r := { r with lastSeqNumGop := gops }
    let (before, after) := upperBound Gop.key gops frame.lastSeqNum
    match before.getLast? with
    | none => some (.drop, r)
    | some gop =>
      if !frame.isKey && decide (frame.firstSeqNum - 1 ≠ gop.withPadding) then some (.stash, r)
      else r.handOff frame before.dropLast after gop

/-- A pass of `RetryStashedFrames`: the frames that are handed off, and those that stay. -/
def retryPass : List SeqFrame → RefFinder → Option (List HandedFrame × List SeqFrame × RefFinder)
  | [], r => some ([], [], r)
  | frame :: frames, r => do
    let (decision, r) ← r.manageFrameInternal frame
    let (handed, kept, r) ← retryPass frames r
    match decision with
    | .stash => return (handed, frame :: kept, r)
    | .handOff h => return (h :: handed, kept, r)
    | .drop => return (handed, kept, r)

def retryLoop : Nat → RefFinder → Option (List HandedFrame × RefFinder)
  | 0, r => some ([], r)
  | n + 1, r => do
    let (handed, kept, r) ← retryPass r.stashedFrames r
    let r := { r with stashedFrames := kept }
    if handed = [] then return ([], r)
    else
      let (more, r) ← retryLoop n r
      return (handed ++ more, r)

def retryStashedFrames (r : RefFinder) : Option (List HandedFrame × RefFinder) :=
  retryLoop (r.stashedFrames.length + 1) r

def manageFrame (r : RefFinder) (frame : SeqFrame) : Option (List HandedFrame × RefFinder) := do
  let (decision, r) ← r.manageFrameInternal frame
  match decision with
  | .stash =>
    let stashed := if r.stashedFrames.length > 100 then r.stashedFrames.dropLast else r.stashedFrames
    return ([], { r with stashedFrames := frame :: stashed })
  | .handOff h =>
    let (handed, r) ← r.retryStashedFrames
    return (h :: handed, r)
  | .drop => return ([], r)

def paddingReceived (r : RefFinder) (seqNum : BitVec 16) : Option (List HandedFrame × RefFinder) :=
  let padding := insertOrdered id (lowerBound id r.stashedPadding (seqNum - 100)).2 seqNum
  let r := { r with stashedPadding := padding }
  (r.updateLastPictureIdWithPadding seqNum).retryStashedFrames

end RefFinder

end WebRtc.Video
