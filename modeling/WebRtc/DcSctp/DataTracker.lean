import WebRtc.Lib.IntBlocks
import WebRtc.DcSctp.Types

/-! The receiver's record of seen TSNs (`rx/data_tracker`): a cumulative ack
point, the blocks received beyond it, and when to send a SACK. -/

namespace WebRtc.DcSctp

def kMaxDuplicateTsnReported : Nat := 20
def kMaxGapAckBlocksReported : Nat := 20
def kMaxAcceptedOutstandingFragments : Nat := 100000

abbrev TsnRange := IntBlock

namespace AdditionalTsnBlocks

/-- Expand `it` to the right, merging it with the next block when they become adjacent. -/
def expandRight (it : TsnRange) (tsn : Int) : List TsnRange → List TsnRange
  | [] => [⟨it.first, tsn⟩]
  | next :: rest =>
    if tsn + 1 = next.first then ⟨it.first, next.last⟩ :: rest
    else ⟨it.first, tsn⟩ :: next :: rest

/-- `Add`: the scan is the `lower_bound`, which stops at the first block that
contains or could be extended by `tsn`, or lies above it. -/
def add : List TsnRange → Int → List TsnRange × Bool
  | [], tsn => ([⟨tsn, tsn⟩], true)
  | it :: rest, tsn =>
    if it.last + 1 < tsn then
      let (blocks, added) := add rest tsn
      (it :: blocks, added)
    else if it.first ≤ tsn ∧ tsn ≤ it.last then (it :: rest, false)
    else if it.last + 1 = tsn then (expandRight it tsn rest, true)
    else if it.first = tsn + 1 then (⟨tsn, it.last⟩ :: rest, true)
    else (⟨tsn, tsn⟩ :: it :: rest, true)

def eraseTo : List TsnRange → Int → List TsnRange
  | [], _ => []
  | it :: rest, tsn =>
    if it.last < tsn then eraseTo rest tsn
    else if it.first ≤ tsn then ⟨tsn + 1, it.last⟩ :: rest
    else it :: rest

end AdditionalTsnBlocks

inductive DataTracker.AckState where
  | kIdle
  | kBecomingDelayed
  | kDelayed
  | kImmediate
  deriving DecidableEq, Repr

structure DataTracker where
  seenPacket : Bool
  delayedAckTimerRunning : Bool
  ackState : DataTracker.AckState
  tsnUnwrapper : SeqNumUnwrapper 32
  lastCumulativeAckedTsn : Int
  additionalTsnBlocks : List TsnRange
  duplicateTsns : OrdSet TSN

namespace DataTracker

def new (peerInitialTsn : TSN) : DataTracker :=
  let (last, tsnUnwrapper) := SeqNumUnwrapper.pristine.unwrap (peerInitialTsn - 1)
  { seenPacket := false
    delayedAckTimerRunning := false
    ackState := .kIdle
    tsnUnwrapper := tsnUnwrapper
    lastCumulativeAckedTsn := last
    additionalTsnBlocks := []
    duplicateTsns := ∅ }

def updateAckState (d : DataTracker) (newState : AckState) : DataTracker :=
  if newState = d.ackState then d
  else
    { d with
      ackState := newState
      delayedAckTimerRunning :=
        if d.ackState = .kDelayed then false
        else if newState = .kDelayed then true
        else d.delayedAckTimerRunning }

def isTSNValid (d : DataTracker) (tsn : TSN) : Bool :=
  difference 32 (d.tsnUnwrapper.peekUnwrap tsn) d.lastCumulativeAckedTsn ≤
    kMaxAcceptedOutstandingFragments

def insertDuplicate (d : DataTracker) (tsn : Int) : DataTracker :=
  if d.duplicateTsns.entries.length < kMaxDuplicateTsnReported then
    { d with duplicateTsns := d.duplicateTsns.insert (wrap 32 tsn) }
  else d

/-- Move the cumulative ack point to `tsn`, and past the front block if it now touches it. -/
def advanceTo (d : DataTracker) (tsn : Int) : DataTracker :=
  match d.additionalTsnBlocks with
  | front :: rest =>
    if front.first = tsn + 1 then
      { d with lastCumulativeAckedTsn := front.last, additionalTsnBlocks := rest }
    else { d with lastCumulativeAckedTsn := tsn }
  | [] => { d with lastCumulativeAckedTsn := tsn }

/-- The part of `Observe` that records the TSN; the second component is `is_duplicate`. -/
def observeTsn (d : DataTracker) (tsn : Int) : DataTracker × Bool :=
  if tsn ≤ d.lastCumulativeAckedTsn then
    ((d.insertDuplicate tsn).updateAckState .kImmediate, true)
  else if tsn = d.lastCumulativeAckedTsn + 1 then (d.advanceTo tsn, false)
  else
    let (blocks, inserted) := AdditionalTsnBlocks.add d.additionalTsnBlocks tsn
    let d := { d with additionalTsnBlocks := blocks }
    if inserted then (d, false) else (d.insertDuplicate tsn, true)

def receivedDataWhenIdle (d : DataTracker) : DataTracker :=
  if d.ackState = .kIdle then d.updateAckState .kBecomingDelayed
  else if d.ackState = .kDelayed then d.updateAckState .kImmediate
  else d

/-- The part of `Observe` that decides when to acknowledge. -/
def observeAckState (d : DataTracker) (immediateAck : Bool) : DataTracker :=
  let d := if d.additionalTsnBlocks = [] then d else d.updateAckState .kImmediate
  let d := if immediateAck then d.updateAckState .kImmediate else d
  let d := if d.seenPacket then d else { d with seenPacket := true }.updateAckState .kImmediate
  d.receivedDataWhenIdle

def observe (d : DataTracker) (tsn : TSN) (immediateAck : Bool) : DataTracker × Bool :=
  let (unwrappedTsn, tsnUnwrapper) := d.tsnUnwrapper.unwrap tsn
  let (d, isDuplicate) := { d with tsnUnwrapper := tsnUnwrapper }.observeTsn unwrappedTsn
  (d.observeAckState immediateAck, !isDuplicate)

/-- The part of `HandleForwardTsn` that moves the cumulative ack point. -/
def skipTo (d : DataTracker) (tsn : Int) : DataTracker :=
  { d with
    additionalTsnBlocks := AdditionalTsnBlocks.eraseTo d.additionalTsnBlocks tsn }.advanceTo tsn

def handleForwardTsn (d : DataTracker) (newCumulativeAck : TSN) : DataTracker × Bool :=
  let (unwrappedTsn, tsnUnwrapper) := d.tsnUnwrapper.unwrap newCumulativeAck
  let d := { d with tsnUnwrapper := tsnUnwrapper }
  if unwrappedTsn ≤ d.lastCumulativeAckedTsn then (d.updateAckState .kImmediate, false)
  else ((d.skipTo unwrappedTsn).receivedDataWhenIdle, true)

def createGapAckBlocks (d : DataTracker) : List GapAckBlock :=
  (d.additionalTsnBlocks.take kMaxGapAckBlocksReported).map fun block =>
    { start := BitVec.ofNat 16 (difference 32 block.first d.lastCumulativeAckedTsn)
      «end» := BitVec.ofNat 16 (difference 32 block.last d.lastCumulativeAckedTsn) }

def createSelectiveAck (d : DataTracker) (aRwnd : Nat) : SackChunk × DataTracker :=
  ({ cumulativeTsnAck := wrap 32 d.lastCumulativeAckedTsn
     aRwnd := BitVec.ofNat 32 aRwnd
     gapAckBlocks := d.createGapAckBlocks
     duplicateTsns := d.duplicateTsns.toList },
   { d with duplicateTsns := ∅ })

def shouldSendAck (d : DataTracker) (alsoIfDelayed : Bool) : DataTracker × Bool :=
  if d.ackState = .kImmediate ∨
      (alsoIfDelayed ∧ (d.ackState = .kBecomingDelayed ∨ d.ackState = .kDelayed)) then
    (d.updateAckState .kIdle, true)
  else (d, false)

def isLaterThanCumulativeAckedTsn (d : DataTracker) (tsn : TSN) : Bool :=
  d.lastCumulativeAckedTsn < d.tsnUnwrapper.peekUnwrap tsn

def willIncreaseCumAckTsn (d : DataTracker) (tsn : TSN) : Bool :=
  d.tsnUnwrapper.peekUnwrap tsn = d.lastCumulativeAckedTsn + 1

def forceImmediateSack (d : DataTracker) : DataTracker := { d with ackState := .kImmediate }

def handleDelayedAckTimerExpiry (d : DataTracker) : DataTracker := d.updateAckState .kImmediate

def observePacketEnd (d : DataTracker) : DataTracker :=
  if d.ackState = .kBecomingDelayed then d.updateAckState .kDelayed else d

end DataTracker

end WebRtc.DcSctp
