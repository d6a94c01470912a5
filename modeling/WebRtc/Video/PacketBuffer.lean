import WebRtc.Lib.Checked
import WebRtc.Numerics.FixedWidth

/-! The buffer of video packets (`packet_buffer.cc`), for packets that are neither H.264 nor H.265. A
slot belongs to the sequence numbers of one remainder; frames are found by following the packets
forward and searching back for the first one. -/

namespace WebRtc.Video

structure Packet where
  /-- The call of `InsertPacket` that brought the packet. -/
  ordinal : Nat
  seqNum : BitVec 16
  timestamp : BitVec 32
  isFirstPacketInFrame : Bool
  isLastPacketInFrame : Bool
  continuous : Bool
  deriving DecidableEq, Repr

/-- An implementation of the set of padding packets. Its order is not one on all sequence numbers,
so nothing is assumed of what it answers. -/
structure PaddingSet (P : Type) where
  empty : P
  insert : P → BitVec 16 → P
  contains : P → BitVec 16 → Bool
  eraseBefore : P → BitVec 16 → P
  eraseRange : P → BitVec 16 → BitVec 16 → P

structure PacketBuffer (P : Type) where
  maxSize : Nat
  firstSeqNum : BitVec 16
  firstPacketReceived : Bool
  isClearedToFirstSeqNum : Bool
  size : Nat
  slots : Nat → Option Packet
  receivedPadding : P

namespace PacketBuffer

variable {P : Type} (ops : PaddingSet P) (b : PacketBuffer P)

def create (startBufferSize maxBufferSize : Nat) : PacketBuffer P :=
  ⟨maxBufferSize, 0, false, false, startBufferSize, fun _ => none, ops.empty⟩

def index (seqNum : BitVec 16) : Nat := seqNum.toNat % b.size

def prevIndex (index : Nat) : Nat := if index > 0 then index - 1 else b.size - 1

def clearInternal : PacketBuffer P :=
  { b with
    slots := fun _ => none
    firstPacketReceived := false
    isClearedToFirstSeqNum := false
    receivedPadding := ops.empty }

def moveEntry (old : Nat → Option Packet) (newSize : Nat) (slots : Nat → Option Packet) (i : Nat) :
    Nat → Option Packet :=
  match old i with
  | none => slots
  | some p => Function.update slots (p.seqNum.toNat % newSize) (some p)

def expandBufferSize : Option (PacketBuffer P) :=
  if b.size = b.maxSize then none
  else
    let newSize := min b.maxSize (2 * b.size)
    some { b with
      size := newSize
      slots := (List.range b.size).foldl (moveEntry b.slots newSize) fun _ => none }

def expandFor (seqNum : BitVec 16) : Nat → PacketBuffer P → PacketBuffer P
  | 0, b => b
  | n + 1, b =>
    match b.expandBufferSize with
    | none => b
    | some b => if (b.slots (b.index seqNum)).isSome then expandFor seqNum n b else b

def potentialNewFrame (seqNum : BitVec 16) : Bool :=
  match b.slots (b.index seqNum) with
  | none => false
  | some entry =>
    if entry.seqNum ≠ seqNum then false
    else if entry.isFirstPacketInFrame then true
    else match b.slots (b.prevIndex (b.index seqNum)) with
      | none => false
      | some prev =>
        decide (prev.seqNum = entry.seqNum - 1) && decide (prev.timestamp = entry.timestamp) &&
          prev.continuous

def searchStart : Nat → Nat → BitVec 16 → Bool × BitVec 16
  | 0, _, startSeqNum => (false, startSeqNum)
  | n + 1, startIndex, startSeqNum =>
    match b.slots startIndex with
    | none => (false, startSeqNum)
    | some p =>
      if p.isFirstPacketInFrame then (true, startSeqNum)
      else if n = 0 then (false, startSeqNum)
      else searchStart n (b.prevIndex startIndex) (startSeqNum - 1)

def takeFrame (startSeqNum seqNum : BitVec 16) :
    Nat → BitVec 16 → PacketBuffer P → Option (List Packet × PacketBuffer P)
  | 0, _, b => some ([], b)
  | n + 1, i, b => do
    let p ← b.slots (b.index i)
    guard (p.seqNum = i)
    let (rest, b) ← takeFrame startSeqNum seqNum n (i + 1)
      { b with slots := Function.update b.slots (b.index i) none }
    return ({ p with
      isFirstPacketInFrame := decide (i = startSeqNum)
      isLastPacketInFrame := decide (i = seqNum) } :: rest, b)

def setContinuous (seqNum : BitVec 16) : PacketBuffer P :=
  { b with
    slots := Function.update b.slots (b.index seqNum)
      ((b.slots (b.index seqNum)).map fun p => { p with continuous := true }) }

def frameAt (start seqNum : BitVec 16) : Option (List Packet × PacketBuffer P) :=
  if (b.slots (b.index seqNum)).any Packet.isLastPacketInFrame then
    let (fullFrameFound, startSeqNum) := b.searchStart b.size (b.index seqNum) seqNum
    if fullFrameFound then
      (takeFrame startSeqNum seqNum (seqNum + 1 - startSeqNum).toNat startSeqNum b).map
        fun (frame, b) =>
          (frame, { b with receivedPadding := ops.eraseRange b.receivedPadding start seqNum })
    else some ([], b)
  else some ([], b)

def findFrames (start : BitVec 16) :
    Nat → BitVec 16 → PacketBuffer P → Option (List Packet × PacketBuffer P)
  | 0, _, b => some ([], b)
  | n + 1, seqNum, b =>
    if ops.contains b.receivedPadding seqNum then findFrames start n (seqNum + 1) b
    else if !b.potentialNewFrame seqNum then some ([], b)
    else do
      let (frame, b) ← (b.setContinuous seqNum).frameAt ops start seqNum
      let (frames, b) ← findFrames start n (seqNum + 1) b
      return (frame ++ frames, b)

/-- The part of `InsertPacket` before the packet is stored; none when the packet is ignored. -/
def updateFirst (seqNum : BitVec 16) : Option (PacketBuffer P) :=
  if !b.firstPacketReceived then
    some { b with firstSeqNum := seqNum, firstPacketReceived := true }
  else if aheadOf b.firstSeqNum seqNum then
    if b.isClearedToFirstSeqNum then none
    else if (forwardDiff b.firstSeqNum seqNum).toNat ≥ b.maxSize then
      some { b.clearInternal ops with firstPacketReceived := true, firstSeqNum := seqNum }
    else some { b with firstSeqNum := seqNum }
  else some b

def store (packet : Packet) : Option (List Packet × PacketBuffer P) :=
  let b : PacketBuffer P := { b with
    slots := Function.update b.slots (b.index packet.seqNum) (some { packet with continuous := false })
    receivedPadding := ops.eraseBefore b.receivedPadding
      (packet.seqNum - BitVec.ofNat 16 (b.size / 4)) }
  findFrames ops packet.seqNum b.size packet.seqNum b

def insertPacket (packet : Packet) : Option (List Packet × PacketBuffer P) :=
  match b.updateFirst ops packet.seqNum with
  | none => some ([], b)
  | some b =>
    match b.slots (b.index packet.seqNum) with
    | none => b.store ops packet
    | some stored =>
      if stored.seqNum = packet.seqNum then some ([], b)
      else
        let b := expandFor packet.seqNum 64 b
        if (b.slots (b.index packet.seqNum)).isSome then some ([], b.clearInternal ops)
        else b.store ops packet

def insertPadding (seqNum : BitVec 16) : Option (List Packet × PacketBuffer P) :=
  let b := { b with receivedPadding := ops.insert b.receivedPadding seqNum }
  findFrames ops (seqNum + 1) b.size (seqNum + 1) b

/-- The loop of `ClearTo` over the slots. -/
def clearSlots (size : Nat) (seqNum : BitVec 16) :
    Nat → BitVec 16 → (Nat → Option Packet) → Nat → Option Packet
  | 0, _, slots => slots
  | n + 1, first, slots =>
    let i := first.toNat % size
    clearSlots size seqNum n (first + 1)
      (if (slots i).any fun stored => aheadOf seqNum stored.seqNum then Function.update slots i none
       else slots)

def clearTo (seqNum : BitVec 16) : PacketBuffer P :=
  if b.isClearedToFirstSeqNum && aheadOf b.firstSeqNum seqNum then b
  else if !b.firstPacketReceived then b
  else
    let seqNum := seqNum + 1
    let diff := (forwardDiff b.firstSeqNum seqNum).toNat
    { b with
      slots := clearSlots b.size seqNum (min diff b.size) b.firstSeqNum b.slots
      firstSeqNum := seqNum
      isClearedToFirstSeqNum := true
      receivedPadding := ops.eraseBefore b.receivedPadding seqNum }

end PacketBuffer

end WebRtc.Video
