import WebRtc.Lib.ByteBuffer

/-! RTP packets (`rtp_packet.cc`, `rtp_header_extension_map.h`, `copy_on_write_buffer.cc`). A packet
keeps its header fields and the places of its extensions next to the buffer they are written to.
A failed check and an access outside the buffer leave a call without a result. -/

namespace WebRtc.Rtp

open ByteBuffer

/-- The memory a packet may write to, of which the first `size` bytes are in use. -/
structure CopyOnWriteBuffer where
  memory : List UInt8
  size : Nat

namespace CopyOnWriteBuffer

variable (b : CopyOnWriteBuffer)

def capacity : Nat := b.memory.length

/-- Just the used bytes survive a move to larger memory; the others are not specified. -/
def setSize (size : Nat) : CopyOnWriteBuffer :=
  if size ≤ b.capacity then { b with size }
  else { memory := b.memory.take b.size ++ List.replicate (size - b.size) 0, size }

def writeAt (offset : Nat) (bytes : List UInt8) : Option CopyOnWriteBuffer :=
  (write b.memory offset bytes).map fun memory => { b with memory }

def readAt (offset length : Nat) : Option (List UInt8) :=
  if offset + length ≤ b.capacity then some ((b.memory.drop offset).take length) else none

def byteAt (i : Nat) : UInt8 := b.memory.getD i 0

end CopyOnWriteBuffer

inductive RTPExtensionType
  | transmissionTimeOffset
  | audioLevel
  | csrcAudioLevel
  | inbandComfortNoise
  | absoluteSendTime
  | absoluteCaptureTime
  | videoRotation
  | transportSequenceNumber
  | transportSequenceNumber02
  | playoutDelay
  | videoContentType
  | videoLayersAllocation
  | videoTiming
  | rtpStreamId
  | repairedRtpStreamId
  | mid
  | genericFrameDescriptor
  | dependencyDescriptor
  | colorSpace
  | videoFrameTrackingId

/-- `RtpHeaderExtensionMap`; the id of a type that is not registered is zero. -/
structure RtpHeaderExtensionMap where
  getId : RTPExtensionType → UInt8
  extmapAllowMixed : Bool

structure ExtensionInfo where
  id : UInt8
  length : Nat
  offset : Nat
deriving DecidableEq

structure View where
  offset : Nat
  length : Nat

structure RtpPacket where
  marker : Bool
  payloadType : UInt8
  paddingSize : Nat
  sequenceNumber : BitVec 16
  timestamp : BitVec 32
  ssrc : BitVec 32
  payloadOffset : Nat
  payloadSize : Nat
  extensions : RtpHeaderExtensionMap
  extensionEntries : List ExtensionInfo
  extensionsSize : Nat
  buffer : CopyOnWriteBuffer

def kFixedHeaderSize : Nat := 12

def kOneByteExtensionProfileId : BitVec 16 := 0xBEDE

def kTwoByteExtensionProfileId : BitVec 16 := 0x1000

def kTwobyteExtensionProfileIdAppBitsFilter : BitVec 16 := 0xfff0

def kDefaultPacketSize : Nat := 1500

namespace RtpPacket

variable (p : RtpPacket)

def capacity : Nat := p.buffer.capacity

def size : Nat := p.payloadOffset + p.payloadSize + p.paddingSize

def data : List UInt8 := p.buffer.memory.take p.size

def payload : List UInt8 := (p.buffer.memory.drop p.payloadOffset).take p.payloadSize

def numCsrc : Nat := (p.buffer.byteAt 0 &&& 0x0F).toNat

def csrcs : List (BitVec 32) :=
  (List.range p.numCsrc).map fun i => load32 p.buffer.memory (kFixedHeaderSize + i * 4)

def findExtensionInfo (id : UInt8) : Option ExtensionInfo :=
  p.extensionEntries.find? (·.id = id)

def extension (id : UInt8) : Option (List UInt8) :=
  (p.findExtensionInfo id).map fun info => (p.buffer.memory.drop info.offset).take info.length

def hasExtension (type : RTPExtensionType) : Bool :=
  p.extensions.getId type ≠ 0 ∧ (p.findExtensionInfo (p.extensions.getId type)).isSome

def clear : Option RtpPacket := do
  let buffer ← p.buffer.writeAt 0 (List.replicate kFixedHeaderSize 0)
  let buffer ← (buffer.setSize kFixedHeaderSize).writeAt 0 [0x80]
  return { p with
    marker := false, payloadType := 0, sequenceNumber := 0, timestamp := 0, ssrc := 0,
    payloadOffset := kFixedHeaderSize, payloadSize := 0, paddingSize := 0,
    extensionsSize := 0, extensionEntries := [], buffer }

def create (extensions : RtpHeaderExtensionMap) (memory : List UInt8) : Option RtpPacket :=
  clear
    { marker := false, payloadType := 0, paddingSize := 0, sequenceNumber := 0, timestamp := 0
      ssrc := 0, payloadOffset := 0, payloadSize := 0, extensions, extensionEntries := []
      extensionsSize := 0, buffer := ⟨memory, memory.length⟩ }

def identifyExtensions (extensions : RtpHeaderExtensionMap) : RtpPacket := { p with extensions }

def setMarker (marker : Bool) : Option RtpPacket := do
  let byte := p.buffer.byteAt 1
  let buffer ← p.buffer.writeAt 1 [if marker then byte ||| 0x80 else byte &&& 0x7F]
  return { p with marker, buffer }

def setPayloadType (payloadType : UInt8) : Option RtpPacket := do
  guard (payloadType ≤ 0x7F)
  let buffer ← p.buffer.writeAt 1 [p.buffer.byteAt 1 &&& 0x80 ||| payloadType]
  return { p with payloadType, buffer }

def setSequenceNumber (sequenceNumber : BitVec 16) : Option RtpPacket := do
  let buffer ← p.buffer.writeAt 2 (bigEndian16 sequenceNumber)
  return { p with sequenceNumber, buffer }

def setTimestamp (timestamp : BitVec 32) : Option RtpPacket := do
  let buffer ← p.buffer.writeAt 4 (bigEndian32 timestamp)
  return { p with timestamp, buffer }

def setSsrc (ssrc : BitVec 32) : Option RtpPacket := do
  let buffer ← p.buffer.writeAt 8 (bigEndian32 ssrc)
  return { p with ssrc, buffer }

def setCsrcs (csrcs : List (BitVec 32)) : Option RtpPacket := do
  guard (p.extensionsSize = 0 ∧ p.payloadSize = 0 ∧ p.paddingSize = 0)
  guard (csrcs.length ≤ 0x0f)
  let payloadOffset := kFixedHeaderSize + 4 * csrcs.length
  let byte := p.buffer.byteAt 0 &&& 0xF0 ||| UInt8.ofNat csrcs.length
  let buffer ← p.buffer.writeAt 0 [byte]
  let buffer ← buffer.writeAt kFixedHeaderSize (csrcs.flatMap bigEndian32)
  return { p with payloadOffset, buffer := buffer.setSize payloadOffset }

def setExtensionLengthMaybeAddZeroPadding (extensionsOffset : Nat) : Option (Nat × RtpPacket) := do
  let extensionsWords := (p.extensionsSize + 3) / 4
  guard (extensionsWords < 2 ^ 16)
  let buffer ← p.buffer.writeAt (extensionsOffset - 2) (bigEndian16 (.ofNat 16 extensionsWords))
  let extensionPaddingSize := 4 * extensionsWords - p.extensionsSize
  let buffer ← buffer.writeAt (extensionsOffset + p.extensionsSize)
    (List.replicate extensionPaddingSize 0)
  return (4 * extensionsWords % 2 ^ 16, { p with buffer })

/-- The loop of `PromoteToTwoByteHeaderExtension` over the entries from the last one on. Each is
moved by as many bytes as there are entries left. -/
def promoteEntries : List ExtensionInfo → CopyOnWriteBuffer →
    Option (List ExtensionInfo × CopyOnWriteBuffer)
  | [], buffer => some ([], buffer)
  | entry :: rest, buffer => do
    let writeIndex := entry.offset + (rest.length + 1)
    guard (writeIndex < 2 ^ 16)
    let moved ← buffer.readAt entry.offset entry.length
    let buffer ← buffer.writeAt writeIndex moved
    let buffer ← buffer.writeAt (writeIndex - 1) [UInt8.ofNat entry.length]
    let buffer ← buffer.writeAt (writeIndex - 2) [entry.id]
    let (entries, buffer) ← promoteEntries rest buffer
    return ({ entry with offset := writeIndex } :: entries, buffer)

def promoteToTwoByteHeaderExtension : Option RtpPacket := do
  let extensionsOffset := kFixedHeaderSize + p.numCsrc * 4 + 4
  guard (0 < p.extensionEntries.length ∧ p.payloadSize = 0)
  guard (load16 p.buffer.memory (extensionsOffset - 4) = kOneByteExtensionProfileId)
  let (entries, buffer) ← promoteEntries p.extensionEntries.reverse p.buffer
  let buffer ← buffer.writeAt (extensionsOffset - 4) (bigEndian16 kTwoByteExtensionProfileId)
  let p := { p with
    extensionEntries := entries.reverse, buffer
    extensionsSize := p.extensionsSize + p.extensionEntries.length }
  let (extensionsSizePadded, p) ← p.setExtensionLengthMaybeAddZeroPadding extensionsOffset
  let payloadOffset := extensionsOffset + extensionsSizePadded
  return { p with payloadOffset, buffer := p.buffer.setSize payloadOffset }

def extensionHeader (profileId : BitVec 16) (id : UInt8) (length : Nat) : List UInt8 :=
  if profileId = kOneByteExtensionProfileId then [id <<< 4 ||| UInt8.ofNat (length - 1)]
  else [id, UInt8.ofNat length]

def openExtensionBlock (extensionsOffset : Nat) (profileId : BitVec 16) :
    Option CopyOnWriteBuffer :=
  if p.extensionsSize = 0 then do
    guard (p.payloadOffset = extensionsOffset - 4)
    let buffer ← p.buffer.writeAt 0 [p.buffer.byteAt 0 ||| 0x10]
    buffer.writeAt (extensionsOffset - 4) (bigEndian16 profileId)
  else some p.buffer

/-- The second half of `AllocateRawExtension`, once the profile of the block is settled. -/
def appendExtension (id : UInt8) (length : Nat) (profileId : BitVec 16) :
    Option (Option View × RtpPacket) := do
  let extensionsOffset := kFixedHeaderSize + p.numCsrc * 4 + 4
  let extensionHeaderSize := if profileId = kOneByteExtensionProfileId then 1 else 2
  let newExtensionsSize := p.extensionsSize + extensionHeaderSize + length
  if extensionsOffset + newExtensionsSize > p.capacity then return (none, p)
  else
    let buffer ← p.openExtensionBlock extensionsOffset profileId
    let buffer ← buffer.writeAt (extensionsOffset + p.extensionsSize)
      (extensionHeader profileId id length)
    let offset := extensionsOffset + p.extensionsSize + extensionHeaderSize
    guard (offset < 2 ^ 16)
    let p := { p with
      extensionEntries := p.extensionEntries ++ [ExtensionInfo.mk id length offset], buffer
      extensionsSize := newExtensionsSize }
    let (extensionsSizePadded, p) ← p.setExtensionLengthMaybeAddZeroPadding extensionsOffset
    let payloadOffset := extensionsOffset + extensionsSizePadded
    return (some ⟨offset, length⟩,
      { p with payloadOffset, buffer := p.buffer.setSize payloadOffset })

def allocateRawExtension (id : UInt8) (length : Nat) : Option (Option View × RtpPacket) := do
  guard (1 ≤ id ∧ 1 ≤ length ∧ length ≤ 255)
  match p.findExtensionInfo id with
  | some entry =>
    if entry.length = length then return (some (View.mk entry.offset length), p) else return (none, p)
  | none =>
    if p.payloadSize > 0 ∨ p.paddingSize > 0 then return (none, p)
    else
      let extensionsOffset := kFixedHeaderSize + p.numCsrc * 4 + 4
      let twoByteHeaderRequired : Bool := id > 14 ∨ length > 16 ∨ length = 0
      guard (twoByteHeaderRequired → p.extensions.extmapAllowMixed)
      if p.extensionsSize > 0 then
        let profileId := load16 p.buffer.memory (extensionsOffset - 4)
        if profileId = kOneByteExtensionProfileId ∧ twoByteHeaderRequired then
          let expectedNewExtensionsSize :=
            p.extensionsSize + p.extensionEntries.length + 2 + length
          if extensionsOffset + expectedNewExtensionsSize > p.capacity then return (none, p)
          else do
            let p ← p.promoteToTwoByteHeaderExtension
            p.appendExtension id length kTwoByteExtensionProfileId
        else p.appendExtension id length profileId
      else
        p.appendExtension id length
          (if twoByteHeaderRequired then kTwoByteExtensionProfileId
            else kOneByteExtensionProfileId)

def setRawExtension (id : UInt8) (bytes : List UInt8) : Option (Bool × RtpPacket) := do
  let (view, p) ← p.allocateRawExtension id bytes.length
  match view with
  | none => return (false, p)
  | some view =>
    let buffer ← p.buffer.writeAt view.offset bytes
    return (true, { p with buffer })

def setPayloadSize (sizeBytes : Nat) : Option RtpPacket := do
  guard (p.paddingSize = 0)
  let buffer := p.buffer.setSize (p.payloadOffset + sizeBytes)
  return { p with payloadSize := sizeBytes, buffer }

/-- `AllocatePayload`, with the copy of the payload to the place it returns. -/
def setPayload (bytes : List UInt8) : Option RtpPacket := do
  let p ← p.setPayloadSize 0
  let p ← p.setPayloadSize bytes.length
  let buffer ← p.buffer.writeAt p.payloadOffset bytes
  return { p with buffer }

def setPadding (paddingBytes : Nat) : Option (Bool × RtpPacket) := do
  if p.payloadOffset + p.payloadSize + paddingBytes > p.capacity then return (false, p)
  else
    guard (paddingBytes < 2 ^ 8)
    let buffer := p.buffer.setSize (p.payloadOffset + p.payloadSize + paddingBytes)
    if paddingBytes > 0 then
      let paddingOffset := p.payloadOffset + p.payloadSize
      let buffer ← buffer.writeAt paddingOffset
        (List.replicate (paddingBytes - 1) 0 ++ [UInt8.ofNat paddingBytes])
      let buffer ← buffer.writeAt 0 [buffer.byteAt 0 ||| 0x20]
      return (true, { p with paddingSize := paddingBytes, buffer })
    else
      let buffer ← buffer.writeAt 0 [buffer.byteAt 0 &&& ~~~0x20]
      return (true, { p with paddingSize := paddingBytes, buffer })

def copyHeaderFrom (packet : RtpPacket) : RtpPacket :=
  { packet with
    buffer := { packet.buffer with size := packet.payloadOffset }, payloadSize := 0
    paddingSize := 0 }

def findOrCreateExtensionInfo (entries : List ExtensionInfo) (id : UInt8) : List ExtensionInfo :=
  if entries.any (·.id = id) then entries else entries ++ [⟨id, 0, 0⟩]

/-- The loop of `ParseBuffer` over the extension block. Every round moves on by a byte at least, so
that as many rounds as there are bytes are enough. -/
def parseExtensions (buffer : List UInt8) (oneByte : Bool)
    (extensionOffset extensionsCapacity : Nat) :
    Nat → Nat → List ExtensionInfo → Nat × List ExtensionInfo
  | 0, extensionsSize, entries => (extensionsSize, entries)
  | rounds + 1, extensionsSize, entries =>
    let headerLength := if oneByte then 1 else 2
    if extensionsSize + headerLength < extensionsCapacity then
      let byte := buffer.getD (extensionOffset + extensionsSize) 0
      if byte = 0 then
        parseExtensions buffer oneByte extensionOffset extensionsCapacity rounds
          (extensionsSize + 1) entries
      else
        let id := if oneByte then byte >>> 4 else byte
        let length :=
          if oneByte then 1 + (byte &&& 0xf).toNat
          else (buffer.getD (extensionOffset + extensionsSize + 1) 0).toNat
        if oneByte ∧ (id = 15 ∨ id = 0 ∧ length ≠ 1) then (extensionsSize, entries)
        else if extensionsSize + headerLength + length > extensionsCapacity then
          (extensionsSize, entries)
        else
          let entries := findOrCreateExtensionInfo entries id
          let offset := extensionOffset + extensionsSize + headerLength
          if offset < 2 ^ 16 then
            parseExtensions buffer oneByte extensionOffset extensionsCapacity rounds
              (extensionsSize + headerLength + length)
              (entries.map fun entry => if entry.id = id then ⟨id, length, offset⟩ else entry)
          else (extensionsSize, entries)
    else (extensionsSize, entries)

def parseExtensionBlock (buffer : List UInt8) (offset : Nat) :
    Option (Nat × Nat × List ExtensionInfo) :=
  let extensionOffset := offset + 4
  if extensionOffset > buffer.length then none
  else
    let profile := load16 buffer offset
    let extensionsCapacity := (load16 buffer (offset + 2)).toNat * 4
    if extensionOffset + extensionsCapacity > buffer.length then none
    else
      let parsed :=
        if profile ≠ kOneByteExtensionProfileId ∧
            profile &&& kTwobyteExtensionProfileIdAppBitsFilter ≠ kTwoByteExtensionProfileId then
          (0, [])
        else
          parseExtensions buffer (profile = kOneByteExtensionProfileId) extensionOffset
            extensionsCapacity extensionsCapacity 0 []
      some (extensionOffset + extensionsCapacity, parsed)

def parseBuffer (buffer : List UInt8) : Option RtpPacket :=
  if buffer.length < kFixedHeaderSize then none
  else
    let byte := buffer.getD 0 0
    if byte >>> 6 ≠ 2 then none
    else
      let hasPadding : Bool := byte &&& 0x20 ≠ 0
      let hasExtension : Bool := byte &&& 0x10 ≠ 0
      let numberOfCsrcs := (byte &&& 0x0f).toNat
      if buffer.length < kFixedHeaderSize + numberOfCsrcs * 4 then none
      else
        let csrcsEnd := kFixedHeaderSize + numberOfCsrcs * 4
        match if hasExtension then parseExtensionBlock buffer csrcsEnd
            else some (csrcsEnd, 0, []) with
        | none => none
        | some (payloadOffset, extensionsSize, extensionEntries) =>
          let paddingSize :=
            if hasPadding ∧ payloadOffset < buffer.length then
              (buffer.getD (buffer.length - 1) 0).toNat
            else 0
          if hasPadding ∧ payloadOffset < buffer.length ∧ paddingSize = 0 then none
          else if payloadOffset + paddingSize > buffer.length then none
          else
            some { p with
              marker := buffer.getD 1 0 &&& 0x80 ≠ 0
              payloadType := buffer.getD 1 0 &&& 0x7f
              sequenceNumber := load16 buffer 2
              timestamp := load32 buffer 4
              ssrc := load32 buffer 8
              payloadOffset, extensionsSize, extensionEntries, paddingSize
              payloadSize := buffer.length - payloadOffset - paddingSize }

/-- Both overloads of `Parse`: the memory may be larger than the bytes. -/
def parse (bytes slack : List UInt8) : Option (Bool × RtpPacket) :=
  match p.parseBuffer bytes with
  | some p => some (true, { p with buffer := ⟨bytes ++ slack, bytes.length⟩ })
  | none => do
    let p ← p.clear
    return (false, p)

/-- The extensions but one, copied to a new packet. The result is none where `RemoveExtension`
gives up. -/
def copyExtensions (idToRemove : UInt8) : List ExtensionInfo → RtpPacket → Option (Option RtpPacket)
  | [], newPacket => some (some newPacket)
  | ext :: rest, newPacket =>
    if ext.id = idToRemove then copyExtensions idToRemove rest newPacket
    else do
      let (view, newPacket) ← newPacket.allocateRawExtension ext.id ext.length
      match view with
      | none => return none
      | some view =>
        let bytes ← p.buffer.readAt ext.offset ext.length
        let buffer ← newPacket.buffer.writeAt view.offset bytes
        copyExtensions idToRemove rest { newPacket with buffer }

def copyPayload (newPacket : RtpPacket) : Option RtpPacket :=
  if p.payloadSize > 0 then do
    let payload ← p.buffer.readAt p.payloadOffset p.payloadSize
    newPacket.setPayload payload
  else newPacket.setPayloadSize 0

def removeExtension (type : RTPExtensionType) : Option (Bool × RtpPacket) := do
  let idToRemove := p.extensions.getId type
  if idToRemove = 0 then return (false, p)
  else
    let newPacket ← create ⟨fun _ => 0, false⟩ (List.replicate kDefaultPacketSize 0)
    let newPacket ← newPacket.setMarker p.marker
    let newPacket ← newPacket.setPayloadType p.payloadType
    let newPacket ← newPacket.setSequenceNumber p.sequenceNumber
    let newPacket ← newPacket.setTimestamp p.timestamp
    let newPacket ← newPacket.setSsrc p.ssrc
    let newPacket := newPacket.identifyExtensions p.extensions
    match ← p.copyExtensions idToRemove p.extensionEntries newPacket with
    | none => return (false, p)
    | some newPacket =>
      if !p.extensionEntries.any (·.id = idToRemove) then return (false, p)
      else
        let newPacket ← p.copyPayload newPacket
        let (_, newPacket) ← newPacket.setPadding p.paddingSize
        return (true, newPacket)

end RtpPacket

end WebRtc.Rtp
