import WebRtc.Lib.ByteReader

/-! STUN messages (`api/transport/stun.cc`): attributes and their values, building a message, writing
and reading it, and the checks of its integrity and its fingerprint. -/

namespace WebRtc.Stun

open ByteBuffer

namespace StunAttr

def mappedAddress : BitVec 16 := 0x0001
def username : BitVec 16 := 0x0006
def messageIntegrity : BitVec 16 := 0x0008
def errorCode : BitVec 16 := 0x0009
def unknownAttributes : BitVec 16 := 0x000a
def channelNumber : BitVec 16 := 0x000C
def lifetime : BitVec 16 := 0x000d
def turnLifetime : BitVec 16 := 0x000d
def magicCookie : BitVec 16 := 0x000f
def bandwidth : BitVec 16 := 0x0010
def destinationAddress : BitVec 16 := 0x0011
def sourceAddress2 : BitVec 16 := 0x0012
def xorPeerAddress : BitVec 16 := 0x0012
def data : BitVec 16 := 0x0013
def realm : BitVec 16 := 0x0014
def nonce : BitVec 16 := 0x0015
def xorRelayedAddress : BitVec 16 := 0x0016
def evenPort : BitVec 16 := 0x0018
def requestedTransport : BitVec 16 := 0x0019
def dontFragment : BitVec 16 := 0x001A
def xorMappedAddress : BitVec 16 := 0x0020
def reservationToken : BitVec 16 := 0x0022
def priority : BitVec 16 := 0x0024
def useCandidate : BitVec 16 := 0x0025
def options : BitVec 16 := 0x8001
def software : BitVec 16 := 0x8022
def alternateServer : BitVec 16 := 0x8023
def fingerprint : BitVec 16 := 0x8028
def iceControlled : BitVec 16 := 0x8029
def iceControlling : BitVec 16 := 0x802A
def nomination : BitVec 16 := 0xC001
def googNetworkInfo : BitVec 16 := 0xC057
def googLastIceCheckReceived : BitVec 16 := 0xC058
def googMiscInfo : BitVec 16 := 0xC059
def googDelta : BitVec 16 := 0xC05C
def googDeltaAck : BitVec 16 := 0xC05D
def googMessageIntegrity32 : BitVec 16 := 0xC060
def retransmitCount : BitVec 16 := 0xFF00

end StunAttr

inductive StunAttributeValueType where
  | unknown
  | address
  | xorAddress
  | uint32
  | uint64
  | byteString
  | errorCode
  | uint16List
  deriving DecidableEq

inductive MessageClass where
  | stun
  | relay
  | turn
  | ice

def stunValueTypes : List (BitVec 16 × StunAttributeValueType) :=
  [(StunAttr.mappedAddress, .address), (StunAttr.username, .byteString),
    (StunAttr.messageIntegrity, .byteString), (StunAttr.errorCode, .errorCode),
    (StunAttr.unknownAttributes, .uint16List), (StunAttr.realm, .byteString),
    (StunAttr.nonce, .byteString), (StunAttr.xorMappedAddress, .xorAddress),
    (StunAttr.software, .byteString), (StunAttr.alternateServer, .address),
    (StunAttr.fingerprint, .uint32), (StunAttr.retransmitCount, .uint32),
    (StunAttr.googLastIceCheckReceived, .byteString), (StunAttr.googMiscInfo, .uint16List),
    (StunAttr.googDelta, .byteString), (StunAttr.googDeltaAck, .uint64)]

def MessageClass.valueTypes : MessageClass → List (BitVec 16 × StunAttributeValueType)
  | .stun => []
  | .relay =>
    [(StunAttr.lifetime, .uint32), (StunAttr.magicCookie, .byteString),
      (StunAttr.bandwidth, .uint32), (StunAttr.destinationAddress, .address),
      (StunAttr.sourceAddress2, .address), (StunAttr.data, .byteString),
      (StunAttr.options, .uint32)]
  | .turn =>
    [(StunAttr.channelNumber, .uint32), (StunAttr.turnLifetime, .uint32),
      (StunAttr.xorPeerAddress, .xorAddress), (StunAttr.data, .byteString),
      (StunAttr.xorRelayedAddress, .xorAddress), (StunAttr.evenPort, .byteString),
      (StunAttr.requestedTransport, .uint32), (StunAttr.dontFragment, .byteString),
      (StunAttr.reservationToken, .byteString)]
  | .ice =>
    [(StunAttr.priority, .uint32), (StunAttr.googNetworkInfo, .uint32),
      (StunAttr.nomination, .uint32), (StunAttr.useCandidate, .byteString),
      (StunAttr.iceControlled, .uint64), (StunAttr.iceControlling, .uint64)]

def getAttributeValueType (c : MessageClass) (type : BitVec 16) : StunAttributeValueType :=
  ((c.valueTypes ++ stunValueTypes).lookup type).getD .unknown

def designatedExpertRange (type : BitVec 16) : Bool :=
  decide (0x4000 ≤ type.toNat ∧ type.toNat ≤ 0x7FFF) ||
    decide (0xC000 ≤ type.toNat ∧ type.toNat ≤ 0xFFFF)

/-- The class of the attribute that `CreateAttribute` makes; none when it makes none. -/
def createAttribute (c : MessageClass) (type : BitVec 16) : Option StunAttributeValueType :=
  if getAttributeValueType c type ≠ .unknown then some (getAttributeValueType c type)
  else if designatedExpertRange type then some .byteString
  else none

inductive IPAddress where
  | unspec
  | v4 (bytes : Vector UInt8 4)
  | v6 (bytes : Vector UInt8 16)
  deriving DecidableEq

structure SocketAddress where
  ip : IPAddress
  port : BitVec 16
  deriving DecidableEq

inductive StunAttributeValue where
  | address (addr : SocketAddress)
  | xorAddress (addr : SocketAddress)
  | uint32 (bits : BitVec 32)
  | uint64 (bits : BitVec 64)
  | byteString (bytes : List UInt8)
  | errorCode (errorClass number : BitVec 8) (reason : List UInt8)
  | uint16List (types : List (BitVec 16))
  deriving DecidableEq

def StunAttributeValue.valueType : StunAttributeValue → StunAttributeValueType
  | .address _ => .address
  | .xorAddress _ => .xorAddress
  | .uint32 _ => .uint32
  | .uint64 _ => .uint64
  | .byteString _ => .byteString
  | .errorCode _ _ _ => .errorCode
  | .uint16List _ => .uint16List

structure StunAttribute where
  type : BitVec 16
  length : BitVec 16
  value : StunAttributeValue
  deriving DecidableEq

def stunMagicCookie : BitVec 32 := 0x2112A442

def padding (length : Nat) : Nat := if length % 4 > 0 then 4 - length % 4 else 0

namespace IPAddress

def family : IPAddress → BitVec 8
  | .unspec => 0
  | .v4 _ => 1
  | .v6 _ => 2

def addressLength : IPAddress → BitVec 16
  | .unspec => 0
  | .v4 _ => 8
  | .v6 _ => 20

def toBytes : IPAddress → List UInt8
  | .unspec => []
  | .v4 bytes => bytes.toList
  | .v6 bytes => bytes.toList

end IPAddress

def xorBytes {n : Nat} (key : List UInt8) (bytes : Vector UInt8 n) : Vector UInt8 n :=
  .ofFn fun i => bytes.get i ^^^ key.getD i 0

def getXoredIP (transactionId : List UInt8) : IPAddress → IPAddress
  | .unspec => .unspec
  | .v4 bytes => .v4 (xorBytes (bigEndian32 stunMagicCookie) bytes)
  | .v6 bytes =>
    if transactionId.length = 12 then
      .v6 (xorBytes (bigEndian32 stunMagicCookie ++ transactionId) bytes)
    else .unspec

def xorPort (port : BitVec 16) : BitVec 16 := port ^^^ stunMagicCookie.extractLsb' 16 16

def consumePadding (length : Nat) : Reader Unit := fun buf =>
  if padding length ≤ buf.length then some ((), buf.drop (padding length)) else some ((), buf)

def readAddress (length : BitVec 16) : Reader SocketAddress := do
  let _ ← readUInt8
  let family ← readUInt8
  let port ← readUInt16
  if family = 1 then
    guard (length = 8)
    return ⟨.v4 (← readVector 4), port⟩
  else if family = 2 then
    guard (length = 20)
    return ⟨.v6 (← readVector 16), port⟩
  else failure

def readXorAddress (transactionId : List UInt8) (length : BitVec 16) : Reader SocketAddress := do
  let addr ← readAddress length
  return ⟨getXoredIP transactionId addr.ip, xorPort addr.port⟩

def readByteString (length : BitVec 16) : Reader (List UInt8) := do
  let bytes ← readBytes length.toNat
  consumePadding length.toNat
  return bytes

def readErrorCode (length : BitVec 16) : Reader StunAttributeValue := do
  guard (4 ≤ length.toNat)
  let val ← readUInt32
  let reason ← readBytes (length.toNat - 4)
  consumePadding length.toNat
  return .errorCode (((val >>> 8) &&& 0x7).extractLsb' 0 8) ((val &&& 0xff).extractLsb' 0 8) reason

def readUInt16List (length : BitVec 16) : Reader (List (BitVec 16)) := do
  guard (length.toNat % 2 = 0)
  let types ← readMany readUInt16 (length.toNat / 2)
  consumePadding length.toNat
  return types

/-- `StunAttribute::Create` and the `Read` of the class; numbers have their own length. -/
def readAttribute (transactionId : List UInt8) (type length : BitVec 16) :
    StunAttributeValueType → Reader StunAttribute
  | .unknown => failure
  | .address => do
    let addr ← readAddress length
    return ⟨type, addr.ip.addressLength, .address addr⟩
  | .xorAddress => do
    let addr ← readXorAddress transactionId length
    return ⟨type, addr.ip.addressLength, .xorAddress addr⟩
  | .uint32 => do return ⟨type, 4, .uint32 (← readUInt32)⟩
  | .uint64 => do return ⟨type, 8, .uint64 (← readUInt64)⟩
  | .byteString => do return ⟨type, length, .byteString (← readByteString length)⟩
  | .errorCode => do return ⟨type, length, ← readErrorCode length⟩
  | .uint16List => do return ⟨type, length, .uint16List (← readUInt16List length)⟩

def writePadding (length : Nat) : List UInt8 := List.replicate (padding length) 0

def lengthValid (type : BitVec 16) (length : Nat) : Bool :=
  if type = StunAttr.username then length ≤ 508
  else if type = StunAttr.messageIntegrity then length = 20
  else if type = StunAttr.realm then length ≤ 508
  else if type = StunAttr.nonce then length ≤ 508
  else if type = StunAttr.software then length ≤ 508
  else length ≤ 65535

def writeAddress (ip : IPAddress) (port : BitVec 16) : List UInt8 :=
  bigEndian8 0 ++ bigEndian8 ip.family ++ bigEndian16 port ++ ip.toBytes

/-- The value of an attribute; none when `Write` returns false. -/
def writeValue (transactionId : List UInt8) (a : StunAttribute) : Option (List UInt8) :=
  match a.value with
  | .address addr => if addr.ip.family = 0 then none else some (writeAddress addr.ip addr.port)
  | .xorAddress addr =>
    let xoredIp := getXoredIP transactionId addr.ip
    if addr.ip.family = 0 then none
    else if xoredIp.family = 0 then none
    else some (bigEndian8 0 ++ bigEndian8 addr.ip.family ++ bigEndian16 (xorPort addr.port) ++
      xoredIp.toBytes)
  | .uint32 bits => some (bigEndian32 bits)
  | .uint64 bits => some (bigEndian64 bits)
  | .byteString bytes =>
    if lengthValid a.type a.length.toNat then
      some (bytes.take a.length.toNat ++ writePadding a.length.toNat)
    else none
  | .errorCode errorClass number reason =>
    some (bigEndian32 (errorClass.setWidth 32 <<< 8 ||| number.setWidth 32) ++ reason ++
      writePadding a.length.toNat)
  | .uint16List types => some (types.flatMap bigEndian16 ++ writePadding a.length.toNat)

def writeAttribute (transactionId : List UInt8) (a : StunAttribute) : Option (List UInt8) :=
  (writeValue transactionId a).map (bigEndian16 a.type ++ bigEndian16 a.length ++ ·)

inductive IntegrityStatus where
  | notSet
  | noIntegrity
  | integrityOk
  | integrityBad
  deriving DecidableEq

structure StunMessage where
  type : BitVec 16
  length : BitVec 16
  transactionId : List UInt8
  attrs : List StunAttribute
  buffer : List UInt8
  integrity : IntegrityStatus

namespace StunMessage

def create (type : BitVec 16) (transactionId : List UInt8) : StunMessage :=
  ⟨type, 0, transactionId, [], [], .notSet⟩

variable (c : MessageClass) (m : StunMessage)

def attributeSize (a : StunAttribute) : Nat := a.length.toNat + padding a.length.toNat + 4

def addAttribute (a : StunAttribute) : Option StunMessage := do
  guard (designatedExpertRange a.type ∨ a.value.valueType = getAttributeValueType c a.type)
  return { m with
    length := m.length + BitVec.ofNat 16 (attributeSize a)
    attrs := m.attrs ++ [a] }

def removeAttribute (type : BitVec 16) : StunMessage :=
  match m.attrs.reverse.find? (·.type = type) with
  | none => m
  | some a => { m with
      length := m.length - BitVec.ofNat 16 (attributeSize a)
      attrs := (m.attrs.reverse.eraseP (·.type = type)).reverse }

def getAttribute (type : BitVec 16) : Option StunAttribute := m.attrs.find? (·.type = type)

def writeAttributes (transactionId : List UInt8) : List StunAttribute → Option (List UInt8)
  | [] => some []
  | a :: attrs => do
    let bytes ← writeAttribute transactionId a
    let rest ← writeAttributes transactionId attrs
    return bytes ++ rest

def header : List UInt8 :=
  bigEndian16 m.type ++ bigEndian16 m.length ++
    (if m.transactionId.length = 16 then [] else bigEndian32 stunMagicCookie) ++ m.transactionId

/-- The bytes of a message; none when `Write` returns false. -/
def write : Option (List UInt8) := (writeAttributes m.transactionId m.attrs).map (m.header ++ ·)

/-- A round of the loop of `Read`; none when the attribute is skipped. -/
def readNext (transactionId : List UInt8) : Reader (Option StunAttribute) := do
  let attrType ← readUInt16
  let attrLength ← readUInt16
  match createAttribute c attrType with
  | none =>
    consume (attrLength + BitVec.ofNat 16 (padding attrLength.toNat)).toNat
    return none
  | some valueType => return some (← readAttribute transactionId attrType attrLength valueType)

/-- The loop of `Read` over the attributes, each of which has a header. -/
def readAttributes (transactionId : List UInt8) : Nat → Reader (List StunAttribute)
  | 0 => do
    guard ((← get).isEmpty)
    return []
  | n + 1 => do
    if (← get).isEmpty then return []
    else
      let a ← readNext c transactionId
      let attrs ← readAttributes transactionId n
      return a.toList ++ attrs

def readHeader : Reader (BitVec 16 × BitVec 16 × List UInt8) := do
  let type ← readUInt16
  guard (type &&& 0x8000 = 0)
  let length ← readUInt16
  let magicCookie ← readBytes 4
  let transactionId ← readBytes 12
  if load32 magicCookie 0 ≠ stunMagicCookie then return (type, length, magicCookie ++ transactionId)
  else return (type, length, transactionId)

/-- The message that is read into a new one; none when `Read` returns false. -/
def read (data : List UInt8) : Option StunMessage := do
  let ((type, length, transactionId), buf) ← readHeader.run data
  guard (length.toNat = buf.length)
  let (attrs, _) ← (readAttributes c transactionId buf.length).run buf
  return ⟨type, length, transactionId, attrs, data, .notSet⟩

section Integrity

variable (hmac : List UInt8 → List UInt8 → Vector UInt8 20) (crc32 : List UInt8 → BitVec 32)

def findIntegrity (miType : BitVec 16) (miSize : Nat) (data : List UInt8) : Nat → Nat → Option Nat
  | 0, _ => none
  | n + 1, pos =>
    if pos + 4 ≤ data.length then
      let attrLength := (load16 data (pos + 2)).toNat
      if load16 data pos = miType then
        if attrLength ≠ miSize ∨ pos + 4 + attrLength > data.length then none else some pos
      else findIntegrity miType miSize data n (pos + 4 + attrLength + padding attrLength)
    else none

def integrityPosition (miType : BitVec 16) (miSize : Nat) (data : List UInt8) : Option Nat :=
  if data.length % 4 ≠ 0 ∨ data.length < 20 then none
  else if data.length ≠ (load16 data 2).toNat + 20 then none
  else findIntegrity miType miSize data data.length 20

def coveredBytes (miSize : Nat) (data : List UInt8) (pos : Nat) : List UInt8 :=
  if data.length > pos + 4 + miSize then
    store16 (data.take pos) 2 (BitVec.ofNat 16 (pos + 4 + miSize - 20))
  else data.take pos

def validateMessageIntegrityOfType (miType : BitVec 16) (miSize : Nat) (data password : List UInt8) :
    Bool :=
  match integrityPosition miType miSize data with
  | none => false
  | some pos =>
    decide ((data.drop (pos + 4)).take miSize =
      (hmac password (coveredBytes miSize data pos)).toList.take miSize)

def integrityStatus (valid : Bool) : IntegrityStatus := if valid then .integrityOk else .integrityBad

def validateMessageIntegrity (password : List UInt8) : Option StunMessage := do
  guard (m.integrity = .notSet)
  if (m.getAttribute StunAttr.messageIntegrity).isSome then
    let valid :=
      validateMessageIntegrityOfType hmac StunAttr.messageIntegrity 20 m.buffer password
    return { m with integrity := integrityStatus valid }
  else if (m.getAttribute StunAttr.googMessageIntegrity32).isSome then
    let valid :=
      validateMessageIntegrityOfType hmac StunAttr.googMessageIntegrity32 4 m.buffer password
    return { m with integrity := integrityStatus valid }
  else return { m with integrity := .noIntegrity }

def addMessageIntegrityOfType (attrType : BitVec 16) (attrSize : Nat) (key : List UInt8) :
    Option (Bool × StunMessage) := do
  let m' ← m.addAttribute c
    ⟨attrType, BitVec.ofNat 16 attrSize, .byteString (List.replicate attrSize 0x30)⟩
  match m'.write with
  | none => return (false, m')
  | some buf =>
    let mac := (hmac key (buf.take (buf.length - 4 - attrSize))).toList.take attrSize
    return (true, { m' with
      attrs := m.attrs ++ [⟨attrType, BitVec.ofNat 16 attrSize, .byteString mac⟩]
      integrity := .integrityOk })

def addMessageIntegrity (key : List UInt8) : Option (Bool × StunMessage) :=
  m.addMessageIntegrityOfType c hmac StunAttr.messageIntegrity 20 key

def addMessageIntegrity32 (key : List UInt8) : Option (Bool × StunMessage) :=
  m.addMessageIntegrityOfType c hmac StunAttr.googMessageIntegrity32 4 key

def stunFingerprintXorValue : BitVec 32 := 0x5354554E

def addFingerprint : Option (Bool × StunMessage) := do
  let m' ← m.addAttribute c ⟨StunAttr.fingerprint, 4, .uint32 0⟩
  match m'.write with
  | none => return (false, m')
  | some buf =>
    return (true, { m' with
      attrs := m.attrs ++ [⟨StunAttr.fingerprint, 4,
        .uint32 (crc32 (buf.take (buf.length - 4 - 4)) ^^^ stunFingerprintXorValue)⟩] })

def validateFingerprint (data : List UInt8) : Bool :=
  if data.length % 4 ≠ 0 ∨ data.length < 20 + 8 then false
  else if load32 data 4 ≠ stunMagicCookie then false
  else if load16 data (data.length - 8) ≠ StunAttr.fingerprint ∨
      load16 data (data.length - 8 + 2) ≠ 4 then false
  else decide (load32 data (data.length - 8 + 4) ^^^ stunFingerprintXorValue =
    crc32 (data.take (data.length - 8)))

end Integrity

end StunMessage

end WebRtc.Stun
