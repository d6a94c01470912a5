import WebRtc.Lib.OrdMap
import WebRtc.Rtp.NalUnits

/-! The receiving side of H.265: `VideoRtpDepacketizerH265` and `H265VpsSpsPpsTracker`. The
depacketizer takes an aggregation packet to have a header of two bytes, the tracker one of a
single byte, so that no aggregation packet comes out as the units it holds. -/

namespace WebRtc.Rtp.H265

open ByteBuffer

def kTrailN : UInt8 := 0
def kTrailR : UInt8 := 1
def kIdrWRadl : UInt8 := 19
def kIdrNLp : UInt8 := 20
def kCra : UInt8 := 21
def kVps : UInt8 := 32
def kSps : UInt8 := 33
def kPps : UInt8 := 34
def kAp : UInt8 := 48
def kFu : UInt8 := 49

def kMaxNalusPerPacket : Nat := 10

def naluType (b : UInt8) : UInt8 := (b &&& 0x7E) >>> 1

inductive PacketizationType where
  | singleNalu
  | ap
  | fu
deriving DecidableEq, Repr

inductive VideoFrameType where
  | key
  | delta
deriving DecidableEq, Repr

structure NaluInfo where
  type : UInt8
  vpsId : Int
  spsId : Int
  ppsId : Int
deriving DecidableEq, Repr

def NaluInfo.ofType (type : UInt8) : NaluInfo := ⟨type, -1, -1, -1⟩

def NaluInfo.isKeyFrame (nalu : NaluInfo) : Bool :=
  nalu.type = kIdrWRadl ∨ nalu.type = kIdrNLp ∨ nalu.type = kCra

structure VideoHeader where
  width : BitVec 16
  height : BitVec 16
  frameType : VideoFrameType
  isFirstPacketInFrame : Bool
  naluType : UInt8
  packetizationType : PacketizationType
  nalus : List NaluInfo
deriving DecidableEq, Repr

def VideoHeader.push (header : VideoHeader) (nalu : NaluInfo) : VideoHeader :=
  if header.nalus.length = kMaxNalusPerPacket then header
  else { header with nalus := header.nalus ++ [nalu] }

structure ParsedRtpPayload where
  videoPayload : List UInt8
  videoHeader : VideoHeader
deriving DecidableEq, Repr

structure SpsState where
  id : BitVec 32
  vpsId : BitVec 32
  width : BitVec 32
  height : BitVec 32

/-- The parsers of the parameter sets and of slice headers. The last one is the slice header
parser as `ParseFuNalu` calls it, with a length that reaches two bytes behind the payload. -/
structure Parsers where
  parseVps : List UInt8 → Option (BitVec 32)
  parseSps : List UInt8 → Option SpsState
  parsePpsIds : List UInt8 → Option (BitVec 32 × BitVec 32)
  parsePpsIdFromSlice : List UInt8 → UInt8 → Option (BitVec 32)
  parsePpsIdFromFragment : List UInt8 → UInt8 → Option (BitVec 32)

section Depacketizer

variable (parsers : Parsers)

def withPpsId (ppsId : Option (BitVec 32)) (nalu : NaluInfo) : NaluInfo :=
  match ppsId with
  | some id => { nalu with ppsId := id.toInt }
  | none => nalu

/-- One round of the loop of `ProcessApOrSingleNalu`. -/
def processNalu (header : VideoHeader) (unit : List UInt8) : Option VideoHeader :=
  if unit.length < 2 then none
  else
    let nalu := NaluInfo.ofType (naluType (unit.headD 0))
    let body := unit.drop 2
    if nalu.type = kVps then
      match parsers.parseVps body with
      | some id => some (header.push { nalu with vpsId := id.toInt })
      | none => some (header.push nalu)
    else if nalu.type = kSps then
      match parsers.parseSps body with
      | some sps =>
        some ({ header with
          width := sps.width.setWidth 16
          height := sps.height.setWidth 16
          frameType := .key }.push { nalu with spsId := sps.id.toInt, vpsId := sps.vpsId.toInt })
      | none => some ({ header with frameType := .key }.push nalu)
    else if nalu.type = kPps then
      match parsers.parsePpsIds body with
      | some (ppsId, spsId) =>
        some (header.push { nalu with ppsId := ppsId.toInt, spsId := spsId.toInt })
      | none => some (header.push nalu)
    else if nalu.isKeyFrame then
      some ({ header with frameType := .key }.push
        (withPpsId (parsers.parsePpsIdFromSlice body nalu.type) nalu))
    else if nalu.type = kTrailN ∨ nalu.type = kTrailR then
      some (header.push (withPpsId (parsers.parsePpsIdFromSlice body nalu.type) nalu))
    else if nalu.type = kAp ∨ nalu.type = kFu then none
    else some (header.push nalu)

def naluStartOffsets (payload : List UInt8) : Option (List Nat) :=
  if naluType (payload.headD 0) = kAp then
    if payload.length ≤ 4 then none
    else parseStartOffsets 4 payload.length 0 (payload.drop 2)
  else some [0]

def naluUnits (payload : List UInt8) : Option (List (List UInt8)) :=
  (naluStartOffsets payload).map fun offsets =>
    (naluRanges (payload.length + 2) offsets).map fun range =>
      subview payload range.1 (range.2 - range.1)

def processApOrSingleNalu (payload : List UInt8) : Option ParsedRtpPayload := do
  let units ← naluUnits payload
  let nalType := naluType (payload.headD 0)
  let header ← units.foldlM (processNalu parsers)
    { width := 0
      height := 0
      frameType := .delta
      isFirstPacketInFrame := true
      naluType := nalType
      packetizationType := if nalType = kAp then .ap else .singleNalu
      nalus := [] }
  return ⟨payload, header⟩

def parseFuNalu (payload : List UInt8) : Option ParsedRtpPayload :=
  if payload.length < 3 then none
  else
    let b0 := payload.getD 0 0
    let b1 := payload.getD 1 0
    let fuHeader := payload.getD 2 0
    let f := b0 &&& 0x80
    let layerIdH := b0 &&& 0x1
    let layerIdLUnshifted := b1 &&& 0xF8
    let tid := b1 &&& 0x7
    let originalNalType := fuHeader &&& 0x3F
    let firstFragment : Bool := fuHeader &&& 0x80 ≠ 0
    let nalu := NaluInfo.ofType originalNalType
    let videoPayload :=
      if firstFragment then
        (f ||| originalNalType <<< 1 ||| layerIdH) :: (layerIdLUnshifted ||| tid) :: payload.drop 3
      else payload.drop 3
    some
      { videoPayload
        videoHeader :=
          { width := 0
            height := 0
            frameType := if nalu.isKeyFrame then .key else .delta
            isFirstPacketInFrame := firstFragment
            naluType := originalNalType
            packetizationType := .fu
            nalus :=
              if firstFragment then
                [withPpsId (parsers.parsePpsIdFromFragment (payload.drop 3) nalu.type) nalu]
              else [] } }

def parse (payload : List UInt8) : Option ParsedRtpPayload :=
  if payload = [] then none
  else if naluType (payload.headD 0) = kFu then parseFuNalu parsers payload
  else processApOrSingleNalu parsers payload

end Depacketizer

structure VpsInfo where
  size : Nat
  data : Option (List UInt8)

structure SpsInfo where
  vpsId : Int
  size : Nat
  width : Int
  height : Int
  data : Option (List UInt8)

structure PpsInfo where
  spsId : Int
  size : Nat
  data : Option (List UInt8)

def VpsInfo.init : VpsInfo := ⟨0, none⟩
def SpsInfo.init : SpsInfo := ⟨-1, 0, -1, -1, none⟩
def PpsInfo.init : PpsInfo := ⟨-1, 0, none⟩

structure VpsSpsPpsTracker where
  vpsData : OrdMap (BitVec 32) VpsInfo
  spsData : OrdMap (BitVec 32) SpsInfo
  ppsData : OrdMap (BitVec 32) PpsInfo

def VpsSpsPpsTracker.init : VpsSpsPpsTracker := ⟨∅, ∅, ∅⟩

inductive PacketAction where
  | insert
  | drop
  | requestKeyframe
deriving DecidableEq, Repr

structure FixedBitstream where
  action : PacketAction
  bitstream : List UInt8
deriving DecidableEq, Repr

structure SetIds where
  vps : BitVec 32
  sps : BitVec 32
  pps : BitVec 32

structure ActiveSets where
  ids : SetIds
  vps : VpsInfo
  sps : SpsInfo
  pps : PpsInfo

def VpsSpsPpsTracker.activeSets (t : VpsSpsPpsTracker) (ppsId : Int) : Option ActiveSets :=
  if ppsId = -1 then none
  else do
    let pps ← t.ppsData.find? (BitVec.ofInt 32 ppsId)
    let sps ← t.spsData.find? (BitVec.ofInt 32 pps.spsId)
    let vps ← t.vpsData.find? (BitVec.ofInt 32 sps.vpsId)
    let ids : SetIds :=
      ⟨BitVec.ofInt 32 sps.vpsId, BitVec.ofInt 32 pps.spsId, BitVec.ofInt 32 ppsId⟩
    return ⟨ids, vps, sps, pps⟩

/-- What the first loop of `CopyAndFixBitstream` works on. The sets found last are kept by their
ids: the entries are read again after the loop. -/
structure TrackState where
  tracker : VpsSpsPpsTracker
  header : VideoHeader
  appendVpsSpsPps : Bool
  found : Option SetIds

namespace TrackState

def setVps (s : TrackState) (nalu : NaluInfo) : TrackState :=
  { s with
    tracker.vpsData :=
      s.tracker.vpsData.upsert (BitVec.ofInt 32 nalu.vpsId) fun old =>
        { old.getD .init with size := 0 } }

def setSps (s : TrackState) (nalu : NaluInfo) : TrackState :=
  { s with
    tracker.spsData :=
      s.tracker.spsData.upsert (BitVec.ofInt 32 nalu.spsId) fun old =>
        { old.getD .init with
          vpsId := nalu.vpsId
          width := s.header.width.toNat
          height := s.header.height.toNat } }

def setPps (s : TrackState) (nalu : NaluInfo) : TrackState :=
  { s with
    tracker.ppsData :=
      s.tracker.ppsData.upsert (BitVec.ofInt 32 nalu.ppsId) fun old =>
        { old.getD .init with spsId := nalu.spsId } }

def activate (s : TrackState) (sets : ActiveSets) : TrackState :=
  { s with
    header.width := BitVec.ofInt 16 sets.sps.width
    header.height := BitVec.ofInt 16 sets.sps.height
    found := some sets.ids
    appendVpsSpsPps := s.appendVpsSpsPps ||
      (sets.vps.data.isSome && sets.sps.data.isSome && sets.pps.data.isSome) }

def lacksSets (s : TrackState) (nalu : NaluInfo) : Bool :=
  nalu.isKeyFrame && s.header.isFirstPacketInFrame && (s.tracker.activeSets nalu.ppsId).isNone

def receive (s : TrackState) (nalu : NaluInfo) : TrackState :=
  if nalu.type = kVps then s.setVps nalu
  else if nalu.type = kSps then s.setSps nalu
  else if nalu.type = kPps then s.setPps nalu
  else if nalu.isKeyFrame && s.header.isFirstPacketInFrame then
    match s.tracker.activeSets nalu.ppsId with
    | some sets => s.activate sets
    | none => s
  else s

def trackNalus : List NaluInfo → TrackState → TrackState × Bool
  | [], s => (s, false)
  | nalu :: rest, s => if s.lacksSets nalu then (s, true) else trackNalus rest (s.receive nalu)

def appended (s : TrackState) : List UInt8 :=
  match s.found, s.appendVpsSpsPps with
  | some ids, true =>
    let vps := (s.tracker.vpsData.find? ids.vps).getD .init
    let sps := (s.tracker.spsData.find? ids.sps).getD .init
    let pps := (s.tracker.ppsData.find? ids.pps).getD .init
    withStartCodes [(vps.data.getD []).take vps.size, (sps.data.getD []).take sps.size,
      (pps.data.getD []).take pps.size]
  | _, _ => []

/-- The array has room for ten units: with eight or more before, the last write is outside it. -/
def headerWithSets (s : TrackState) : VideoHeader :=
  match s.found, s.appendVpsSpsPps with
  | some ids, true =>
    if s.header.nalus.length + 2 ≤ kMaxNalusPerPacket then
      { s.header with nalus := s.header.nalus ++
          [⟨kVps, ids.vps.toInt, -1, -1⟩, ⟨kSps, ids.vps.toInt, ids.sps.toInt, -1⟩,
            ⟨kPps, ids.vps.toInt, ids.sps.toInt, ids.pps.toInt⟩] }
    else s.header
  | _, _ => s.header

def copied (s : TrackState) (bitstream : List UInt8) : Option (List UInt8) :=
  if s.header.packetizationType = .ap then copySegments 0 bitstream.length (bitstream.drop 1)
  else some ((if s.header.isFirstPacketInFrame then startCode else []) ++ bitstream)

end TrackState

structure Fixed where
  fixed : FixedBitstream
  videoHeader : VideoHeader
  tracker : VpsSpsPpsTracker

def VpsSpsPpsTracker.track (t : VpsSpsPpsTracker) (header : VideoHeader) : TrackState × Bool :=
  TrackState.trackNalus header.nalus ⟨t, header, false, none⟩

def VpsSpsPpsTracker.copyAndFixBitstream (t : VpsSpsPpsTracker) (bitstream : List UInt8)
    (header : VideoHeader) : Fixed :=
  match t.track header with
  | (s, true) => ⟨⟨.requestKeyframe, []⟩, s.header, s.tracker⟩
  | (s, false) =>
    match s.copied bitstream with
    | some rest => ⟨⟨.insert, s.appended ++ rest⟩, s.headerWithSets, s.tracker⟩
    | none => ⟨⟨.drop, []⟩, s.headerWithSets, s.tracker⟩

namespace TrackState

def Incomplete (s : TrackState) (nalus : List NaluInfo) : Prop :=
  ∃ before nalu after, nalus = before ++ nalu :: after ∧ nalu.isKeyFrame ∧
    (before.foldl receive s).tracker.activeSets nalu.ppsId = none

variable {s : TrackState} {nalu : NaluInfo}

@[simp] theorem receive_isFirst :
    (s.receive nalu).header.isFirstPacketInFrame = s.header.isFirstPacketInFrame := by
  unfold receive
  split_ifs <;> first | rfl | (split <;> rfl)

@[simp] theorem receive_packetizationType :
    (s.receive nalu).header.packetizationType = s.header.packetizationType := by
  unfold receive
  split_ifs <;> first | rfl | (split <;> rfl)

variable (nalus : List NaluInfo)

theorem trackNalus_packetizationType :
    (trackNalus nalus s).1.header.packetizationType = s.header.packetizationType := by
  induction nalus generalizing s with
  | nil => rfl
  | cons nalu rest ih =>
    rw [trackNalus]
    split
    · rfl
    · rw [ih, receive_packetizationType]

theorem trackNalus_isFirst :
    (trackNalus nalus s).1.header.isFirstPacketInFrame = s.header.isFirstPacketInFrame := by
  induction nalus generalizing s with
  | nil => rfl
  | cons nalu rest ih =>
    rw [trackNalus]
    split
    · rfl
    · rw [ih, receive_isFirst]

theorem trackNalus_requests_iff (hfirst : s.header.isFirstPacketInFrame = true) :
    (trackNalus nalus s).2 = true ↔ s.Incomplete nalus := by
  induction nalus generalizing s with
  | nil => simp [trackNalus, Incomplete]
  | cons nalu rest ih =>
    have hlacks : s.lacksSets nalu = true ↔
        nalu.isKeyFrame = true ∧ s.tracker.activeSets nalu.ppsId = none := by
      simp [lacksSets, hfirst]
    by_cases hl : s.lacksSets nalu = true
    · rw [trackNalus, if_pos hl]
      exact iff_of_true rfl ⟨[], nalu, rest, rfl, hlacks.mp hl⟩
    · rw [trackNalus, if_neg hl, ih (by rw [receive_isFirst, hfirst])]
      constructor
      · rintro ⟨before, other, after, rfl, hother⟩
        exact ⟨nalu :: before, other, after, rfl, hother⟩
      · rintro ⟨before, other, after, heq, hother⟩
        cases before with
        | nil =>
          obtain ⟨rfl, rfl⟩ := List.cons.inj heq
          exact absurd (hlacks.mpr hother) hl
        | cons first before =>
          obtain ⟨rfl, rfl⟩ := List.cons.inj heq
          exact ⟨before, other, after, rfl, hother⟩

end TrackState

section Aggregation

variable {parsers : Parsers} {payload : List UInt8} {parsed : ParsedRtpPayload}
  {header header' : VideoHeader}

def VideoHeader.SameKind (header header' : VideoHeader) : Prop :=
  header'.isFirstPacketInFrame = header.isFirstPacketInFrame ∧
    header'.packetizationType = header.packetizationType

theorem VideoHeader.sameKind_push (nalu : NaluInfo) : header.SameKind (header.push nalu) := by
  unfold push
  split <;> exact ⟨rfl, rfl⟩

theorem processNalu_sameKind {unit : List UInt8}
    (h : processNalu parsers header unit = some header') : header.SameKind header' := by
  unfold processNalu at h
  split at h
  · cases h
  · simp only at h
    split_ifs at h <;> (try split at h) <;>
      (obtain rfl := Option.some.inj h; exact VideoHeader.sameKind_push _)

variable {units : List (List UInt8)}

theorem foldlM_sameKind
    (h : units.foldlM (processNalu parsers) header = some header') : header.SameKind header' := by
  induction units generalizing header with
  | nil =>
    cases h
    exact ⟨rfl, rfl⟩
  | cons unit rest ih =>
    rw [List.foldlM_cons] at h
    obtain ⟨next, hunit, hrest⟩ := Option.bind_eq_some_iff.mp h
    have hfirst := processNalu_sameKind hunit
    have hnext := ih hrest
    exact ⟨hnext.1.trans hfirst.1, hnext.2.trans hfirst.2⟩

theorem processApOrSingleNalu_eq_some (h : processApOrSingleNalu parsers payload = some parsed) :
    parsed.videoPayload = payload ∧ parsed.videoHeader.isFirstPacketInFrame = true ∧
      parsed.videoHeader.packetizationType =
        (if naluType (payload.headD 0) = kAp then .ap else .singleNalu) ∧
      (naluUnits payload).isSome := by
  obtain ⟨units, hunits, h⟩ := Option.bind_eq_some_iff.mp h
  obtain ⟨header, hheader, h⟩ := Option.bind_eq_some_iff.mp h
  cases h
  have hkind := foldlM_sameKind hheader
  exact ⟨rfl, hkind.1, hkind.2, by rw [hunits]; rfl⟩

theorem naluUnits_ap (hap : naluType (payload.headD 0) = kAp) (h : naluUnits payload = some units) :
    4 < payload.length ∧ payload.drop 2 = lengthPrefixed units := by
  obtain ⟨offsets, hoffsets, rfl⟩ := Option.map_eq_some_iff.mp h
  rw [naluStartOffsets, if_pos hap] at hoffsets
  split at hoffsets
  · cases hoffsets
  · next hlen =>
    have hbefore : (payload.take 2).length + 2 = 0 + 4 := by
      rw [List.length_take]
      omega
    obtain ⟨units, hdrop, -, hranges⟩ := parseStartOffsets_units hoffsets hbefore
    rw [List.take_append_drop] at hranges
    rw [hranges]
    exact ⟨by omega, hdrop⟩

theorem copySegments_ne_units {fuel : Nat} {out : List UInt8}
    (hlen : 4 < payload.length) (hunits : payload.drop 2 = lengthPrefixed units)
    (h : copySegments 0 fuel (payload.drop 1) = some out) : out ≠ withStartCodes units := by
  obtain ⟨segments, hsegments, rfl⟩ := copySegments_units h
  intro heq
  have hlong := congrArg List.length hunits
  have hlong' := congrArg List.length hsegments
  have hout := congrArg List.length heq
  rw [List.length_drop, length_lengthPrefixed] at hlong hlong'
  rw [length_withStartCodes, length_withStartCodes] at hout
  omega

/-- What is expected of an aggregation packet the depacketizer accepted: the tracker does not
drop it, and what it inserts is the units, behind any parameter sets it prepends. -/
def Delivered (t : VpsSpsPpsTracker) (payload : List UInt8) (parsed : ParsedRtpPayload) : Prop :=
  let fixed := (t.copyAndFixBitstream parsed.videoPayload parsed.videoHeader).fixed
  fixed.action ≠ .drop ∧
    (fixed.action = .insert → some fixed.bitstream = (naluUnits payload).map
        ((t.track parsed.videoHeader).1.appended ++ withStartCodes ·))

/-- An aggregation packet is treated as expected exactly if the tracker asks for a key frame. -/
theorem delivered_iff (t : VpsSpsPpsTracker) (hap : naluType (payload.headD 0) = kAp)
    (h : parse parsers payload = some parsed) : Delivered t payload parsed ↔
      TrackState.Incomplete ⟨t, parsed.videoHeader, false, none⟩ parsed.videoHeader.nalus := by
  have hprocess : processApOrSingleNalu parsers payload = some parsed := by
    have hfu : ¬ naluType (payload.headD 0) = kFu := by
      rw [hap]
      decide
    rw [parse] at h
    split at h
    · cases h
    · exact h
  obtain ⟨hpayload, hfirst, hkind, hsome⟩ := processApOrSingleNalu_eq_some hprocess
  obtain ⟨units, hunits⟩ := Option.isSome_iff_exists.mp hsome
  obtain ⟨hlen, hdrop⟩ := naluUnits_ap hap hunits
  rw [if_pos hap] at hkind
  have hrequests := TrackState.trackNalus_requests_iff (s := ⟨t, parsed.videoHeader, false, none⟩)
    parsed.videoHeader.nalus hfirst
  rw [← hrequests, ← VpsSpsPpsTracker.track, Delivered, hpayload, hunits]
  unfold VpsSpsPpsTracker.copyAndFixBitstream
  rcases htrack : t.track parsed.videoHeader with ⟨s, requested⟩
  cases requested with
  | true => simp
  | false =>
    have hap' : s.header.packetizationType = .ap := by
      have hsame := TrackState.trackNalus_packetizationType (s := ⟨t, parsed.videoHeader, false, none⟩)
        parsed.videoHeader.nalus
      rw [← VpsSpsPpsTracker.track, htrack] at hsame
      exact hsame.trans hkind
    have hcopied : s.copied payload = copySegments 0 payload.length (payload.drop 1) := by
      rw [TrackState.copied, if_pos hap']
    cases hcopy : s.copied payload with
    | none => simp [hcopy]
    | some out =>
      have hne := copySegments_ne_units hlen hdrop (hcopied ▸ hcopy)
      simp [hcopy, hne]

def Parsers.failing : Parsers :=
  ⟨fun _ => none, fun _ => none, fun _ => none, fun _ _ => none, fun _ _ => none⟩

theorem delivered_iff_idr_without_pps : Delivered .init [0x60, 1, 0, 2, 0x26, 1]
      ⟨[0x60, 1, 0, 2, 0x26, 1], ⟨0, 0, .key, true, kAp, .ap, [.ofType kIdrWRadl]⟩⟩ :=
  (delivered_iff .init rfl (show parse .failing _ = some _ from rfl)).mpr
    ⟨[], .ofType kIdrWRadl, [], rfl, rfl, rfl⟩

/-- A packet that aggregates the one unit `02 01` is accepted and then dropped. -/
theorem accepted_aggregation_is_dropped : naluUnits [0x60, 1, 0, 2, 2, 1] = some [[2, 1]] ∧
      (parse .failing [0x60, 1, 0, 2, 2, 1]).map (fun parsed =>
        (VpsSpsPpsTracker.init.copyAndFixBitstream parsed.videoPayload parsed.videoHeader).fixed) =
      some ⟨.drop, []⟩ := by
  constructor <;> rfl

end Aggregation

end WebRtc.Rtp.H265
