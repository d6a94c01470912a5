import WebRtc.Lib.OrdMap
import WebRtc.Rtp.NalUnits

/-! The receiving side of H.264: `VideoRtpDepacketizerH264` and `H264SpsPpsTracker`. -/

namespace WebRtc.Rtp.H264

open ByteBuffer List

def kSlice : UInt8 := 1
def kIdr : UInt8 := 5
def kSps : UInt8 := 7
def kPps : UInt8 := 8
def kStapA : UInt8 := 24
def kFuA : UInt8 := 28

def kMaxNalusPerPacket : Nat := 10

def naluType (b : UInt8) : UInt8 := b &&& 0x1F

inductive PacketizationType where
  | singleNalu
  | stapA
  | fuA
deriving DecidableEq, Repr

inductive VideoFrameType where
  | key
  | delta
deriving DecidableEq, Repr

structure NaluInfo where
  type : UInt8
  spsId : Int
  ppsId : Int
deriving DecidableEq, Repr

def NaluInfo.ofType (type : UInt8) : NaluInfo := ⟨type, -1, -1⟩

structure VideoHeader where
  width : BitVec 16
  height : BitVec 16
  frameType : VideoFrameType
  isFirstPacketInFrame : Bool
  naluType : UInt8
  packetizationType : PacketizationType
  nalus : List NaluInfo
deriving DecidableEq, Repr

def VideoHeader.push (header : VideoHeader) (nalu : NaluInfo) : VideoHeader :=
  if header.nalus.length = kMaxNalusPerPacket then header
  else { header with nalus := header.nalus ++ [nalu] }

structure ParsedRtpPayload where
  videoPayload : List UInt8
  videoHeader : VideoHeader
deriving DecidableEq, Repr

structure SpsState where
  id : BitVec 32
  width : BitVec 32
  height : BitVec 32

/-- The parsers of the parameter sets and of slice headers. The rewriter of an SPS has a second
result where it wrote the SPS anew. -/
structure Parsers where
  parseAndRewriteSps : List UInt8 → Option SpsState × Option (List UInt8)
  parsePpsIds : List UInt8 → Option (BitVec 32 × BitVec 32)
  parsePpsIdFromSlice : List UInt8 → Option (BitVec 32)

section Depacketizer

variable (parsers : Parsers)

def withPpsId (ppsId : Option (BitVec 32)) (nalu : NaluInfo) : NaluInfo :=
  match ppsId with
  | some id => { nalu with ppsId := id.toInt }
  | none => nalu

/-- The payload with the SPS between `startOffset` and `endOffset` replaced. What was rewritten
before is lost: the rest is taken from the payload as it came. -/
def replaceSps (payload : List UInt8) (stapA : Bool) (startOffset endOffset : Nat)
    (rewritten : List UInt8) : List UInt8 :=
  let outputBuffer := payload.take startOffset ++ rewritten
  let rewrittenSize := outputBuffer.length - startOffset + 1
  let outputBuffer :=
    if stapA then store16 outputBuffer (startOffset - 3) (BitVec.ofNat 16 rewrittenSize)
    else outputBuffer
  outputBuffer ++ payload.drop endOffset

/-- One round of the loop of `ProcessStapAOrSingleNalu`. -/
def processNalu (payload : List UInt8) (parsed : ParsedRtpPayload) (range : Nat × Nat) :
    Option ParsedRtpPayload :=
  if range.2 - range.1 < 1 then none
  else
    let nalu := NaluInfo.ofType (naluType (payload.getD range.1 0))
    let startOffset := range.1 + 1
    let endOffset := range.2
    let body := subview payload startOffset (endOffset - startOffset)
    let header := parsed.videoHeader
    if nalu.type = kSps then
      let (sps, rewritten) := parsers.parseAndRewriteSps body
      let videoPayload :=
        match rewritten with
        | some rewritten =>
          replaceSps payload (header.packetizationType = .stapA) startOffset endOffset rewritten
        | none => parsed.videoPayload
      match sps with
      | some sps =>
        some ⟨videoPayload, { header with
          width := sps.width.setWidth 16
          height := sps.height.setWidth 16
          frameType := .key }.push { nalu with spsId := sps.id.toInt }⟩
      | none => some ⟨videoPayload, { header with frameType := .key }.push nalu⟩
    else if nalu.type = kPps then
      match parsers.parsePpsIds body with
      | some (ppsId, spsId) =>
        some { parsed with
          videoHeader := header.push { nalu with ppsId := ppsId.toInt, spsId := spsId.toInt } }
      | none => some { parsed with videoHeader := header.push nalu }
    else if nalu.type = kIdr then
      some { parsed with
        videoHeader :=
          { header with frameType := .key }.push (withPpsId (parsers.parsePpsIdFromSlice body) nalu) }
    else if nalu.type = kSlice then
      some { parsed with
        videoHeader := header.push (withPpsId (parsers.parsePpsIdFromSlice body) nalu) }
    else if nalu.type = kStapA ∨ nalu.type = kFuA then none
    else some { parsed with videoHeader := header.push nalu }

def naluStartOffsets (payload : List UInt8) : Option (List Nat) :=
  if naluType (payload.headD 0) = kStapA then
    if payload.length ≤ 3 then none
    else parseStartOffsets 3 payload.length 0 (payload.drop 1)
  else some [0]

def initialHeader (payload : List UInt8) : VideoHeader :=
  let stapA : Bool := naluType (payload.headD 0) = kStapA
  { width := 0
    height := 0
    frameType := .delta
    isFirstPacketInFrame := true
    naluType := naluType (if stapA then payload.getD 3 0 else payload.headD 0)
    packetizationType := if stapA then .stapA else .singleNalu
    nalus := [] }

def processStapAOrSingleNalu (payload : List UInt8) : Option ParsedRtpPayload := do
  let offsets ← naluStartOffsets payload
  (naluRanges (payload.length + 2) offsets).foldlM (processNalu parsers payload)
    ⟨payload, initialHeader payload⟩

def parseFuaNalu (payload : List UInt8) : Option ParsedRtpPayload :=
  if payload.length < 2 then none
  else
    let fnri := payload.getD 0 0 &&& 0xE0
    let originalNalType := payload.getD 1 0 &&& 0x1F
    let firstFragment : Bool := payload.getD 1 0 &&& 0x80 > 0
    let nalu := NaluInfo.ofType originalNalType
    some
      { videoPayload :=
          if firstFragment then (fnri ||| originalNalType) :: payload.drop 2 else payload.drop 2
        videoHeader :=
          { width := 0
            height := 0
            frameType := if originalNalType = kIdr then .key else .delta
            isFirstPacketInFrame := firstFragment
            naluType := originalNalType
            packetizationType := .fuA
            nalus :=
              if firstFragment then
                [withPpsId (parsers.parsePpsIdFromSlice (payload.drop 2)) nalu]
              else [] } }

def parse (payload : List UInt8) : Option ParsedRtpPayload :=
  if payload = [] then none
  else if naluType (payload.headD 0) = kFuA then parseFuaNalu parsers payload
  else processStapAOrSingleNalu parsers payload

end Depacketizer

structure SpsInfo where
  size : Nat
  width : Int
  height : Int
  data : Option (List UInt8)

structure PpsInfo where
  spsId : Int
  size : Nat
  data : Option (List UInt8)

def SpsInfo.init : SpsInfo := ⟨0, -1, -1, none⟩
def PpsInfo.init : PpsInfo := ⟨-1, 0, none⟩

structure SpsPpsTracker where
  spsData : OrdMap (BitVec 32) SpsInfo
  ppsData : OrdMap (BitVec 32) PpsInfo

def SpsPpsTracker.init : SpsPpsTracker := ⟨∅, ∅⟩

inductive PacketAction where
  | insert
  | drop
  | requestKeyframe
deriving DecidableEq, Repr

structure FixedBitstream where
  action : PacketAction
  bitstream : List UInt8
deriving DecidableEq, Repr

structure SetIds where
  sps : BitVec 32
  pps : BitVec 32

structure ActiveSets where
  ids : SetIds
  sps : SpsInfo
  pps : PpsInfo

def SpsPpsTracker.activeSets (t : SpsPpsTracker) (ppsId : Int) : Option ActiveSets :=
  if ppsId = -1 then none
  else do
    let pps ← t.ppsData.find? (BitVec.ofInt 32 ppsId)
    let sps ← t.spsData.find? (BitVec.ofInt 32 pps.spsId)
    return ⟨⟨BitVec.ofInt 32 pps.spsId, BitVec.ofInt 32 ppsId⟩, sps, pps⟩

/-- What the first loop of `CopyAndFixBitstream` works on. The sets found last are kept by their
ids: the entries are read again after the loop. -/
structure TrackState where
  tracker : SpsPpsTracker
  header : VideoHeader
  appendSpsPps : Bool
  found : Option SetIds

namespace TrackState

def setSps (s : TrackState) (nalu : NaluInfo) : TrackState :=
  { s with
    tracker.spsData :=
      s.tracker.spsData.upsert (BitVec.ofInt 32 nalu.spsId) fun old =>
        { old.getD .init with width := s.header.width.toNat, height := s.header.height.toNat } }

def setPps (s : TrackState) (nalu : NaluInfo) : TrackState :=
  { s with
    tracker.ppsData :=
      s.tracker.ppsData.upsert (BitVec.ofInt 32 nalu.ppsId) fun old =>
        { old.getD .init with spsId := nalu.spsId } }

def activate (s : TrackState) (sets : ActiveSets) : TrackState :=
  { s with
    header.width := BitVec.ofInt 16 sets.sps.width
    header.height := BitVec.ofInt 16 sets.sps.height
    found := some sets.ids
    appendSpsPps := s.appendSpsPps || (sets.sps.data.isSome && sets.pps.data.isSome) }

def lacksSets (s : TrackState) (nalu : NaluInfo) : Bool :=
  nalu.type = kIdr && s.header.isFirstPacketInFrame && (s.tracker.activeSets nalu.ppsId).isNone

def receive (s : TrackState) (nalu : NaluInfo) : TrackState :=
  if nalu.type = kSps then s.setSps nalu
  else if nalu.type = kPps then s.setPps nalu
  else if nalu.type = kIdr && s.header.isFirstPacketInFrame then
    match s.tracker.activeSets nalu.ppsId with
    | some sets => s.activate sets
    | none => s
  else s

def trackNalus : List NaluInfo → TrackState → TrackState × Bool
  | [], s => (s, false)
  | nalu :: rest, s => if s.lacksSets nalu then (s, true) else trackNalus rest (s.receive nalu)

def appended (s : TrackState) : List UInt8 :=
  match s.found, s.appendSpsPps with
  | some ids, true =>
    let sps := (s.tracker.spsData.find? ids.sps).getD .init
    let pps := (s.tracker.ppsData.find? ids.pps).getD .init
    withStartCodes [(sps.data.getD []).take sps.size, (pps.data.getD []).take pps.size]
  | _, _ => []

def headerWithSets (s : TrackState) : VideoHeader :=
  match s.found, s.appendSpsPps with
  | some ids, true =>
    if s.header.nalus.length + 2 ≤ kMaxNalusPerPacket then
      { s.header with nalus := s.header.nalus ++
          [⟨kSps, ids.sps.toInt, -1⟩, ⟨kPps, ids.sps.toInt, ids.pps.toInt⟩] }
    else s.header
  | _, _ => s.header

def copied (s : TrackState) (bitstream : List UInt8) : Option (List UInt8) :=
  if s.header.packetizationType = .stapA then copySegments 1 bitstream.length (bitstream.drop 1)
  else some ((if s.headerWithSets.nalus.length > 0 then startCode else []) ++ bitstream)

end TrackState

open VideoHeader TrackState

structure Fixed where
  fixed : FixedBitstream
  videoHeader : VideoHeader
  tracker : SpsPpsTracker

def SpsPpsTracker.track (t : SpsPpsTracker) (header : VideoHeader) : TrackState × Bool :=
  TrackState.trackNalus header.nalus ⟨t, header, false, none⟩

def SpsPpsTracker.copyAndFixBitstream (t : SpsPpsTracker) (bitstream : List UInt8)
    (header : VideoHeader) : Fixed :=
  match t.track header with
  | (s, true) => ⟨⟨.requestKeyframe, []⟩, s.header, s.tracker⟩
  | (s, false) =>
    match s.copied bitstream with
    | some rest => ⟨⟨.insert, s.appended ++ rest⟩, s.headerWithSets, s.tracker⟩
    | none => ⟨⟨.drop, []⟩, s.headerWithSets, s.tracker⟩

def deliver (parsers : Parsers) (t : SpsPpsTracker) :
    List (List UInt8) → Option (List FixedBitstream)
  | [] => some []
  | payload :: rest => do
    let parsed ← parse parsers payload
    let fixed := t.copyAndFixBitstream parsed.videoPayload parsed.videoHeader
    let others ← deliver parsers fixed.tracker rest
    return fixed.fixed :: others

section Tracking

def SpsPpsTracker.InBand (t : SpsPpsTracker) : Prop :=
  ∀ id sps, t.spsData.find? id = some sps → sps.data = none

theorem SpsPpsTracker.inBand_init : SpsPpsTracker.init.InBand := by
  intro id sps h
  simp [SpsPpsTracker.init] at h

structure TrackState.InBand (s : TrackState) : Prop where
  tracker : s.tracker.InBand
  append : s.appendSpsPps = false

variable {t : SpsPpsTracker}

theorem SpsPpsTracker.InBand.activeSets (h : t.InBand) {ppsId : Int}
    {sets : ActiveSets} (hsets : t.activeSets ppsId = some sets) : sets.sps.data = none := by
  unfold SpsPpsTracker.activeSets at hsets
  split at hsets
  · cases hsets
  · obtain ⟨pps, -, hsets⟩ := Option.bind_eq_some_iff.mp hsets
    obtain ⟨sps, hsps, hsets⟩ := Option.bind_eq_some_iff.mp hsets
    cases hsets
    exact h _ sps hsps

def VideoHeader.SameShape (header header' : VideoHeader) : Prop :=
  header'.packetizationType = header.packetizationType ∧ header'.nalus = header.nalus

theorem TrackState.receive_sameShape (s : TrackState) (nalu : NaluInfo) :
    s.header.SameShape (s.receive nalu).header := by
  unfold receive
  split_ifs <;> first | exact ⟨rfl, rfl⟩ | (split <;> exact ⟨rfl, rfl⟩)

theorem TrackState.InBand.receive {s : TrackState} (h : s.InBand) (nalu : NaluInfo) :
    (s.receive nalu).InBand := by
  unfold TrackState.receive
  split_ifs
  · refine ⟨?_, h.append⟩
    intro id sps hfind
    simp only [TrackState.setSps, OrdMap.find?_upsert] at hfind
    split at hfind
    · cases hfind
      cases hold : s.tracker.spsData.find? (BitVec.ofInt 32 nalu.spsId) with
      | none => rfl
      | some old => exact h.tracker _ old hold
    · exact h.tracker id sps hfind
  · exact ⟨h.tracker, h.append⟩
  · split
    · next sets hsets =>
      refine ⟨h.tracker, ?_⟩
      simp [TrackState.activate, h.append, h.tracker.activeSets hsets]
    · exact h
  · exact h

theorem TrackState.InBand.trackNalus {s : TrackState} (h : s.InBand) (nalus : List NaluInfo) :
    (TrackState.trackNalus nalus s).1.InBand ∧
      s.header.SameShape (TrackState.trackNalus nalus s).1.header := by
  induction nalus generalizing s with
  | nil => exact ⟨h, rfl, rfl⟩
  | cons nalu rest ih =>
    rw [TrackState.trackNalus]
    split
    · exact ⟨h, rfl, rfl⟩
    · obtain ⟨hin, hkind, hnalus⟩ := ih (h.receive nalu)
      obtain ⟨hkind', hnalus'⟩ := s.receive_sameShape nalu
      exact ⟨hin, hkind.trans hkind', hnalus.trans hnalus'⟩

def addedBytes (payload : List UInt8) (header : VideoHeader) : Option (List UInt8) :=
  if header.packetizationType = .stapA then copySegments 1 payload.length (payload.drop 1)
  else some ((if header.nalus.length > 0 then startCode else []) ++ payload)

theorem copyAndFixBitstream_bitstream (payload : List UInt8) (h : t.InBand) (header : VideoHeader) :
    (t.copyAndFixBitstream payload header).tracker.InBand ∧
      ((t.copyAndFixBitstream payload header).fixed.action = .insert →
        some (t.copyAndFixBitstream payload header).fixed.bitstream = addedBytes payload header) := by
  have hstate : TrackState.InBand ⟨t, header, false, none⟩ := ⟨h, rfl⟩
  obtain ⟨hin, hkind, hnalus⟩ := hstate.trackNalus header.nalus
  rw [← SpsPpsTracker.track] at hin hkind hnalus
  unfold SpsPpsTracker.copyAndFixBitstream
  rcases htrack : t.track header with ⟨s, requested⟩
  rw [htrack] at hin hkind hnalus
  cases requested with
  | true => exact ⟨hin.tracker, fun haction => by cases haction⟩
  | false =>
    have happended : s.appended = [] := by
      unfold appended
      rw [hin.append]
      cases s.found <;> rfl
    have hheader : s.headerWithSets = s.header := by
      unfold headerWithSets
      rw [hin.append]
      cases s.found <;> rfl
    have hcopied : s.copied payload = addedBytes payload header := by
      rw [copied, addedBytes, hheader, hkind, hnalus]
    simp only [hcopied, happended, nil_append]
    cases addedBytes payload header with
    | none => exact ⟨hin.tracker, fun haction => by cases haction⟩
    | some bytes => exact ⟨hin.tracker, fun _ => rfl⟩

def Yields (parsers : Parsers) (payload bytes : List UInt8) : Prop :=
  ∃ parsed, parse parsers payload = some parsed ∧
    addedBytes parsed.videoPayload parsed.videoHeader = some bytes

theorem deliver_of_yields {parsers : Parsers} {payloads outs : List (List UInt8)}
    (h : List.Forall₂ (Yields parsers) payloads outs) (hin : t.InBand) :
    ∃ fixed, deliver parsers t payloads = some fixed ∧
      ((∀ f ∈ fixed, f.action = .insert) → (fixed.map (·.bitstream)).flatten = outs.flatten) := by
  induction h generalizing t with
  | nil => exact ⟨[], rfl, fun _ => rfl⟩
  | @cons payload bytes payloads outs hyields hrest ih =>
    obtain ⟨parsed, hparse, hbytes⟩ := hyields
    obtain ⟨hin', hbitstream⟩ :=
      copyAndFixBitstream_bitstream parsed.videoPayload hin parsed.videoHeader
    obtain ⟨fixed, hfixed, hout⟩ := ih hin'
    have hdeliver : deliver parsers t (payload :: payloads) =
        some ((t.copyAndFixBitstream parsed.videoPayload parsed.videoHeader).fixed :: fixed) := by
      rw [deliver, hparse]
      simp only [Option.bind_eq_bind, Option.bind_some, hfixed]
      rfl
    refine ⟨_, hdeliver, ?_⟩
    intro hinsert
    have hfirst := hbitstream (hinsert _ mem_cons_self)
    rw [hbytes] at hfirst
    rw [map_cons, flatten_cons, flatten_cons, Option.some.inj hfirst,
      hout fun f hf => hinsert f (mem_cons_of_mem _ hf)]

end Tracking

section Accepting

variable {parsers : Parsers} {payload : List UInt8}

def Parsers.KeepsSps (parsers : Parsers) : Prop :=
  ∀ body rewritten, (parsers.parseAndRewriteSps body).2 = some rewritten → rewritten = body

theorem replaceSps_self {stapA : Bool} {startOffset endOffset : Nat} (hle : startOffset ≤ endOffset)
    (hend : endOffset ≤ payload.length) (hfield : stapA = true → 3 ≤ startOffset ∧
      subview payload (startOffset - 3) 2 = bigEndian16 (BitVec.ofNat 16 (endOffset - startOffset + 1))) :
    replaceSps payload stapA startOffset endOffset
      (subview payload startOffset (endOffset - startOffset)) = payload := by
  have hbuffer : payload.take startOffset ++ subview payload startOffset (endOffset - startOffset) =
      payload.take endOffset := by
    rw [subview, ← take_add, Nat.add_sub_cancel' hle]
  have hlen : (payload.take endOffset).length = endOffset := length_take_of_le hend
  simp only [replaceSps, hbuffer, hlen]
  cases stapA with
  | false => exact take_append_drop endOffset payload
  | true =>
    obtain ⟨hstart, hbytes⟩ := hfield rfl
    have hstore : store16 (payload.take endOffset) (startOffset - 3)
        (BitVec.ofNat 16 (endOffset - startOffset + 1)) = payload.take endOffset := by
      apply store_eq_self
      rw [length_bigEndian16, ← hbytes, subview, drop_take, take_take]
      congr 1
      omega
    simp only [if_true, hstore]
    exact take_append_drop endOffset payload

theorem VideoHeader.push_ne_nil (header : VideoHeader) (nalu : NaluInfo) :
    (header.push nalu).nalus ≠ [] ∧
      (header.push nalu).packetizationType = header.packetizationType := by
  unfold push
  split
  · next h =>
    refine ⟨?_, rfl⟩
    intro hnil
    rw [hnil] at h
    cases h
  · exact ⟨by simp, rfl⟩

structure IsUnit (nalu : List UInt8) : Prop where
  ne_nil : nalu ≠ []
  not_stapA : naluType (nalu.headD 0) ≠ kStapA
  not_fuA : naluType (nalu.headD 0) ≠ kFuA

variable {parsed : ParsedRtpPayload}

theorem processNalu_spec (hkeeps : parsers.KeepsSps)
    (hparsed : parsed.videoPayload = payload) {range : Nat × Nat} (hlt : range.1 < range.2)
    (hstapA : naluType (payload.getD range.1 0) ≠ kStapA)
    (hfuA : naluType (payload.getD range.1 0) ≠ kFuA)
    (hself : replaceSps payload (parsed.videoHeader.packetizationType = .stapA) (range.1 + 1) range.2
      (subview payload (range.1 + 1) (range.2 - (range.1 + 1))) = payload) :
    ∃ parsed', processNalu parsers payload parsed range = some parsed' ∧
      parsed'.videoPayload = payload ∧
      parsed'.videoHeader.packetizationType = parsed.videoHeader.packetizationType ∧
      parsed'.videoHeader.nalus ≠ [] := by
  unfold processNalu
  rw [if_neg (by omega)]
  dsimp only
  split
  · have hpayload : (match (parsers.parseAndRewriteSps (subview payload (range.1 + 1)
          (range.2 - (range.1 + 1)))).2 with
        | some rewritten => replaceSps payload
            (parsed.videoHeader.packetizationType = .stapA) (range.1 + 1) range.2 rewritten
        | none => parsed.videoPayload) = payload := by
      split
      · next rewritten hrewritten =>
        obtain rfl := hkeeps _ rewritten hrewritten
        exact hself
      · exact hparsed
    split <;> exact ⟨⟨_, _⟩, rfl, hpayload, (push_ne_nil _ _).2, (push_ne_nil _ _).1⟩
  split
  · split <;> exact ⟨_, rfl, hparsed, (push_ne_nil _ _).2, (push_ne_nil _ _).1⟩
  split
  · exact ⟨_, rfl, hparsed, (push_ne_nil _ _).2, (push_ne_nil _ _).1⟩
  split
  · exact ⟨_, rfl, hparsed, (push_ne_nil _ _).2, (push_ne_nil _ _).1⟩
  split
  · next h => exact absurd h (not_or.mpr ⟨hstapA, hfuA⟩)
  · exact ⟨_, rfl, hparsed, (push_ne_nil _ _).2, (push_ne_nil _ _).1⟩

theorem parse_eq (hne : payload ≠ []) (hfuA : naluType (payload.headD 0) ≠ kFuA) {offsets : List Nat}
    (hoffsets : naluStartOffsets payload = some offsets) :
    parse parsers payload = (naluRanges (payload.length + 2) offsets).foldlM
      (processNalu parsers payload) ⟨payload, initialHeader payload⟩ := by
  rw [parse, if_neg hne, if_neg hfuA, processStapAOrSingleNalu, hoffsets, Option.bind_eq_bind,
    Option.bind_some]

theorem yields_nalu (hkeeps : parsers.KeepsSps) {nalu : List UInt8} (hunit : IsUnit nalu) :
    Yields parsers nalu (startCode ++ nalu) := by
  have hpos := length_pos_iff.mpr hunit.ne_nil
  have hhead : nalu.getD 0 0 = nalu.headD 0 := by cases nalu <;> rfl
  have hself : replaceSps nalu false (0 + 1) nalu.length
      (subview nalu (0 + 1) (nalu.length - (0 + 1))) = nalu :=
    replaceSps_self (by omega) le_rfl (by simp)
  have hstapA : naluType (nalu.getD 0 0) ≠ kStapA := by
    rw [hhead]
    exact hunit.not_stapA
  have hfuA : naluType (nalu.getD 0 0) ≠ kFuA := by
    rw [hhead]
    exact hunit.not_fuA
  have hoffsets : naluStartOffsets nalu = some [0] := by
    rw [naluStartOffsets, if_neg hunit.not_stapA]
  have hkind : (initialHeader nalu).packetizationType = .singleNalu := by
    simp only [initialHeader, hunit.not_stapA, decide_false]
    rfl
  obtain ⟨parsed, hstep, hpayload, hkind', hnalus⟩ := processNalu_spec hkeeps
    (show (ParsedRtpPayload.mk nalu (initialHeader nalu)).videoPayload = nalu from rfl)
    (show (0, nalu.length).1 < (0, nalu.length).2 from hpos) hstapA hfuA
    (by simpa [hkind] using hself)
  refine ⟨parsed, ?_, ?_⟩
  · rw [parse_eq hunit.ne_nil hunit.not_fuA hoffsets, naluRanges, Nat.add_sub_cancel,
      foldlM_cons, hstep]
    rfl
  · rw [addedBytes, hkind', hkind, hpayload, if_neg (by decide),
      if_pos (length_pos_iff.mpr hnalus)]

variable {units : List (List UInt8)}

theorem foldlM_processNalu (hkeeps : parsers.KeepsSps) {before : List UInt8} (hbefore : before ≠ [])
    (hunits : ∀ unit ∈ units, IsUnit unit) (hlen : ∀ unit ∈ units, unit.length < 65536)
    (hpayload : payload = before ++ lengthPrefixed units) (hparsed : parsed.videoPayload = payload)
    (hkind : parsed.videoHeader.packetizationType = .stapA) :
    ∃ parsed', (prefixedRanges before.length units).foldlM (processNalu parsers payload) parsed =
        some parsed' ∧
      parsed'.videoPayload = payload ∧ parsed'.videoHeader.packetizationType = .stapA := by
  induction units generalizing before parsed with
  | nil => exact ⟨parsed, rfl, hparsed, hkind⟩
  | cons unit rest ih =>
    have hunit := hunits unit mem_cons_self
    have hpos := length_pos_iff.mpr hunit.ne_nil
    have hpos' := length_pos_iff.mpr hbefore
    rw [lengthPrefixed_cons] at hpayload
    have hsplit : payload = (before ++ bigEndian16 (BitVec.ofNat 16 unit.length) ++ unit) ++
        lengthPrefixed rest := by
      rw [hpayload]
      simp only [append_assoc]
    have hbeforeLen : (before ++ bigEndian16 (BitVec.ofNat 16 unit.length) ++ unit).length =
        before.length + 2 + unit.length := by
      simp only [length_append, length_bigEndian16]
    have hfirst : payload.getD (before.length + 2) 0 = unit.headD 0 := by
      obtain ⟨u, us, rfl⟩ := exists_cons_of_ne_nil hunit.ne_nil
      have hlen' : (before ++ bigEndian16 (BitVec.ofNat 16 (u :: us).length)).length =
          before.length + 2 := by
        rw [length_append, length_bigEndian16]
      rw [hpayload, ← append_assoc, getD_eq_getElem?_getD,
        List.getElem?_append_right hlen'.le, hlen', Nat.sub_self]
      rfl
    have hfield : subview payload (before.length + 2 + 1 - 3) 2 =
        bigEndian16 (BitVec.ofNat 16
          (before.length + 2 + unit.length - (before.length + 2 + 1) + 1)) := by
      have hsize : before.length + 2 + unit.length - (before.length + 2 + 1) + 1 = unit.length := by
        omega
      rw [hsize, hpayload, subview, drop_left' (by omega),
        take_left' (length_bigEndian16 _)]
    have hself : replaceSps payload true (before.length + 2 + 1) (before.length + 2 + unit.length)
        (subview payload (before.length + 2 + 1)
          (before.length + 2 + unit.length - (before.length + 2 + 1))) = payload :=
      replaceSps_self (by omega) (by rw [hsplit, length_append]; omega)
        (fun _ => ⟨by omega, hfield⟩)
    obtain ⟨next, hnext, hnextPayload, hnextKind, -⟩ := processNalu_spec hkeeps hparsed
      (show (before.length + 2, before.length + 2 + unit.length).1 <
        (before.length + 2, before.length + 2 + unit.length).2 by simpa using hpos)
      (by rw [hfirst]; exact hunit.not_stapA) (by rw [hfirst]; exact hunit.not_fuA)
      (by simpa [hkind] using hself)
    obtain ⟨parsed', hfold, hpayload', hkind'⟩ := ih
      (show before ++ bigEndian16 (BitVec.ofNat 16 unit.length) ++ unit ≠ [] by simp [hbefore])
      (fun other h => hunits other (mem_cons_of_mem _ h))
      (fun other h => hlen other (mem_cons_of_mem _ h)) hsplit hnextPayload
      (hnextKind.trans hkind)
    rw [hbeforeLen] at hfold
    refine ⟨parsed', ?_, hpayload', hkind'⟩
    rw [prefixedRanges, foldlM_cons, hnext]
    exact hfold

theorem yields_stapA (hkeeps : parsers.KeepsSps) {header : UInt8}
    (hheader : naluType header = kStapA) (hne : units ≠ []) (hunits : ∀ unit ∈ units, IsUnit unit)
    (hlen : ∀ unit ∈ units, unit.length < 65536) :
    Yields parsers (header :: lengthPrefixed units) (withStartCodes units) := by
  have hlong : 3 ≤ (lengthPrefixed units).length := by
    obtain ⟨unit, rest, rfl⟩ := exists_cons_of_ne_nil hne
    have hpos := length_pos_iff.mpr (hunits unit mem_cons_self).ne_nil
    rw [lengthPrefixed_cons, length_append, length_append, length_bigEndian16]
    omega
  have hcount : units.length ≤ (header :: lengthPrefixed units).length := by
    rw [length_cons, length_lengthPrefixed]
    omega
  have hoffsets : naluStartOffsets (header :: lengthPrefixed units) =
      some ((prefixedRanges 1 units).map Prod.fst) := by
    rw [naluStartOffsets, headD_cons, if_pos hheader, if_neg (by simp; omega)]
    exact parseStartOffsets_lengthPrefixed hlen hcount rfl
  have hranges : naluRanges ((header :: lengthPrefixed units).length + 2)
      ((prefixedRanges 1 units).map Prod.fst) = prefixedRanges 1 units := by
    rw [length_cons, Nat.add_comm _ 1]
    exact naluRanges_prefixedRanges 1 units
  have hkind : (initialHeader (header :: lengthPrefixed units)).packetizationType = .stapA := by
    simp only [initialHeader, headD_cons, hheader, decide_true]
    rfl
  have hfuA : naluType ((header :: lengthPrefixed units).headD 0) ≠ kFuA := by
    rw [headD_cons, hheader]
    decide
  obtain ⟨parsed, hfold, hpayload, hkind'⟩ := foldlM_processNalu hkeeps
    (cons_ne_nil header []) hunits hlen
    (show header :: lengthPrefixed units = [header] ++ lengthPrefixed units from rfl)
    (show (ParsedRtpPayload.mk (header :: lengthPrefixed units) _).videoPayload = _ from rfl) hkind
  refine ⟨parsed, ?_, ?_⟩
  · rw [parse_eq (cons_ne_nil _ _) hfuA hoffsets, hranges]
    exact hfold
  · rw [addedBytes, hkind', hpayload, if_pos rfl]
    exact copySegments_lengthPrefixed hlen le_rfl hcount

def fuIndicator (header : UInt8) : UInt8 := header &&& 0xE0 ||| kFuA

def fuHeader (header : UInt8) (first last : Bool) : UInt8 :=
  (if first then 0x80 else 0) ||| (if last then 0x40 else 0) ||| header &&& 0x1F

theorem naluType_fuIndicator (header : UInt8) : naluType (fuIndicator header) = kFuA := by
  have h : ∀ b : BitVec 8, naluType (fuIndicator ⟨b⟩) = kFuA := by decide
  exact h header.toBitVec

theorem fuHeader_first (header : UInt8) (first last : Bool) :
    decide (fuHeader header first last &&& 0x80 > 0) = first := by
  have h : ∀ (b : BitVec 8) first last, decide (fuHeader ⟨b⟩ first last &&& 0x80 > 0) = first := by
    decide
  exact h header.toBitVec first last

theorem fuHeader_restores (header : UInt8) (first last : Bool) :
    fuIndicator header &&& 0xE0 ||| fuHeader header first last &&& 0x1F = header := by
  have h : ∀ (b : BitVec 8) first last,
      fuIndicator ⟨b⟩ &&& 0xE0 ||| fuHeader ⟨b⟩ first last &&& 0x1F = ⟨b⟩ := by
    decide
  exact h header.toBitVec first last

theorem yields_fuA (header : UInt8) (piece : List UInt8) (first last : Bool) :
    Yields parsers (fuIndicator header :: fuHeader header first last :: piece)
      (if first then startCode ++ header :: piece else piece) := by
  have hparse : parse parsers (fuIndicator header :: fuHeader header first last :: piece) =
      parseFuaNalu parsers (fuIndicator header :: fuHeader header first last :: piece) := by
    rw [parse, if_neg (cons_ne_nil _ _), headD_cons, if_pos (naluType_fuIndicator header)]
  have hlen : ¬ (fuIndicator header :: fuHeader header first last :: piece).length < 2 := by
    simp only [length_cons]
    omega
  rw [Yields, hparse, parseFuaNalu, if_neg hlen]
  refine ⟨_, rfl, ?_⟩
  simp only [addedBytes, getD_cons_zero, getD_cons_succ, fuHeader_first,
    fuHeader_restores, drop_succ_cons, drop_zero]
  cases first <;> rfl

end Accepting

end WebRtc.Rtp.H264
