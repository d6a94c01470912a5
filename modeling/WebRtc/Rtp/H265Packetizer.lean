import WebRtc.Rtp.Fragments
import WebRtc.Rtp.H265Depacketizer

/-! `RtpPacketizerH265`, and that what it sends comes out of the depacketizer and the tracker as
the units that went in. `PacketizeAp` is never called, so no unit of the queue is aggregated. -/

namespace WebRtc.Rtp.H265

open TrackState VpsSpsPpsTracker

open ByteBuffer List Option

structure PacketUnit where
  sourceFragment : List UInt8
  firstFragment : Bool
  lastFragment : Bool
  header : BitVec 16
deriving DecidableEq, Repr

section Packetizer

variable (limits : PayloadSizeLimits) (count index : Nat) (fragment : List UInt8)

def fuLimits : PayloadSizeLimits := fragmentLimits limits count index 3

def packetizeFu : Option (List PacketUnit) := do
  let payloadSizes ← splitAboutEqually ((fragment.length : Int) - 2) (fuLimits limits count index)
  if payloadSizes = [] then return []
  else if (∀ packetLength ∈ payloadSizes, 0 < packetLength) ∧
      payloadSizes.sum = (fragment.length : Int) - 2 then
    return (markEnds true (cut payloadSizes (fragment.drop 2))).map fun piece =>
      ⟨piece.1, piece.2.1, piece.2.2, load16 fragment 0⟩
  else none

def packetizeSingleNalu : Option (List PacketUnit) :=
  let payloadSizeLeft := toSizeT (limits.maxPayloadLen - packetReduction limits count index)
  if payloadSizeLeft < fragment.length then some []
  else if fragment = [] then none
  else some [⟨fragment, true, true, (fragment.headD 0).toBitVec.setWidth 16⟩]

def packetizeFragment : Option (List PacketUnit) :=
  if (fragment.length : Int) > limits.maxPayloadLen - packetReduction limits count index then
    packetizeFu limits count index fragment
  else packetizeSingleNalu limits count index fragment

/-- The loop of `GeneratePackets`, for the fragments from `index` on. What the two helpers return
is not looked at. -/
def generatePackets (index : Nat) : List (List UInt8) → Option (List PacketUnit)
  | [] => some []
  | fragment :: rest => do
    let units ← packetizeFragment limits count index fragment
    let others ← generatePackets (index + 1) rest
    return units ++ others

end Packetizer

structure RtpPayload where
  payload : List UInt8
  marker : Bool
deriving DecidableEq, Repr

def fuPayloadHdrH (payloadHdrH : BitVec 8) : UInt8 :=
  ⟨(payloadHdrH &&& 0x81) ||| (49 <<< 1) ||| (payloadHdrH &&& 0x1)⟩

def fuHeader (payloadHdrH : BitVec 8) (first last : Bool) : UInt8 :=
  ⟨(if first then 0x80 else 0) ||| (if last then 0x40 else 0) ||| ((payloadHdrH &&& 0x7E) >>> 1)⟩

def PacketUnit.fuPayload (unit : PacketUnit) : List UInt8 :=
  let payloadHdrH : BitVec 8 := unit.header.extractLsb' 8 8
  let payloadHdrL : BitVec 8 := unit.header.extractLsb' 0 8
  fuPayloadHdrH payloadHdrH :: ⟨payloadHdrL⟩ ::
    fuHeader payloadHdrH unit.firstFragment unit.lastFragment :: unit.sourceFragment

def PacketUnit.payload (unit : PacketUnit) : List UInt8 :=
  if unit.firstFragment && unit.lastFragment then unit.sourceFragment else unit.fuPayload

/-- `NextPacket` until the queue is empty, each time into a packet with room for `freeCapacity`
bytes. Without a result if a payload cannot be allocated. -/
def nextPackets (freeCapacity : Nat) : List PacketUnit → Option (List RtpPayload)
  | [] => some []
  | unit :: rest =>
    if unit.payload.length ≤ freeCapacity then
      (nextPackets freeCapacity rest).map (⟨unit.payload, rest.isEmpty⟩ :: ·)
    else none

def packetize (freeCapacity : Nat) (limits : PayloadSizeLimits) (payload : List UInt8) :
    Option (List RtpPayload) := do
  let fragments := inputFragments payload
  let units ← generatePackets limits fragments.length 0 fragments
  nextPackets freeCapacity units

def deliver (parsers : Parsers) (t : VpsSpsPpsTracker) :
    List (List UInt8) → Option (List FixedBitstream)
  | [] => some []
  | payload :: rest => do
    let parsed ← parse parsers payload
    let fixed := t.copyAndFixBitstream parsed.videoPayload parsed.videoHeader
    let others ← deliver parsers fixed.tracker rest
    return fixed.fixed :: others

section Tracking

def VpsSpsPpsTracker.InBand (t : VpsSpsPpsTracker) : Prop :=
  ∀ id vps, t.vpsData.find? id = some vps → vps.data = none

theorem VpsSpsPpsTracker.inBand_init : init.InBand := by
  intro id vps h
  simp [init] at h

structure TrackState.InBand (s : TrackState) : Prop where
  tracker : s.tracker.InBand
  append : s.appendVpsSpsPps = false

theorem VpsSpsPpsTracker.InBand.activeSets {t : VpsSpsPpsTracker} (h : t.InBand) {ppsId : Int}
    {sets : ActiveSets} (hsets : t.activeSets ppsId = some sets) : sets.vps.data = none := by
  unfold VpsSpsPpsTracker.activeSets at hsets
  split at hsets
  · cases hsets
  · obtain ⟨pps, -, hsets⟩ := bind_eq_some_iff.mp hsets
    obtain ⟨sps, -, hsets⟩ := bind_eq_some_iff.mp hsets
    obtain ⟨vps, hvps, hsets⟩ := bind_eq_some_iff.mp hsets
    cases hsets
    exact h _ vps hvps

theorem TrackState.InBand.receive {s : TrackState} (h : s.InBand) (nalu : NaluInfo) :
    (s.receive nalu).InBand := by
  unfold TrackState.receive
  split_ifs
  · refine ⟨?_, h.append⟩
    intro id vps hfind
    simp only [TrackState.setVps, OrdMap.find?_upsert] at hfind
    split at hfind
    · cases hfind
      cases hold : s.tracker.vpsData.find? (BitVec.ofInt 32 nalu.vpsId) with
      | none => rfl
      | some old => exact h.tracker _ old hold
    · exact h.tracker id vps hfind
  · exact ⟨h.tracker, h.append⟩
  · exact ⟨h.tracker, h.append⟩
  · split
    · next sets hsets =>
      refine ⟨h.tracker, ?_⟩
      simp [TrackState.activate, h.append, h.tracker.activeSets hsets]
    · exact h
  · exact h

theorem TrackState.InBand.trackNalus {s : TrackState} (h : s.InBand) (nalus : List NaluInfo) :
    (TrackState.trackNalus nalus s).1.InBand := by
  induction nalus generalizing s with
  | nil => exact h
  | cons nalu rest ih =>
    rw [TrackState.trackNalus]
    split
    · exact h
    · exact ih (h.receive nalu)

variable {parsers : Parsers} {payload : List UInt8} {parsed : ParsedRtpPayload}
  {t : VpsSpsPpsTracker}

theorem copyAndFixBitstream_eq (t : VpsSpsPpsTracker) (payload : List UInt8)
    {header : VideoHeader} (hkind : header.packetizationType ≠ .ap) :
    (t.copyAndFixBitstream payload header).tracker = (t.track header).1.tracker ∧
      (t.copyAndFixBitstream payload header).fixed =
        if (t.track header).2 then ⟨.requestKeyframe, []⟩
        else ⟨.insert, (t.track header).1.appended ++
          ((if header.isFirstPacketInFrame then startCode else []) ++ payload)⟩ := by
  have hsame := trackNalus_packetizationType (s := ⟨t, header, false, none⟩) header.nalus
  have hfirst := trackNalus_isFirst (s := ⟨t, header, false, none⟩) header.nalus
  rw [← track] at hsame hfirst
  unfold copyAndFixBitstream
  rcases htrack : t.track header with ⟨s, requested⟩
  rw [htrack] at hsame hfirst
  cases requested with
  | true => exact ⟨rfl, rfl⟩
  | false =>
    have hap : ¬ s.header.packetizationType = .ap := by rwa [hsame]
    simp only [copied, if_neg hap]
    exact ⟨trivial, by rw [hfirst]; rfl⟩

theorem copyAndFixBitstream_insert (payload : List UInt8) {header : VideoHeader}
    (hkind : header.packetizationType ≠ .ap)
    (haction : (t.copyAndFixBitstream payload header).fixed.action = .insert) :
    (t.copyAndFixBitstream payload header).fixed.bitstream = (t.track header).1.appended ++
      ((if header.isFirstPacketInFrame then startCode else []) ++ payload) := by
  rw [(copyAndFixBitstream_eq t payload hkind).2] at haction ⊢
  cases hrequested : (t.track header).2 with
  | true =>
    rw [hrequested] at haction
    cases haction
  | false => rfl

theorem TrackState.appended_eq_nil {s : TrackState} (h : s.appendVpsSpsPps = false) :
    s.appended = [] := by
  rw [appended, h]
  cases s.found <;> rfl

theorem VpsSpsPpsTracker.InBand.appended (h : t.InBand) (header : VideoHeader) :
    (t.track header).1.InBand ∧ (t.track header).1.appended = [] := by
  have hstate : TrackState.InBand ⟨t, header, false, none⟩ := ⟨h, rfl⟩
  have hin := hstate.trackNalus header.nalus
  exact ⟨hin, appended_eq_nil hin.append⟩

theorem copyAndFixBitstream_bitstream (payload : List UInt8) (h : t.InBand)
    {header : VideoHeader} (hkind : header.packetizationType ≠ .ap) :
    (t.copyAndFixBitstream payload header).tracker.InBand ∧
      ((t.copyAndFixBitstream payload header).fixed.action = .insert →
        (t.copyAndFixBitstream payload header).fixed.bitstream =
          (if header.isFirstPacketInFrame then startCode else []) ++ payload) := by
  obtain ⟨hin, happended⟩ := h.appended header
  rw [(copyAndFixBitstream_eq t payload hkind).1]
  refine ⟨hin.tracker, fun haction => ?_⟩
  rw [copyAndFixBitstream_insert payload hkind haction, happended, nil_append]

/-- The packet is accepted and, unless a key frame is requested, adds `bytes`. -/
def Yields (parsers : Parsers) (payload bytes : List UInt8) : Prop :=
  ∃ parsed, parse parsers payload = some parsed ∧
    parsed.videoHeader.packetizationType ≠ .ap ∧
    bytes = (if parsed.videoHeader.isFirstPacketInFrame then startCode else []) ++
      parsed.videoPayload

theorem deliver_of_yields {payloads outs : List (List UInt8)}
    (h : List.Forall₂ (Yields parsers) payloads outs) (hin : t.InBand) :
    ∃ fixed, deliver parsers t payloads = some fixed ∧
      ((∀ f ∈ fixed, f.action = .insert) → (fixed.map (·.bitstream)).flatten = outs.flatten) := by
  induction h generalizing t with
  | nil => exact ⟨[], rfl, fun _ => rfl⟩
  | @cons payload bytes payloads outs hyields hrest ih =>
    obtain ⟨parsed, hparse, hkind, hbytes⟩ := hyields
    obtain ⟨hin', hbitstream⟩ := copyAndFixBitstream_bitstream parsed.videoPayload hin hkind
    obtain ⟨fixed, hfixed, hout⟩ := ih hin'
    have hdeliver : deliver parsers t (payload :: payloads) =
        some ((t.copyAndFixBitstream parsed.videoPayload parsed.videoHeader).fixed :: fixed) := by
      rw [deliver, hparse]
      simp only [bind_eq_bind, bind_some, hfixed]
      rfl
    refine ⟨_, hdeliver, ?_⟩
    intro hinsert
    rw [map_cons, flatten_cons, flatten_cons, hbitstream (hinsert _ mem_cons_self),
      hout fun f hf => hinsert f (mem_cons_of_mem _ hf), hbytes]

theorem processNalu_isSome (parsers : Parsers) (header : VideoHeader) {unit : List UInt8}
    (hlen : 2 ≤ unit.length) (hap : naluType (unit.headD 0) ≠ kAp)
    (hfu : naluType (unit.headD 0) ≠ kFu) : (processNalu parsers header unit).isSome := by
  unfold processNalu
  rw [if_neg (by omega)]
  dsimp only
  split
  · split <;> rfl
  split
  · split <;> rfl
  split
  · split <;> rfl
  split
  · rfl
  split
  · rfl
  split
  · next h => exact absurd h (not_or.mpr ⟨hap, hfu⟩)
  · rfl

theorem parse_nalu (parsers : Parsers) {nalu : List UInt8} (hlen : 2 ≤ nalu.length)
    (htype : naluType (nalu.headD 0) < 48) : ∃ parsed, parse parsers nalu = some parsed ∧
      parsed.videoHeader.packetizationType = .singleNalu ∧
      parsed.videoHeader.isFirstPacketInFrame = true ∧ parsed.videoPayload = nalu := by
  have hap : naluType (nalu.headD 0) ≠ kAp := fun h => absurd (h ▸ htype) (by decide)
  have hfu : naluType (nalu.headD 0) ≠ kFu := fun h => absurd (h ▸ htype) (by decide)
  have hnil : nalu ≠ [] := by
    rintro rfl
    simp at hlen
  have hunits : naluUnits nalu = some [nalu] := by
    rw [naluUnits, naluStartOffsets, if_neg hap]
    simp [naluRanges, subview]
  have hsome : (processApOrSingleNalu parsers nalu).isSome := by
    have hheader (header : VideoHeader) :
        ([nalu].foldlM (processNalu parsers) header).isSome := by
      rw [foldlM_cons, bind_eq_bind]
      obtain ⟨next, hnext⟩ := isSome_iff_exists.mp
        (processNalu_isSome parsers header hlen hap hfu)
      rw [hnext]
      rfl
    rw [processApOrSingleNalu, hunits, bind_eq_bind, bind_some]
    obtain ⟨header, heq⟩ := isSome_iff_exists.mp (hheader _)
    dsimp only
    rw [heq]
    rfl
  obtain ⟨parsed, hparsed⟩ := isSome_iff_exists.mp hsome
  obtain ⟨hpayload, hfirst, hkind, -⟩ := processApOrSingleNalu_eq_some hparsed
  refine ⟨parsed, by rw [parse, if_neg hnil, if_neg hfu, hparsed], ?_, hfirst, hpayload⟩
  rw [hkind, if_neg hap]

theorem yields_nalu {nalu : List UInt8} (hlen : 2 ≤ nalu.length)
    (htype : naluType (nalu.headD 0) < 48) : Yields parsers nalu (startCode ++ nalu) := by
  obtain ⟨parsed, hparse, hkind, hfirst, hpayload⟩ := parse_nalu parsers hlen htype
  refine ⟨parsed, hparse, by rw [hkind]; decide, ?_⟩
  rw [hfirst, hpayload]
  rfl

theorem naluType_fuPayloadHdrH : ∀ b, naluType (fuPayloadHdrH b) = kFu := by decide

theorem fuHeader_restores : ∀ b first last,
    fuPayloadHdrH b &&& 0x80 ||| (fuHeader b first last &&& 0x3F) <<< (1 : UInt8) |||
      fuPayloadHdrH b &&& 0x1 = UInt8.ofBitVec b := by
  decide

theorem fuHeader_first : ∀ b first last, decide (fuHeader b first last &&& 0x80 ≠ 0) = first := by
  decide

theorem fuHeader_part : ∀ b first last, (first && last) = false →
    fuHeader b first last &&& 0xC0 ≠ 0xC0 := by
  decide

theorem layerId_restores : ∀ b : BitVec 8,
    (UInt8.ofBitVec b &&& 0xF8) ||| (UInt8.ofBitVec b &&& 0x7) = UInt8.ofBitVec b := by
  decide

theorem fuPayload_eq (b0 b1 : UInt8) (piece : List UInt8) (first last : Bool) :
    (PacketUnit.mk piece first last (b0.toBitVec ++ b1.toBitVec)).fuPayload =
      fuPayloadHdrH b0.toBitVec :: b1 :: fuHeader b0.toBitVec first last :: piece := by
  have h0 : (b0.toBitVec ++ b1.toBitVec).extractLsb' 8 8 = b0.toBitVec :=
    BitVec.extractLsb'_append_eq_left
  have h1 : (b0.toBitVec ++ b1.toBitVec).extractLsb' 0 8 = b1.toBitVec :=
    BitVec.extractLsb'_append_eq_right
  simp only [PacketUnit.fuPayload, h0, h1]

theorem parse_fu (parsers : Parsers) {p0 : UInt8} (b1 fu : UInt8) (piece : List UInt8)
    (hfu : naluType p0 = kFu) : ∃ parsed, parse parsers (p0 :: b1 :: fu :: piece) = some parsed ∧
      parsed.videoHeader.packetizationType = .fu ∧
      parsed.videoHeader.isFirstPacketInFrame = decide (fu &&& 0x80 ≠ 0) ∧ parsed.videoPayload =
        if decide (fu &&& 0x80 ≠ 0) then
          (p0 &&& 0x80 ||| (fu &&& 0x3F) <<< (1 : UInt8) ||| p0 &&& 0x1) ::
            (b1 &&& 0xF8 ||| b1 &&& 0x7) :: piece else piece := by
  have hparse : parse parsers (p0 :: b1 :: fu :: piece) =
      parseFuNalu parsers (p0 :: b1 :: fu :: piece) := by
    rw [parse, if_neg (cons_ne_nil _ _), headD_cons, if_pos hfu]
  have hlen : ¬ (p0 :: b1 :: fu :: piece).length < 3 := by
    simp only [length_cons]
    omega
  rw [hparse, parseFuNalu, if_neg hlen]
  exact ⟨_, rfl, rfl, rfl, rfl⟩

theorem parse_fuPayload (parsers : Parsers) (b0 b1 : UInt8) (piece : List UInt8)
    (first last : Bool) : ∃ parsed, parse parsers (fuPayloadHdrH b0.toBitVec :: b1 ::
        fuHeader b0.toBitVec first last :: piece) = some parsed ∧
      parsed.videoHeader.packetizationType = .fu ∧ parsed.videoHeader.isFirstPacketInFrame = first ∧
      parsed.videoPayload = if first then b0 :: b1 :: piece else piece := by
  obtain ⟨parsed, hparse, hkind, hfirst, hpayload⟩ := parse_fu parsers b1
    (fuHeader b0.toBitVec first last) piece (naluType_fuPayloadHdrH b0.toBitVec)
  rw [fuHeader_first] at hfirst hpayload
  rw [fuHeader_restores, layerId_restores b1.toBitVec] at hpayload
  exact ⟨parsed, hparse, hkind, hfirst, hpayload⟩

theorem yields_fu (b0 b1 : UInt8) (piece : List UInt8) (first last : Bool) :
    Yields parsers (PacketUnit.mk piece first last (b0.toBitVec ++ b1.toBitVec)).fuPayload
      (if first then startCode ++ b0 :: b1 :: piece else piece) := by
  obtain ⟨parsed, hparse, hkind, hfirst, hpayload⟩ := parse_fuPayload parsers b0 b1 piece first last
  refine ⟨parsed, by rw [fuPayload_eq, hparse], by rw [hkind]; decide, ?_⟩
  rw [hfirst, hpayload]
  cases first <;> rfl

end Tracking

section Fragments

variable {parsers : Parsers} {limits : PayloadSizeLimits} {count index : Nat}
  {fragment : List UInt8}

structure IsUnit (nalu : List UInt8) : Prop extends IsNalu nalu where
  length_ge : 2 ≤ nalu.length
  type_lt : naluType (nalu.headD 0) < 48

structure AmpleLimits (limits : PayloadSizeLimits) : Prop where
  first_nonneg : 0 ≤ limits.firstPacketReductionLen
  last_nonneg : 0 ≤ limits.lastPacketReductionLen
  first_le : limits.firstPacketReductionLen ≤ limits.maxPayloadLen - 4
  last_le : limits.lastPacketReductionLen ≤ limits.maxPayloadLen - 4
  single_le : limits.singlePacketReductionLen ≤ limits.maxPayloadLen - 4

def IsPart (payload : List UInt8) : Prop :=
  naluType (payload.headD 0) = kFu ∧ payload.getD 2 0 &&& 0xC0 ≠ 0xC0

structure Sends (parsers : Parsers) (limits : PayloadSizeLimits) (nalus : List (List UInt8))
    (units : List PacketUnit) : Prop where
  respects : limits.Respects (units.map fun unit => (unit.payload.length : Int))
  kinds : ∀ unit ∈ units, unit.payload ∈ nalus ∨ IsPart unit.payload
  yields : ∃ outs, List.Forall₂ (Yields parsers) (units.map (·.payload)) outs ∧
    outs.flatten = withStartCodes nalus

theorem Sends.append {isFirst isLast : Bool} {nalus nalus' : List (List UInt8)}
    {units units' : List PacketUnit} (h : Sends parsers (limits.within isFirst false) nalus units)
    (h' : Sends parsers (limits.within false isLast) nalus' units') :
    Sends parsers (limits.within isFirst isLast) (nalus ++ nalus') (units ++ units') where
  respects := by
    rw [map_append]
    exact h.respects.append h'.respects
  kinds := by
    intro unit hunit
    rcases mem_append.mp hunit with hunit | hunit
    · exact (h.kinds unit hunit).imp (mem_append_left _) id
    · exact (h'.kinds unit hunit).imp (mem_append_right _) id
  yields := by
    obtain ⟨outs, houts, hflatten⟩ := h.yields
    obtain ⟨outs', houts', hflatten'⟩ := h'.yields
    refine ⟨outs ++ outs', ?_, ?_⟩
    · rw [map_append]
      exact rel_append houts houts'
    · rw [flatten_append, hflatten, hflatten', withStartCodes, withStartCodes,
        withStartCodes, flatMap_append]

theorem packetizeSingleNalu_sends (hindex : index < count) (hunit : IsUnit fragment)
    (hfits : (fragment.length : Int) ≤ limits.maxPayloadLen - packetReduction limits count index) :
    ∃ units, packetizeSingleNalu limits count index fragment = some units ∧
      Sends parsers (limits.within (index = 0) (index + 1 = count)) [fragment] units := by
  have hleft : toSizeT (limits.maxPayloadLen - packetReduction limits count index) =
      limits.maxPayloadLen - packetReduction limits count index := if_neg (by omega)
  have hunits : packetizeSingleNalu limits count index fragment =
      some [⟨fragment, true, true, (fragment.headD 0).toBitVec.setWidth 16⟩] := by
    simp only [packetizeSingleNalu, hleft]
    rw [if_neg (by omega), if_neg hunit.ne_nil]
  refine ⟨_, hunits, ?_, ?_, ?_⟩
  · rw [packetReduction_eq limits hindex] at hfits
    exact hfits
  · intro unit hmem
    obtain rfl := mem_singleton.mp hmem
    exact .inl mem_cons_self
  · refine ⟨[startCode ++ fragment], ?_, by simp [withStartCodes]⟩
    exact .cons (yields_nalu hunit.length_ge hunit.type_lt) .nil

theorem AmpleLimits.within (h : AmpleLimits limits) (isFirst isLast : Bool) :
    AmpleLimits (limits.within isFirst isLast) := by
  obtain ⟨h1, h2, h3, h4, h5⟩ := h
  constructor <;> cases isFirst <;> cases isLast <;> simp [PayloadSizeLimits.within] <;> omega

theorem packetizeFu_eq (hlimits : AmpleLimits limits) (hindex : index < count)
    (hlarge : (fragment.length : Int) > limits.maxPayloadLen - packetReduction limits count index) :
    ∃ first middle last, packetizeFu limits count index fragment =
        some (⟨first, true, false, load16 fragment 0⟩ ::
          (middle.map (⟨·, false, false, load16 fragment 0⟩) ++
            [⟨last, false, true, load16 fragment 0⟩])) ∧
      first ++ middle.flatten ++ last = fragment.drop 2 ∧
      ((limits.within (index = 0) (index + 1 = count)).shrink 3).Respects
        ((first :: (middle ++ [last])).map fun piece => (piece.length : Int)) := by
  obtain ⟨hfirst, hlast, hfirst', hlast', hsingle'⟩ :=
    hlimits.within (index = 0) (index + 1 = count)
  have hmax : (limits.within (index = 0) (index + 1 = count)).maxPayloadLen =
    limits.maxPayloadLen := rfl
  have hfu := fragmentLimits_eq limits 3 hindex
  rw [packetReduction_eq limits hindex] at hlarge
  generalize limits.within (index = 0) (index + 1 = count) = inner at *
  have hlen : ((fragment.drop 2).length : Int) = (fragment.length : Int) - 2 := by
    rw [length_drop]
    omega
  have hexists : ∃ sizes, (inner.shrink 3).IsSplit ((fragment.length : Int) - 2) sizes := by
    apply PayloadSizeLimits.exists_isSplit (show 1 ≤ (fragment.length : Int) - 2 by omega) <;>
      simp only [PayloadSizeLimits.shrink] <;> omega
  replace hfirst : 0 ≤ (inner.shrink 3).firstPacketReductionLen := hfirst
  replace hlast : 0 ≤ (inner.shrink 3).lastPacketReductionLen := hlast
  obtain ⟨sizes, hsizes, hempty, -⟩ := splitAboutEqually_spec
    (show 1 ≤ (fragment.length : Int) - 2 by omega) hfirst hlast
  have hne : sizes ≠ [] := fun h => hexists.elim (hempty h)
  obtain ⟨hsplit, first, middle, last, hmark, hdata, hrespects⟩ := markEnds_cut
    (ne_nil_of_length_pos (by omega)) hfirst hlast
    (by simp only [PayloadSizeLimits.shrink]; omega) (hlen ▸ hsizes) hne
  refine ⟨first, middle, last, ?_, hdata, hrespects⟩
  rw [hlen] at hsplit
  rw [packetizeFu, fuLimits, hfu, hsizes, bind_eq_bind, bind_some, if_neg hne,
    if_pos ⟨hsplit.pos, hsplit.sum⟩, hmark]
  simp

theorem part_payload (b0 b1 : UInt8) (piece : List UInt8) {first last : Bool}
    (h : (first && last) = false) :
    (PacketUnit.mk piece first last (b0.toBitVec ++ b1.toBitVec)).payload =
      fuPayloadHdrH b0.toBitVec :: b1 :: fuHeader b0.toBitVec first last :: piece := by
  rw [PacketUnit.payload, h]
  exact fuPayload_eq b0 b1 piece first last

theorem isPart_payload (b0 b1 : UInt8) (piece : List UInt8) {first last : Bool}
    (h : (first && last) = false) :
    IsPart (PacketUnit.mk piece first last (b0.toBitVec ++ b1.toBitVec)).payload := by
  rw [part_payload b0 b1 piece h]
  exact ⟨naluType_fuPayloadHdrH _, fuHeader_part _ _ _ h⟩

theorem yields_part (parsers : Parsers) (b0 b1 : UInt8) (piece : List UInt8) {first last : Bool}
    (h : (first && last) = false) :
    Yields parsers (PacketUnit.mk piece first last (b0.toBitVec ++ b1.toBitVec)).payload
      (if first then startCode ++ b0 :: b1 :: piece else piece) := by
  rw [part_payload b0 b1 piece h, ← fuPayload_eq]
  exact yields_fu b0 b1 piece first last

theorem packetizeFu_sends (hlimits : AmpleLimits limits) (hindex : index < count)
    (hunit : IsUnit fragment)
    (hlarge : (fragment.length : Int) > limits.maxPayloadLen - packetReduction limits count index) :
    ∃ units, packetizeFu limits count index fragment = some units ∧
      Sends parsers (limits.within (index = 0) (index + 1 = count)) [fragment] units := by
  obtain ⟨first, middle, last, hunits, hdata, hrespects⟩ := packetizeFu_eq hlimits hindex hlarge
  obtain ⟨b0, b1, data, rfl⟩ : ∃ b0 b1 data, fragment = b0 :: b1 :: data := by
    match fragment, hunit.length_ge with
    | b0 :: b1 :: data, _ => exact ⟨b0, b1, data, rfl⟩
  have hheader : load16 (b0 :: b1 :: data) 0 = b0.toBitVec ++ b1.toBitVec := rfl
  rw [hheader] at hunits
  rw [drop_succ_cons, drop_succ_cons, drop_zero] at hdata
  refine ⟨_, hunits, ?_, ?_, ?_⟩
  · have hsizes := hrespects.of_shrink
    simp only [List.map_cons, List.map_append, List.map_map, List.map_nil, Function.comp_def]
      at hsizes ⊢
    simp only [part_payload b0 b1 _ (Bool.and_false _), part_payload b0 b1 _ (Bool.false_and _),
      length_cons]
    push_cast
    simpa [add_assoc] using hsizes
  · intro unit hmem
    simp only [List.mem_cons, List.mem_append, List.mem_map, List.not_mem_nil, or_false] at hmem
    rcases hmem with rfl | ⟨piece, -, rfl⟩ | rfl
    · exact .inr (isPart_payload b0 b1 first rfl)
    · exact .inr (isPart_payload b0 b1 piece rfl)
    · exact .inr (isPart_payload b0 b1 last rfl)
  · refine ⟨(startCode ++ b0 :: b1 :: first) :: (middle ++ [last]), ?_, ?_⟩
    · rw [List.map_cons, List.map_append, List.map_map]
      refine .cons (yields_part parsers b0 b1 first rfl) (List.rel_append ?_ ?_)
      · rw [forall₂_map_left_iff]
        exact List.forall₂_same.mpr fun piece _ => yields_part parsers b0 b1 piece rfl
      · exact .cons (yields_part parsers b0 b1 last rfl) .nil
    · simp [withStartCodes, ← hdata]

theorem packetizeFragment_sends (parsers : Parsers) (hlimits : AmpleLimits limits)
    (hindex : index < count) (hunit : IsUnit fragment) :
    ∃ units, packetizeFragment limits count index fragment = some units ∧
      Sends parsers (limits.within (index = 0) (index + 1 = count)) [fragment] units := by
  unfold packetizeFragment
  split
  · next hlarge => exact packetizeFu_sends hlimits hindex hunit hlarge
  · next hfits => exact packetizeSingleNalu_sends hindex hunit (not_lt.mp hfits)

theorem generatePackets_sends (parsers : Parsers) {fragments : List (List UInt8)}
    (hlimits : AmpleLimits limits) (hunits : ∀ fragment ∈ fragments, IsUnit fragment)
    (hne : fragments ≠ []) (hcount : index + fragments.length = count) :
    ∃ units, generatePackets limits count index fragments = some units ∧
      Sends parsers (limits.within (index = 0) true) fragments units := by
  induction fragments generalizing index with
  | nil => exact absurd rfl hne
  | cons fragment rest ih =>
    rw [length_cons] at hcount
    obtain ⟨units, hgenerated, hsends⟩ := packetizeFragment_sends parsers hlimits
      (show index < count by omega) (hunits fragment mem_cons_self)
    by_cases hrest : rest = []
    · subst hrest
      have hlast : index + 1 = count := by simpa using hcount
      refine ⟨units, ?_, by simpa [hlast] using hsends⟩
      rw [generatePackets, hgenerated, generatePackets]
      simp
    · have hlast : ¬ index + 1 = count := by
        have hpos := length_pos_iff.mpr hrest
        omega
      obtain ⟨others, hothers, hsends'⟩ := @ih (index + 1)
        (fun other h => hunits other (mem_cons_of_mem _ h)) hrest (by omega)
      refine ⟨units ++ others, ?_, ?_⟩
      · rw [generatePackets, hgenerated, bind_eq_bind, bind_some, hothers]
        rfl
      · simp only [hlast, decide_false, Nat.add_eq_zero_iff, one_ne_zero, and_false] at hsends hsends'
        exact hsends.append hsends'

end Fragments

theorem nextPackets_payloads {freeCapacity : Nat} {units : List PacketUnit}
    (h : ∀ unit ∈ units, unit.payload.length ≤ freeCapacity) :
    ∃ packets, nextPackets freeCapacity units = some packets ∧
      packets.map (·.payload) = units.map (·.payload) := by
  induction units with
  | nil => exact ⟨[], rfl, rfl⟩
  | cons unit rest ih =>
    obtain ⟨packets, hpackets, hpayloads⟩ := ih fun other ho => h other (mem_cons_of_mem _ ho)
    refine ⟨⟨unit.payload, rest.isEmpty⟩ :: packets, ?_, ?_⟩
    · rw [nextPackets, if_pos (h unit mem_cons_self), hpackets, map_some]
    · rw [map_cons, map_cons, hpayloads]

/-- Whatever units are sent, the packets keep to the limits, no packet is both the start and the
end of a fragmented unit, every packet is accepted, and the units arrive behind start codes. -/
theorem packetizeH265_deliver (parsers : Parsers) {limits : PayloadSizeLimits}
    (hlimits : AmpleLimits limits) {units : List (Bool × List UInt8)}
    (hunits : ∀ unit ∈ units, IsUnit unit.2) {freeCapacity : Nat}
    (hcapacity : max limits.maxPayloadLen
      (limits.maxPayloadLen - limits.singlePacketReductionLen) ≤ freeCapacity)
    {t : VpsSpsPpsTracker} (ht : t.InBand) :
    ∃ packets, packetize freeCapacity limits (annexB units) = some packets ∧
      (units ≠ [] → limits.Respects (packets.map fun packet => (packet.payload.length : Int))) ∧
      (∀ packet ∈ packets, packet.payload ∈ units.map Prod.snd ∨ IsPart packet.payload) ∧
      ∃ fixed, deliver parsers t (packets.map (·.payload)) = some fixed ∧
        ((∀ f ∈ fixed, f.action = .insert) →
          (fixed.map (·.bitstream)).flatten = withStartCodes (units.map Prod.snd)) := by
  have hfragments : inputFragments (annexB units) = units.map Prod.snd :=
    inputFragments_annexB fun unit hunit => (hunits unit hunit).toIsNalu
  by_cases hne : units = []
  · subst hne
    refine ⟨[], rfl, fun h => absurd rfl h, by simp, [], rfl, fun _ => rfl⟩
  have hfragment : ∀ fragment ∈ units.map Prod.snd, IsUnit fragment := by
    intro fragment h
    obtain ⟨unit, hunit, rfl⟩ := List.mem_map.mp h
    exact hunits unit hunit
  obtain ⟨queue, hqueue, hsends⟩ := generatePackets_sends parsers hlimits hfragment
    (by simpa using hne) (Nat.zero_add (units.map Prod.snd).length)
  have hfits : ∀ unit ∈ queue, unit.payload.length ≤ freeCapacity := by
    intro unit hunit
    have hle := hsends.respects.size_le hlimits.first_nonneg hlimits.last_nonneg
      (mem_map_of_mem hunit)
    exact Int.ofNat_le.mp (hle.trans hcapacity)
  obtain ⟨packets, hpackets, hpayloads⟩ := nextPackets_payloads hfits
  refine ⟨packets, ?_, ?_, ?_, ?_⟩
  · rw [packetize, hfragments, hqueue]
    exact hpackets
  · intro _
    have hlengths := congrArg (List.map fun payload : List UInt8 => (payload.length : Int)) hpayloads
    rw [List.map_map, List.map_map] at hlengths
    exact hlengths ▸ hsends.respects
  · intro packet hpacket
    have hmem : packet.payload ∈ queue.map (·.payload) := hpayloads ▸ mem_map_of_mem hpacket
    obtain ⟨unit, hunit, heq⟩ := List.mem_map.mp hmem
    exact heq ▸ hsends.kinds unit hunit
  · obtain ⟨outs, houts, hflatten⟩ := hsends.yields
    rw [hpayloads, ← hflatten]
    exact deliver_of_yields houts ht

theorem packetize_deliver_two_units :
    let units : List (Bool × List UInt8) := [(true, [2, 1, 7]), (false, [2, 1, 5, 6, 7, 8, 9])]
    ∃ packets, packetize 5 ⟨5, 1, 1, 0⟩ (annexB units) = some packets ∧
      PayloadSizeLimits.Respects ⟨5, 1, 1, 0⟩
        (packets.map fun packet => (packet.payload.length : Int)) ∧
      ∃ fixed, deliver .failing .init (packets.map (·.payload)) = some fixed ∧
        ((∀ f ∈ fixed, f.action = .insert) → (fixed.map (·.bitstream)).flatten =
            withStartCodes [[2, 1, 7], [2, 1, 5, 6, 7, 8, 9]]) := by
  have hunits : ∀ unit ∈ [(true, [2, 1, 7]), (false, [2, 1, 5, 6, 7, 8, 9])],
      IsUnit unit.2 := by
    have hunit : IsUnit [2, 1, 7] := ⟨⟨by decide, by decide, by decide⟩, by decide, by decide⟩
    have hunit' : IsUnit [2, 1, 5, 6, 7, 8, 9] :=
      ⟨⟨by decide, by decide, by decide⟩, by decide, by decide⟩
    simp [hunit, hunit']
  have hlimits : AmpleLimits ⟨5, 1, 1, 0⟩ :=
    ⟨by decide, by decide, by decide, by decide, by decide⟩
  obtain ⟨packets, hpackets, hrespects, -, hdeliver⟩ := packetizeH265_deliver .failing hlimits hunits
    (show max (5 : Int) (5 - 0) ≤ (5 : Nat) by decide) inBand_init
  exact ⟨packets, hpackets, hrespects (by simp), hdeliver⟩

/-- With a last packet larger than the others, a packet in the middle exceeds its limit. -/
theorem negative_reduction_exceeds_limit : (packetize 100 ⟨5, 0, -5, 1⟩
      (annexB [(true, [2, 1]), (true, [2, 1, 1, 2, 3, 4, 5, 6, 7, 8, 9])])).map
        (List.map fun packet => (packet.payload.length : Int)) = some [2, 5, 5, 6, 5] ∧
      ¬ PayloadSizeLimits.Respects ⟨5, 0, -5, 1⟩ [2, 5, 5, 6, 5] := by
  constructor
  · decide +kernel
  · simp [PayloadSizeLimits.Respects]

end WebRtc.Rtp.H265
