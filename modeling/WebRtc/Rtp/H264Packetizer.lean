import WebRtc.Rtp.Fragments
import WebRtc.Rtp.H264Depacketizer

/-! `RtpPacketizerH264`, and that what it sends comes out of the depacketizer and the tracker as
the units that went in. -/

namespace WebRtc.Rtp.H264

open ByteBuffer List

inductive PacketizationMode where
  | nonInterleaved
  | singleNalUnit
deriving DecidableEq, Repr

/-- Why there are no packets: a check failed, the behaviour is undefined (a division by zero, the
front of an empty queue), or the packets were discarded. -/
inductive Stop where
  | checkFailed
  | undefined
  | discarded
deriving DecidableEq, Repr

structure PacketUnit where
  sourceFragment : List UInt8
  firstFragment : Bool
  lastFragment : Bool
  aggregated : Bool
  header : UInt8
deriving DecidableEq, Repr

section Packetizer

variable (limits : PayloadSizeLimits) (count : Nat)

def packetizeFuA (index : Nat) (fragment : List UInt8) : Except Stop (List PacketUnit) :=
  match splitAboutEqually ((fragment.length : Int) - 1) (fragmentLimits limits count index 2) with
  | none => .error .undefined
  | some payloadSizes =>
    if payloadSizes = [] then .error .discarded
    else if (∀ packetLength ∈ payloadSizes, 0 < packetLength) ∧
        payloadSizes.sum = (fragment.length : Int) - 1 then
      .ok ((markEnds true (cut payloadSizes (fragment.drop 1))).map fun piece =>
        ⟨piece.1, piece.2.1, piece.2.2, false, fragment.headD 0⟩)
    else .error .checkFailed

def payloadSizeNeeded (hasFirstFragment hasLastFragment : Bool) (fragmentSize : Int) : Int :=
  if hasFirstFragment && hasLastFragment then
    toSizeT (fragmentSize + limits.singlePacketReductionLen)
  else if hasFirstFragment then toSizeT (fragmentSize + limits.firstPacketReductionLen)
  else if hasLastFragment then toSizeT (fragmentSize + limits.lastPacketReductionLen)
  else fragmentSize

/-- The loop of `PacketizeStapA`: the fragments it takes and those it leaves. No headers are
counted for the fragment taken first. -/
def stapALoop (hasFirstFragment : Bool) (index : Nat) (payloadSizeLeft : Int)
    (fragmentHeadersLength : Nat) :
    List (List UInt8) → Except Stop (List (List UInt8) × List (List UInt8))
  | [] => .ok ([], [])
  | fragment :: rest =>
    if payloadSizeLeft ≥ payloadSizeNeeded limits hasFirstFragment (index + 1 = count)
        (fragment.length + fragmentHeadersLength) then
      if fragment = [] then .error .checkFailed
      else do
        let (taken, left) ← stapALoop hasFirstFragment (index + 1)
          (toSizeT (payloadSizeLeft - fragment.length - fragmentHeadersLength))
          (if fragmentHeadersLength = 0 then 5 else 2) rest
        return (fragment :: taken, left)
    else .ok ([], fragment :: rest)

def stapAUnits (taken : List (List UInt8)) : List PacketUnit :=
  (markEnds true taken).map fun fragment =>
    ⟨fragment.1, fragment.2.1, fragment.2.2, true, fragment.1.headD 0⟩

def packetizeStapA (index : Nat) (fragments : List (List UInt8)) :
    Except Stop (List PacketUnit × List (List UInt8)) :=
  let payloadSizeLeft := toSizeT limits.maxPayloadLen
  if payloadSizeLeft < (fragments.headD []).length then .error .checkFailed
  else do
    let (taken, left) ← stapALoop limits count (index = 0) index payloadSizeLeft 0 fragments
    if taken = [] then .error .checkFailed
    else return (stapAUnits taken, left)

def packetizeSingleNalu (index : Nat) (fragment : List UInt8) : Except Stop (List PacketUnit) :=
  let payloadSizeLeft := toSizeT (limits.maxPayloadLen - packetReduction limits count index)
  if payloadSizeLeft < fragment.length then .error .discarded
  else if fragment = [] then .error .checkFailed
  else .ok [⟨fragment, true, true, false, fragment.headD 0⟩]

/-- The loop of `GeneratePackets`, for the fragments from `index` on and at most `rounds` rounds. -/
def generatePackets (mode : PacketizationMode) :
    Nat → Nat → List (List UInt8) → Except Stop (List PacketUnit)
  | _, _, [] => .ok []
  | 0, _, _ :: _ => .error .undefined
  | rounds + 1, index, fragment :: rest =>
    match mode with
    | .singleNalUnit => do
      let units ← packetizeSingleNalu limits count index fragment
      let others ← generatePackets mode rounds (index + 1) rest
      return units ++ others
    | .nonInterleaved =>
      if (fragment.length : Int) > limits.maxPayloadLen - packetReduction limits count index then do
        let units ← packetizeFuA limits count index fragment
        let others ← generatePackets mode rounds (index + 1) rest
        return units ++ others
      else do
        let (units, left) ← packetizeStapA limits count index (fragment :: rest)
        let others ← generatePackets mode rounds (index + units.length) left
        return units ++ others

end Packetizer

structure RtpPayload where
  payload : List UInt8
  marker : Bool
deriving DecidableEq, Repr

def stapAHeader (header : UInt8) : UInt8 := header &&& 0xE0 ||| kStapA

/-- The loop of `NextAggregatePacket`: the fragments of the packet and the queue behind it. -/
def nextAggregate : List PacketUnit → Except Stop (List (List UInt8) × List PacketUnit)
  | [] => .error .undefined
  | unit :: rest =>
    if unit.aggregated then
      if unit.lastFragment then .ok ([unit.sourceFragment], rest)
      else do
        let (fragments, left) ← nextAggregate rest
        return (unit.sourceFragment :: fragments, left)
    else if unit.lastFragment then .ok ([], unit :: rest)
    else .error .checkFailed

/-- The payload of the next packet, which has room for `freeCapacity` bytes, and the queue after. -/
def nextPacket (freeCapacity : Nat) : List PacketUnit → Except Stop (List UInt8 × List PacketUnit)
  | [] => .error .undefined
  | unit :: rest =>
    if unit.firstFragment && unit.lastFragment then
      if unit.sourceFragment.length ≤ freeCapacity then .ok (unit.sourceFragment, rest)
      else .error .undefined
    else if unit.aggregated then
      if unit.firstFragment then do
        let (fragments, left) ← nextAggregate (unit :: rest)
        let payload := stapAHeader unit.header :: lengthPrefixed fragments
        if payload.length ≤ freeCapacity then return (payload, left) else .error .checkFailed
      else .error .checkFailed
    else
      let payload := fuIndicator unit.header ::
        fuHeader unit.header unit.firstFragment unit.lastFragment :: unit.sourceFragment
      if payload.length ≤ freeCapacity then .ok (payload, rest) else .error .undefined

def nextPackets (freeCapacity : Nat) : Nat → List PacketUnit → Except Stop (List RtpPayload)
  | _, [] => .ok []
  | 0, _ :: _ => .error .undefined
  | rounds + 1, unit :: rest => do
    let (payload, left) ← nextPacket freeCapacity (unit :: rest)
    let others ← nextPackets freeCapacity rounds left
    return ⟨payload, left.isEmpty⟩ :: others

def packetize (freeCapacity : Nat) (limits : PayloadSizeLimits) (mode : PacketizationMode)
    (payload : List UInt8) : Except Stop (List RtpPayload) :=
  let fragments := inputFragments payload
  if [] ∈ fragments then .ok []
  else
    match generatePackets limits fragments.length mode fragments.length 0 fragments with
    | .error .discarded => .ok []
    | .error stop => .error stop
    | .ok units => nextPackets freeCapacity units.length units

section Limits

variable {limits : PayloadSizeLimits} {count index : Nat}

structure SoundLimits (limits : PayloadSizeLimits) (mode : PacketizationMode) : Prop where
  first_nonneg : 0 ≤ limits.firstPacketReductionLen
  last_nonneg : 0 ≤ limits.lastPacketReductionLen
  single_nonneg : 0 ≤ limits.singlePacketReductionLen
  max_le : limits.maxPayloadLen ≤ 65541
  room : mode = .singleNalUnit → limits.firstPacketReductionLen ≤ limits.maxPayloadLen ∧
    limits.lastPacketReductionLen ≤ limits.maxPayloadLen ∧
    limits.singlePacketReductionLen ≤ limits.maxPayloadLen

variable {mode : PacketizationMode}

theorem SoundLimits.reduction_nonneg (h : SoundLimits limits mode) (isFirst isLast : Bool) :
    0 ≤ (limits.within isFirst isLast).singlePacketReductionLen :=
  PayloadSizeLimits.within_single_nonneg h.first_nonneg h.last_nonneg h.single_nonneg isFirst isLast

theorem toSizeT_of_nonneg {x : Int} (h : 0 ≤ x) : toSizeT x = x := if_neg (not_lt.mpr h)

theorem payloadSizeNeeded_eq (h : SoundLimits limits mode) (isFirst isLast : Bool) {size : Int}
    (hsize : 0 ≤ size) : payloadSizeNeeded limits isFirst isLast size =
      size + (limits.within isFirst isLast).singlePacketReductionLen := by
  have hneeded := h.reduction_nonneg isFirst isLast
  cases isFirst <;> cases isLast <;> simp only [PayloadSizeLimits.within] at hneeded ⊢
  · exact (add_zero size).symm
  · exact toSizeT_of_nonneg (add_nonneg hsize hneeded)
  · exact toSizeT_of_nonneg (add_nonneg hsize hneeded)
  · exact toSizeT_of_nonneg (add_nonneg hsize hneeded)

end Limits

variable {rest : List (List UInt8)}

section Aggregation

variable {limits : PayloadSizeLimits} {mode : PacketizationMode} {count index : Nat}

theorem decide_last {index count : Nat} {fragment : List UInt8}
    (hcount : index + (fragment :: rest).length = count) :
    decide (index + 1 = count) = rest.isEmpty := by
  rw [length_cons] at hcount
  cases rest with
  | nil => simpa using hcount
  | cons => simp at hcount ⊢; omega

theorem stapALoop_tail (h : SoundLimits limits mode) (hasFirst : Bool)
    {fragments : List (List UInt8)} (hne : ∀ fragment ∈ fragments, fragment ≠ [])
    (hcount : index + fragments.length = count) {left : Int} (hleft : 0 ≤ left) {headers : Nat}
    (hheaders : headers ≠ 0) :
    ∃ taken rest, stapALoop limits count hasFirst index left headers fragments = .ok (taken, rest) ∧
      taken ++ rest = fragments ∧
      (taken ≠ [] → (taken.flatten.length : Int) + headers + 2 * (taken.length - 1) +
        (limits.within hasFirst rest.isEmpty).singlePacketReductionLen ≤ left) := by
  induction fragments generalizing index left headers with
  | nil => exact ⟨[], [], rfl, rfl, by simp⟩
  | cons fragment rest ih =>
    have hlast := decide_last hcount
    have hsize : (0 : Int) ≤ fragment.length + headers := by omega
    have hneeded := payloadSizeNeeded_eq h hasFirst (index + 1 = count) hsize
    rw [hlast] at hneeded
    have hreduction := h.reduction_nonneg hasFirst rest.isEmpty
    by_cases hfits : left ≥ fragment.length + headers +
        (limits.within hasFirst rest.isEmpty).singlePacketReductionLen
    · obtain ⟨taken, rest', hloop, happend, hbound⟩ := ih
        (fun other ho => hne other (mem_cons_of_mem _ ho))
        (show index + 1 + rest.length = count by rw [length_cons] at hcount; omega)
        (show 0 ≤ left - fragment.length - headers by omega) (show 2 ≠ 0 by decide)
      refine ⟨fragment :: taken, rest', ?_, by rw [cons_append, happend], fun _ => ?_⟩
      · rw [stapALoop, hlast, hneeded, if_pos hfits, if_neg (hne fragment mem_cons_self),
          if_neg hheaders, toSizeT_of_nonneg (by omega), hloop]
        rfl
      · by_cases htaken : taken = []
        · subst htaken
          rw [nil_append] at happend
          subst happend
          simp
          omega
        · have hle := hbound htaken
          simp only [flatten_cons, length_append, length_cons]
          push_cast at hle ⊢
          omega
    · refine ⟨[], fragment :: rest, ?_, rfl, fun hnil => absurd rfl hnil⟩
      rw [stapALoop, hlast, hneeded, if_neg hfits]

theorem stapALoop_first (h : SoundLimits limits mode) (hasFirst : Bool) {fragment : List UInt8}
    (hne : ∀ other ∈ fragment :: rest, other ≠ [])
    (hcount : index + (fragment :: rest).length = count) {left : Int}
    (hfits : left ≥ fragment.length +
      (limits.within hasFirst rest.isEmpty).singlePacketReductionLen) :
    ∃ taken rest', stapALoop limits count hasFirst index left 0 (fragment :: rest) =
        .ok (fragment :: taken, rest') ∧ taken ++ rest' = rest ∧
      (taken ≠ [] → ((fragment :: taken).flatten.length : Int) + 2 * (fragment :: taken).length + 1 +
        (limits.within hasFirst rest'.isEmpty).singlePacketReductionLen ≤ left) := by
  have hlast := decide_last hcount
  have hneeded := payloadSizeNeeded_eq h hasFirst (index + 1 = count)
    (show (0 : Int) ≤ fragment.length + (0 : Nat) by omega)
  rw [hlast] at hneeded
  have hreduction := h.reduction_nonneg hasFirst rest.isEmpty
  obtain ⟨taken, rest', hloop, happend, hbound⟩ := stapALoop_tail h hasFirst
    (fun other ho => hne other (mem_cons_of_mem _ ho))
    (show index + 1 + rest.length = count by rw [length_cons] at hcount; omega)
    (show 0 ≤ left - fragment.length - (0 : Nat) by omega) (show 5 ≠ 0 by decide)
  refine ⟨taken, rest', ?_, happend, fun htaken => ?_⟩
  · rw [stapALoop, hlast, hneeded, if_pos (by omega), if_neg (hne fragment mem_cons_self),
      if_pos rfl, toSizeT_of_nonneg (by omega), hloop]
    rfl
  · have hle := hbound htaken
    simp only [flatten_cons, length_append, length_cons]
    push_cast at hle ⊢
    omega

end Aggregation

variable {nalus nalus' : List (List UInt8)}

section Sending

def startBit (payload : List UInt8) : Bool := payload.getD 1 0 &&& 0x80 ≠ 0

def endBit (payload : List UInt8) : Bool := payload.getD 1 0 &&& 0x40 ≠ 0

def IsFragmented (parts : List (List UInt8)) : Prop :=
  (∀ part ∈ parts, naluType (part.headD 0) = kFuA) ∧
    ∃ first middle last, parts = first :: (middle ++ [last]) ∧
      (startBit first = true ∧ endBit first = false) ∧
      (∀ part ∈ middle, startBit part = false ∧ endBit part = false) ∧
      startBit last = false ∧ endBit last = true

inductive Grouped : List (List UInt8) → List (List UInt8) → Prop
  | nil : Grouped [] []
  | single {nalu : List UInt8} {nalus payloads : List (List UInt8)} :
    Grouped nalus payloads → Grouped (nalu :: nalus) (nalu :: payloads)
  | stapA {header : UInt8} {taken nalus payloads : List (List UInt8)} :
    naluType header = kStapA → 2 ≤ taken.length → Grouped nalus payloads →
      Grouped (taken ++ nalus) ((header :: lengthPrefixed taken) :: payloads)
  | fuA {nalu : List UInt8} {parts nalus payloads : List (List UInt8)} :
    IsFragmented parts → Grouped nalus payloads → Grouped (nalu :: nalus) (parts ++ payloads)

theorem Grouped.append {nalus nalus' payloads payloads' : List (List UInt8)}
    (h : Grouped nalus payloads) (h' : Grouped nalus' payloads') :
    Grouped (nalus ++ nalus') (payloads ++ payloads') := by
  induction h with
  | nil => exact h'
  | single _ ih => exact .single ih
  | stapA hheader htwo _ ih =>
    rw [append_assoc]
    exact .stapA hheader htwo ih
  | fuA hparts _ ih =>
    rw [cons_append, append_assoc]
    exact .fuA hparts ih

/-- The queue gives these payloads, one `NextPacket` after the other. -/
inductive Emits (freeCapacity : Nat) : List PacketUnit → List (List UInt8) → Prop
  | nil : Emits freeCapacity [] []
  | cons {unit : PacketUnit} {units more : List PacketUnit} {payload : List UInt8}
      {payloads : List (List UInt8)} :
    (∀ rest, nextPacket freeCapacity (unit :: units ++ rest) = .ok (payload, rest)) →
      Emits freeCapacity more payloads → Emits freeCapacity (unit :: units ++ more) (payload :: payloads)

variable {payloads payloads' : List (List UInt8)} {units units' : List PacketUnit}

theorem Emits.append {freeCapacity : Nat} (h : Emits freeCapacity units payloads)
    (h' : Emits freeCapacity units' payloads') :
    Emits freeCapacity (units ++ units') (payloads ++ payloads') := by
  induction h with
  | nil => exact h'
  | cons hnext _ ih =>
    rw [append_assoc]
    exact .cons hnext ih

theorem Emits.nextPackets {freeCapacity : Nat} {units : List PacketUnit}
    {payloads : List (List UInt8)} (h : Emits freeCapacity units payloads) {rounds : Nat}
    (hrounds : units.length ≤ rounds) :
    ∃ packets, nextPackets freeCapacity rounds units = .ok packets ∧
      packets.map (·.payload) = payloads := by
  induction h generalizing rounds with
  | nil => exact ⟨[], by cases rounds <;> rfl, rfl⟩
  | @cons unit units more payload payloads hnext _ ih =>
    rw [length_append, length_cons] at hrounds
    obtain ⟨rounds, rfl⟩ : ∃ n, rounds = n + 1 := ⟨rounds - 1, by omega⟩
    obtain ⟨packets, hpackets, hpayloads⟩ := ih (show more.length ≤ rounds by omega)
    refine ⟨⟨payload, more.isEmpty⟩ :: packets, ?_, by rw [map_cons, hpayloads]⟩
    have hfirst := hnext more
    rw [cons_append] at hfirst ⊢
    rw [H264.nextPackets, hfirst]
    show (H264.nextPackets freeCapacity rounds more >>= fun others => _) = _
    rw [hpackets]
    rfl

variable {parsers : Parsers} {freeCapacity : Nat} {limits : PayloadSizeLimits}

structure Sends (parsers : Parsers) (freeCapacity : Nat) (limits : PayloadSizeLimits)
    (nalus : List (List UInt8)) (units : List PacketUnit) (payloads : List (List UInt8)) :
    Prop where
  respects : limits.Respects (payloads.map fun payload => (payload.length : Int))
  emits : Emits freeCapacity units payloads
  grouped : Grouped nalus payloads
  yields : ∃ outs, List.Forall₂ (Yields parsers) payloads outs ∧ outs.flatten = withStartCodes nalus

variable {isFirst isLast : Bool}

theorem Sends.append
    (h : Sends parsers freeCapacity (limits.within isFirst false) nalus units payloads)
    (h' : Sends parsers freeCapacity (limits.within false isLast) nalus' units' payloads') :
    Sends parsers freeCapacity (limits.within isFirst isLast) (nalus ++ nalus') (units ++ units')
      (payloads ++ payloads') where
  respects := by
    rw [map_append]
    exact h.respects.append h'.respects
  emits := h.emits.append h'.emits
  grouped := h.grouped.append h'.grouped
  yields := by
    obtain ⟨outs, houts, hflatten⟩ := h.yields
    obtain ⟨outs', houts', hflatten'⟩ := h'.yields
    refine ⟨outs ++ outs', rel_append houts houts', ?_⟩
    rw [flatten_append, hflatten, hflatten', withStartCodes, withStartCodes, withStartCodes,
      flatMap_append]

theorem sends_single (hkeeps : parsers.KeepsSps) {nalu : List UInt8} (hunit : IsUnit nalu)
    (aggregated : Bool) (header : UInt8) (hfits : (nalu.length : Int) ≤
      limits.maxPayloadLen - (limits.within isFirst isLast).singlePacketReductionLen)
    (hcapacity : nalu.length ≤ freeCapacity) :
    Sends parsers freeCapacity (limits.within isFirst isLast) [nalu]
      [⟨nalu, true, true, aggregated, header⟩] [nalu] where
  respects := hfits
  emits := by
    have hnext (rest : List PacketUnit) :
        nextPacket freeCapacity (⟨nalu, true, true, aggregated, header⟩ :: [] ++ rest) =
          .ok (nalu, rest) := by
      simp [nextPacket, hcapacity]
    exact .cons hnext .nil
  grouped := .single .nil
  yields := ⟨[startCode ++ nalu], .cons (yields_nalu hkeeps hunit) .nil, by simp [withStartCodes]⟩

theorem nextAggregate_stapAUnits (first : Bool) {taken : List (List UInt8)} (hne : taken ≠ [])
    (rest : List PacketUnit) : nextAggregate ((markEnds first taken).map (fun fragment =>
      ⟨fragment.1, fragment.2.1, fragment.2.2, true, fragment.1.headD 0⟩) ++ rest) =
      .ok (taken, rest) := by
  induction taken generalizing first with
  | nil => exact absurd rfl hne
  | cons a taken ih =>
    cases taken with
    | nil => rfl
    | cons b taken =>
      have htail := ih false (cons_ne_nil b taken)
      rw [markEnds, map_cons, cons_append, nextAggregate, if_pos rfl,
        if_neg Bool.false_ne_true, htail]
      rfl

theorem sends_stapA (hkeeps : parsers.KeepsSps) {taken : List (List UInt8)}
    (hunits : ∀ unit ∈ taken, IsUnit unit) (htwo : 2 ≤ taken.length)
    (hlen : ∀ unit ∈ taken, unit.length < 65536)
    (hfits : (taken.flatten.length : Int) + 2 * taken.length + 1 ≤
      limits.maxPayloadLen - (limits.within isFirst isLast).singlePacketReductionLen)
    (hcapacity : taken.flatten.length + 2 * taken.length + 1 ≤ freeCapacity) :
    ∃ payload, Sends parsers freeCapacity (limits.within isFirst isLast) taken (stapAUnits taken)
      [payload] := by
  obtain ⟨a, b, rest, rfl⟩ : ∃ a b rest, taken = a :: b :: rest := by
    match taken, htwo with
    | a :: b :: rest, _ => exact ⟨a, b, rest, rfl⟩
  have hheader (header : UInt8) : naluType (stapAHeader header) = kStapA := by
    have h : ∀ v : BitVec 8, naluType (stapAHeader ⟨v⟩) = kStapA := by decide
    exact h header.toBitVec
  have hsize : (stapAHeader (a.headD 0) :: lengthPrefixed (a :: b :: rest)).length =
      (a :: b :: rest).flatten.length + 2 * (a :: b :: rest).length + 1 := by
    rw [length_cons, length_lengthPrefixed]
  refine ⟨stapAHeader (a.headD 0) :: lengthPrefixed (a :: b :: rest), ?_, ?_, ?_, ?_⟩
  · show ((stapAHeader (a.headD 0) :: lengthPrefixed (a :: b :: rest)).length : Int) ≤ _
    rw [hsize]
    push_cast
    exact hfits
  · have hnext (more : List PacketUnit) :
        nextPacket freeCapacity (stapAUnits (a :: b :: rest) ++ more) =
          .ok (stapAHeader (a.headD 0) :: lengthPrefixed (a :: b :: rest), more) := by
      have haggregate := nextAggregate_stapAUnits true (cons_ne_nil a (b :: rest)) more
      rw [← stapAUnits] at haggregate
      show (nextAggregate (stapAUnits (a :: b :: rest) ++ more) >>= fun result => _) = _
      rw [haggregate]
      show (if _ then _ else _) = _
      rw [if_pos (hsize ▸ hcapacity)]
      rfl
    have hemits := Emits.cons hnext .nil
    rwa [append_nil] at hemits
  · have hgrouped := Grouped.stapA (hheader (a.headD 0)) htwo Grouped.nil
    rwa [append_nil] at hgrouped
  · exact ⟨[withStartCodes (a :: b :: rest)],
      .cons (yields_stapA hkeeps (hheader _) (cons_ne_nil _ _) hunits hlen) .nil, by simp⟩

def partPayload (header : UInt8) (part : List UInt8 × Bool × Bool) : List UInt8 :=
  fuIndicator header :: fuHeader header part.2.1 part.2.2 :: part.1

theorem startBit_partPayload (header : UInt8) (piece : List UInt8) (first last : Bool) :
    startBit (partPayload header (piece, first, last)) = first ∧
      endBit (partPayload header (piece, first, last)) = last := by
  have h : ∀ (b : BitVec 8) first last, decide (fuHeader ⟨b⟩ first last &&& 0x80 ≠ 0) = first ∧
      decide (fuHeader ⟨b⟩ first last &&& 0x40 ≠ 0) = last := by
    decide
  exact h header.toBitVec first last

theorem isFragmented_parts (header : UInt8) (first last : List UInt8) (middle : List (List UInt8)) :
    IsFragmented (((first, true, false) ::
      (middle.map (fun b => (b, false, false)) ++ [(last, false, true)])).map
        (partPayload header)) := by
  refine ⟨?_, ?_⟩
  · intro part hpart
    obtain ⟨piece, -, rfl⟩ := mem_map.mp hpart
    exact naluType_fuIndicator header
  · rw [map_cons, map_append, map_singleton]
    refine ⟨_, _, _, rfl, startBit_partPayload header first true false, ?_,
      startBit_partPayload header last false true⟩
    intro part hpart
    rw [map_map] at hpart
    obtain ⟨piece, -, rfl⟩ := mem_map.mp hpart
    exact startBit_partPayload header piece false false

theorem emits_parts {header : UInt8} {parts : List (List UInt8 × Bool × Bool)}
    (hparts : ∀ part ∈ parts, (part.2.1 && part.2.2) = false)
    (hcapacity : ∀ part ∈ parts, (partPayload header part).length ≤ freeCapacity) :
    Emits freeCapacity (parts.map fun part => ⟨part.1, part.2.1, part.2.2, false, header⟩)
      (parts.map (partPayload header)) := by
  induction parts with
  | nil => exact .nil
  | cons part parts ih =>
    have hnext (more : List PacketUnit) :
        nextPacket freeCapacity (⟨part.1, part.2.1, part.2.2, false, header⟩ :: [] ++ more) =
          .ok (partPayload header part, more) := by
      rw [singleton_append, nextPacket, if_neg (by simp [hparts part mem_cons_self]),
        if_neg Bool.false_ne_true]
      exact if_pos (hcapacity part mem_cons_self)
    exact .cons hnext (ih (fun other ho => hparts other (mem_cons_of_mem _ ho))
      (fun other ho => hcapacity other (mem_cons_of_mem _ ho)))

theorem sends_fuA {header : UInt8} {first last : List UInt8} {middle : List (List UInt8)}
    (hfirst : 0 ≤ limits.firstPacketReductionLen) (hlast : 0 ≤ limits.lastPacketReductionLen)
    (hsingle : 0 ≤ limits.singlePacketReductionLen) (hcapacity : limits.maxPayloadLen ≤ freeCapacity)
    (hrespects : (limits.shrink 2).Respects
      ((first :: (middle ++ [last])).map fun piece => (piece.length : Int))) :
    let parts := (first, true, false) ::
      (middle.map (fun b => (b, false, false)) ++ [(last, false, true)])
    Sends parsers freeCapacity limits [header :: (first ++ middle.flatten ++ last)]
      (parts.map fun part => ⟨part.1, part.2.1, part.2.2, false, header⟩)
      (parts.map (partPayload header)) := by
  intro parts
  have hsizes : parts.map (fun part => ((partPayload header part).length : Int)) =
      ((first :: (middle ++ [last])).map fun piece => (piece.length : Int)).map
        (· + ((2 : Nat) : Int)) := by
    simp [parts, partPayload, Function.comp_def, add_assoc]
  have hlimits : limits.Respects
      (parts.map fun part => ((partPayload header part).length : Int)) :=
    hsizes ▸ hrespects.of_shrink
  have hends : ∀ part ∈ parts, (part.2.1 && part.2.2) = false := by
    simp only [parts, mem_cons, mem_append, mem_map, not_mem_nil, or_false]
    rintro part (rfl | ⟨piece, -, rfl⟩ | rfl) <;> rfl
  have hfits : ∀ part ∈ parts, (partPayload header part).length ≤ freeCapacity := by
    intro part hpart
    have hle := hlimits.size_le hfirst hlast (mem_map_of_mem hpart)
    omega
  refine ⟨by rwa [map_map], emits_parts hends hfits, ?_, ?_⟩
  · have hgrouped : Grouped [header :: (first ++ middle.flatten ++ last)]
        (parts.map (partPayload header) ++ []) :=
      .fuA (isFragmented_parts header first last middle) .nil
    rwa [append_nil] at hgrouped
  · refine ⟨(startCode ++ header :: first) :: (middle ++ [last]), ?_, ?_⟩
    · rw [map_cons, map_append, map_map]
      refine .cons (yields_fuA header first true false) (rel_append ?_ ?_)
      · rw [forall₂_map_left_iff]
        exact forall₂_same.mpr fun piece _ => yields_fuA header piece false false
      · exact .cons (yields_fuA header last false true) .nil
    · simp [withStartCodes]

end Sending

section Generating

variable {parsers : Parsers} {freeCapacity : Nat} {limits : PayloadSizeLimits}
  {mode : PacketizationMode} {count index : Nat} {fragment : List UInt8}

def Queues (parsers : Parsers) (freeCapacity : Nat) (limits : PayloadSizeLimits)
    (nalus : List (List UInt8)) (result : Except Stop (List PacketUnit)) : Prop :=
  result ≠ .error .checkFailed ∧
    ∀ units, result = .ok units → ∃ payloads, Sends parsers freeCapacity limits nalus units payloads

theorem packetizeFuA_queues (parsers : Parsers) (h : SoundLimits limits mode)
    (hcapacity : limits.maxPayloadLen ≤ freeCapacity) (hindex : index < count)
    (hunit : IsUnit fragment)
    (hlarge : (fragment.length : Int) > limits.maxPayloadLen - packetReduction limits count index) :
    Queues parsers freeCapacity (limits.within (index = 0) (index + 1 = count)) [fragment]
      (packetizeFuA limits count index fragment) := by
  have hnonneg := PayloadSizeLimits.within_nonneg h.first_nonneg h.last_nonneg (index = 0)
    (index + 1 = count)
  have hsingle := h.reduction_nonneg (index = 0) (index + 1 = count)
  have hmax : (limits.within (index = 0) (index + 1 = count)).maxPayloadLen =
    limits.maxPayloadLen := rfl
  rw [packetReduction_eq limits hindex] at hlarge
  unfold packetizeFuA
  rw [fragmentLimits_eq limits 2 hindex]
  generalize limits.within (index = 0) (index + 1 = count) = inner at *
  obtain ⟨header, data, rfl⟩ := exists_cons_of_ne_nil hunit.ne_nil
  have hlen : (((header :: data).length : Int) - 1) = data.length := by simp
  rw [hlen]
  cases hsplit : splitAboutEqually data.length (inner.shrink 2) with
  | none => exact ⟨by simp, by simp⟩
  | some sizes =>
    by_cases hne : sizes = []
    · simp only [if_pos hne]
      exact ⟨by simp, by simp⟩
    have hdata : data ≠ [] := by
      rintro rfl
      refine hne (splitAboutEqually_zero ?_ hsplit)
      simp only [PayloadSizeLimits.shrink]
      simp at hlarge
      omega
    have hlarge' : (inner.shrink 2).maxPayloadLen <
        (inner.shrink 2).singlePacketReductionLen + data.length := by
      simp only [PayloadSizeLimits.shrink]
      simp at hlarge
      omega
    have hfirst : 0 ≤ (inner.shrink 2).firstPacketReductionLen := hnonneg.1
    have hlast : 0 ≤ (inner.shrink 2).lastPacketReductionLen := hnonneg.2
    obtain ⟨hsplit', first, middle, last, hmark, hwhole, hrespects⟩ :=
      markEnds_cut hdata hfirst hlast hlarge' hsplit hne
    simp only [if_neg hne, if_pos (And.intro hsplit'.pos hsplit'.sum), drop_succ_cons,
      drop_zero, hmark, headD_cons]
    refine ⟨by simp, ?_⟩
    intro units hunits
    obtain rfl := Except.ok.inj hunits
    rw [← hwhole]
    exact ⟨_, sends_fuA hnonneg.1 hnonneg.2 hsingle (hmax ▸ hcapacity) hrespects⟩

theorem packetizeSingleNalu_queues (hkeeps : parsers.KeepsSps)
    (h : SoundLimits limits .singleNalUnit) (hcapacity : limits.maxPayloadLen ≤ freeCapacity)
    (hindex : index < count) (hunit : IsUnit fragment) :
    Queues parsers freeCapacity (limits.within (index = 0) (index + 1 = count)) [fragment]
      (packetizeSingleNalu limits count index fragment) := by
  obtain ⟨hfirst, hlast, hsingle⟩ := h.room rfl
  have hreduction := h.reduction_nonneg (index = 0) (index + 1 = count)
  have hroom : packetReduction limits count index ≤ limits.maxPayloadLen := by
    unfold packetReduction
    have hmax := h.first_nonneg.trans hfirst
    split_ifs <;> assumption
  simp only [packetizeSingleNalu, toSizeT_of_nonneg (sub_nonneg.mpr hroom)]
  by_cases hfits : limits.maxPayloadLen - packetReduction limits count index < fragment.length
  · rw [if_pos hfits]
    exact ⟨by simp, by simp⟩
  · rw [if_neg hfits, if_neg hunit.ne_nil]
    refine ⟨by simp, fun units hunits => ?_⟩
    obtain rfl := Except.ok.inj hunits
    rw [packetReduction_eq limits hindex] at hfits
    exact ⟨_, sends_single hkeeps hunit false _ (not_lt.mp hfits) (by omega)⟩

variable {units : List (List UInt8)}

theorem length_le_flatten (hne : ∀ unit ∈ units, unit ≠ []) :
    units.length ≤ units.flatten.length := by
  induction units with
  | nil => exact Nat.zero_le _
  | cons unit rest ih =>
    have hpos := length_pos_iff.mpr (hne unit mem_cons_self)
    have hrest := ih fun other ho => hne other (mem_cons_of_mem _ ho)
    rw [flatten_cons, length_append, length_cons]
    omega

theorem length_add_length_le {unit : List UInt8}
    (hne : ∀ unit ∈ units, unit ≠ []) (hunit : unit ∈ units) :
    unit.length + units.length ≤ units.flatten.length + 1 := by
  obtain ⟨before, after, rfl⟩ := append_of_mem hunit
  have hbefore := length_le_flatten fun other ho => hne other (mem_append_left _ ho)
  have hafter := length_le_flatten fun other ho =>
    hne other (mem_append_right _ (mem_cons_of_mem _ ho))
  simp only [flatten_append, flatten_cons, length_append, length_cons]
  omega

theorem packetizeStapA_queues (hkeeps : parsers.KeepsSps) (h : SoundLimits limits mode)
    (hcapacity : limits.maxPayloadLen ≤ freeCapacity)
    (hunits : ∀ unit ∈ fragment :: rest, IsUnit unit)
    (hcount : index + (fragment :: rest).length = count)
    (hfits : (fragment.length : Int) ≤ limits.maxPayloadLen - packetReduction limits count index) :
    ∃ taken left payloads, packetizeStapA limits count index (fragment :: rest) =
        .ok (stapAUnits (fragment :: taken), left) ∧ taken ++ left = rest ∧
      Sends parsers freeCapacity (limits.within (index = 0) left.isEmpty) (fragment :: taken)
        (stapAUnits (fragment :: taken)) payloads := by
  have hindex : index < count := by
    rw [length_cons] at hcount
    omega
  have hlast := decide_last hcount
  rw [packetReduction_eq limits hindex, hlast] at hfits
  have hreduction := h.reduction_nonneg (index = 0) rest.isEmpty
  have hmax : 0 ≤ limits.maxPayloadLen := by omega
  obtain ⟨taken, left, hloop, happend, hbound⟩ := stapALoop_first h (index = 0)
    (fun unit hunit => (hunits unit hunit).ne_nil) hcount
    (show limits.maxPayloadLen ≥ _ by omega)
  have hstapA : packetizeStapA limits count index (fragment :: rest) =
      .ok (stapAUnits (fragment :: taken), left) := by
    simp only [packetizeStapA, toSizeT_of_nonneg hmax, headD_cons]
    rw [if_neg (by omega), hloop]
    rfl
  refine ⟨taken, left, ?_⟩
  have hreduction' := h.reduction_nonneg (index = 0) left.isEmpty
  by_cases htaken : taken = []
  · subst htaken
    rw [nil_append] at happend
    subst happend
    exact ⟨[fragment], hstapA, rfl, sends_single hkeeps (hunits fragment mem_cons_self) true _
      hfits (by omega)⟩
  · have hle := hbound htaken
    have htwo : 2 ≤ (fragment :: taken).length := by
      have hpos := length_pos_iff.mpr htaken
      rw [length_cons]
      omega
    have hsub : ∀ unit ∈ fragment :: taken, IsUnit unit := by
      intro unit hunit
      apply hunits
      rw [← happend, ← cons_append]
      exact mem_append_left _ hunit
    have hlen : ∀ unit ∈ fragment :: taken, unit.length < 65536 := by
      intro unit hunit
      have hlong := length_add_length_le (fun other ho => (hsub other ho).ne_nil) hunit
      have hmax' := h.max_le
      omega
    obtain ⟨payload, hsends⟩ := sends_stapA hkeeps hsub htwo hlen
      (show _ ≤ limits.maxPayloadLen -
        (limits.within (index = 0) left.isEmpty).singlePacketReductionLen by omega)
      (show _ ≤ freeCapacity by omega)
    exact ⟨[payload], hstapA, happend, hsends⟩

theorem Queues.last {isFirst : Bool} {nalus : List (List UInt8)}
    {step : Except Stop (List PacketUnit)}
    (h : Queues parsers freeCapacity (limits.within isFirst true) nalus step) :
    Queues parsers freeCapacity (limits.within isFirst true) nalus
      (do let units ← step; let others ← .ok []; return units ++ others) := by
  cases step with
  | error stop => exact h
  | ok units =>
    refine ⟨fun hcheck => (by cases hcheck), fun others hothers => ?_⟩
    obtain rfl := Except.ok.inj hothers
    rw [append_nil]
    exact h.2 units rfl

theorem Queues.append {isFirst : Bool} {step rest : Except Stop (List PacketUnit)}
    (h : Queues parsers freeCapacity (limits.within isFirst false) nalus step)
    (h' : Queues parsers freeCapacity (limits.within false true) nalus' rest) :
    Queues parsers freeCapacity (limits.within isFirst true) (nalus ++ nalus')
      (do let units ← step; let others ← rest; return units ++ others) := by
  cases step with
  | error stop => exact ⟨h.1, fun units hunits => (by cases hunits)⟩
  | ok units =>
    cases rest with
    | error stop => exact ⟨h'.1, fun units hunits => (by cases hunits)⟩
    | ok others =>
      refine ⟨fun hcheck => (by cases hcheck), fun all hall => ?_⟩
      obtain rfl := Except.ok.inj hall
      obtain ⟨payloads, hsends⟩ := h.2 units rfl
      obtain ⟨payloads', hsends'⟩ := h'.2 others rfl
      exact ⟨payloads ++ payloads', hsends.append hsends'⟩

theorem Queues.step {nalus rest : List (List UInt8)} {step : Except Stop (List PacketUnit)}
    {next : Except Stop (List PacketUnit)} (hnalus : nalus ≠ [])
    (h : Queues parsers freeCapacity (limits.within (index = 0) rest.isEmpty) nalus step)
    (hlast : rest = [] → next = .ok []) (hnext : rest ≠ [] → Queues parsers freeCapacity
      (limits.within (index + nalus.length = 0) true) rest next) :
    Queues parsers freeCapacity (limits.within (index = 0) true) (nalus ++ rest)
      (do let units ← step; let others ← next; return units ++ others) := by
  have hpos := length_pos_iff.mpr hnalus
  cases rest with
  | nil =>
    rw [hlast rfl, append_nil]
    exact h.last
  | cons other rest =>
    have hmore := hnext (cons_ne_nil _ _)
    rw [decide_eq_false (show ¬ index + nalus.length = 0 by omega)] at hmore
    exact h.append hmore

theorem generatePackets_queues (hkeeps : parsers.KeepsSps) (h : SoundLimits limits mode)
    (hcapacity : limits.maxPayloadLen ≤ freeCapacity) {fragments : List (List UInt8)}
    (hunits : ∀ unit ∈ fragments, IsUnit unit) (hne : fragments ≠ [])
    (hcount : index + fragments.length = count) {rounds : Nat} (hrounds : fragments.length ≤ rounds) :
    Queues parsers freeCapacity (limits.within (index = 0) true) fragments
      (generatePackets limits count mode rounds index fragments) := by
  induction rounds generalizing index fragments with
  | zero => exact absurd (length_eq_zero_iff.mp (by omega)) hne
  | succ rounds ih =>
    obtain ⟨fragment, rest, rfl⟩ := exists_cons_of_ne_nil hne
    have hunit := hunits fragment mem_cons_self
    have hrest : ∀ unit ∈ rest, IsUnit unit := fun unit hu => hunits unit (mem_cons_of_mem _ hu)
    have hempty (i : Nat) : rest = [] → generatePackets limits count mode rounds i rest = .ok [] := by
      rintro rfl
      cases rounds <;> rfl
    have hlast := decide_last hcount
    rw [length_cons] at hcount hrounds
    cases mode with
    | singleNalUnit =>
      have hstep := packetizeSingleNalu_queues hkeeps h hcapacity (show index < count by omega) hunit
      rw [hlast] at hstep
      exact hstep.step (cons_ne_nil _ _) (hempty _) fun hne' =>
        ih hrest hne' (show index + 1 + rest.length = count by omega) (by omega)
    | nonInterleaved =>
      rw [generatePackets]
      by_cases hlarge : (fragment.length : Int) >
          limits.maxPayloadLen - packetReduction limits count index
      · have hstep := packetizeFuA_queues parsers h hcapacity (show index < count by omega) hunit
          hlarge
        rw [hlast] at hstep
        simp only [if_pos hlarge]
        exact hstep.step (cons_ne_nil _ _) (hempty _) fun hne' =>
          ih hrest hne' (show index + 1 + rest.length = count by omega) (by omega)
      · simp only [if_neg hlarge]
        obtain ⟨taken, left, payloads, hstapA, rfl, hsends⟩ := packetizeStapA_queues hkeeps h
          hcapacity hunits (show index + (fragment :: rest).length = count by
            rw [length_cons]; omega) (not_lt.mp hlarge)
        have hlength : (stapAUnits (fragment :: taken)).length = (fragment :: taken).length := by
          rw [stapAUnits, length_map, length_markEnds]
        rw [length_append] at hcount hrounds
        rw [hstapA]
        have hstep : Queues parsers freeCapacity (limits.within (index = 0) left.isEmpty)
            (fragment :: taken) (.ok (stapAUnits (fragment :: taken))) := by
          refine ⟨fun hcheck => (by cases hcheck), fun units hok => ?_⟩
          obtain rfl := Except.ok.inj hok
          exact ⟨payloads, hsends⟩
        refine hstep.step (cons_ne_nil _ _) ?_ fun hne' => ?_
        · rintro rfl
          cases rounds <;> rfl
        · rw [hlength]
          exact ih (fun unit hu => hrest unit (mem_append_right _ hu)) hne'
            (by rw [length_cons]; omega) (by omega)

end Generating

structure IsSent (nalu : List UInt8) : Prop extends IsNalu nalu where
  type_pos : 1 ≤ naluType (nalu.headD 0)
  type_le : naluType (nalu.headD 0) ≤ 23

theorem IsSent.isUnit {nalu : List UInt8} (h : IsSent nalu) : IsUnit nalu where
  ne_nil := h.ne_nil
  not_stapA := fun htype => absurd (htype ▸ h.type_le) (by decide)
  not_fuA := fun htype => absurd (htype ▸ h.type_le) (by decide)

/-- No check fails, and if there are packets, they keep to the limits, carry the units whole, in
aggregates or in fragments, and the units arrive behind start codes. -/
theorem packetizeH264_deliver {parsers : Parsers} (hkeeps : parsers.KeepsSps)
    {limits : PayloadSizeLimits} {mode : PacketizationMode} (hlimits : SoundLimits limits mode)
    {units : List (Bool × List UInt8)} (hunits : ∀ unit ∈ units, IsSent unit.2) {freeCapacity : Nat}
    (hcapacity : limits.maxPayloadLen ≤ freeCapacity) {t : SpsPpsTracker} (ht : t.InBand) :
    packetize freeCapacity limits mode (annexB units) ≠ .error .checkFailed ∧
      ∀ packets, packetize freeCapacity limits mode (annexB units) = .ok packets → packets ≠ [] →
        limits.Respects (packets.map fun packet => (packet.payload.length : Int)) ∧
        Grouped (units.map Prod.snd) (packets.map (·.payload)) ∧
        ∃ fixed, deliver parsers t (packets.map (·.payload)) = some fixed ∧
          ((∀ f ∈ fixed, f.action = .insert) →
            (fixed.map (·.bitstream)).flatten = withStartCodes (units.map Prod.snd)) := by
  have hfragments : inputFragments (annexB units) = units.map Prod.snd :=
    inputFragments_annexB fun unit hunit => (hunits unit hunit).toIsNalu
  have hfragment : ∀ fragment ∈ units.map Prod.snd, IsUnit fragment := by
    intro fragment hmem
    obtain ⟨unit, hunit, rfl⟩ := mem_map.mp hmem
    exact (hunits unit hunit).isUnit
  have hempty : [] ∉ units.map Prod.snd := fun hmem => (hfragment [] hmem).ne_nil rfl
  unfold packetize
  simp only [hfragments, if_neg hempty]
  by_cases hne : units.map Prod.snd = []
  · rw [hne]
    refine ⟨fun hcheck => (by cases hcheck), fun packets hpackets hpackets' => ?_⟩
    obtain rfl := Except.ok.inj hpackets
    exact absurd rfl hpackets'
  obtain ⟨hcheck, hqueued⟩ := generatePackets_queues hkeeps hlimits hcapacity hfragment hne
    (Nat.zero_add (units.map Prod.snd).length) le_rfl
  cases hgenerated : generatePackets limits (units.map Prod.snd).length mode
      (units.map Prod.snd).length 0 (units.map Prod.snd) with
  | error stop =>
    cases stop with
    | checkFailed => exact absurd hgenerated hcheck
    | undefined => exact ⟨by simp, by simp⟩
    | discarded =>
      refine ⟨by simp, fun packets hpackets hpackets' => ?_⟩
      obtain rfl := Except.ok.inj hpackets
      exact absurd rfl hpackets'
  | ok queue =>
    obtain ⟨payloads, hsends⟩ := hqueued queue hgenerated
    obtain ⟨packets, hpackets, hpayloads⟩ := hsends.emits.nextPackets le_rfl
    simp only [hpackets]
    refine ⟨by simp, fun other hother _ => ?_⟩
    obtain rfl := Except.ok.inj hother
    have hlengths : packets.map (fun packet => (packet.payload.length : Int)) =
        payloads.map fun payload => (payload.length : Int) := by
      rw [← hpayloads, map_map]
      rfl
    rw [hlengths, hpayloads]
    refine ⟨hsends.respects, hsends.grouped, ?_⟩
    obtain ⟨outs, houts, hflatten⟩ := hsends.yields
    rw [← hflatten]
    exact deliver_of_yields houts ht

def Parsers.failing : Parsers := ⟨fun _ => (none, none), fun _ => none, fun _ => none⟩

theorem packetize_deliver_three_units : let units : List (Bool × List UInt8) :=
      [(true, [9, 16]), (false, [6, 5]), (true, [0x41, 1, 2, 3, 4, 5, 6, 7, 8, 9, 10, 11])]
    ∃ packets, packetize 10 ⟨10, 1, 1, 1⟩ .nonInterleaved (annexB units) = .ok packets ∧
      PayloadSizeLimits.Respects ⟨10, 1, 1, 1⟩
        (packets.map fun packet => (packet.payload.length : Int)) ∧
      Grouped (units.map Prod.snd) (packets.map (·.payload)) ∧
      ∃ fixed, deliver .failing .init (packets.map (·.payload)) = some fixed ∧
        ((∀ f ∈ fixed, f.action = .insert) →
          (fixed.map (·.bitstream)).flatten = withStartCodes (units.map Prod.snd)) := by
  have hunits : ∀ unit ∈ [(true, [9, 16]), (false, [6, 5]),
      (true, [0x41, 1, 2, 3, 4, 5, 6, 7, 8, 9, 10, 11])], IsSent unit.2 := by
    have h1 : IsSent [9, 16] := ⟨⟨by decide, by decide, by decide⟩, by decide, by decide⟩
    have h2 : IsSent [6, 5] := ⟨⟨by decide, by decide, by decide⟩, by decide, by decide⟩
    have h3 : IsSent [0x41, 1, 2, 3, 4, 5, 6, 7, 8, 9, 10, 11] :=
      ⟨⟨by decide, by decide, by decide⟩, by decide, by decide⟩
    simp [h1, h2, h3]
  have hlimits : SoundLimits ⟨10, 1, 1, 1⟩ .nonInterleaved :=
    ⟨by decide, by decide, by decide, by decide, by simp⟩
  have hkeeps : Parsers.failing.KeepsSps := fun _ _ h => (by cases h)
  have hdeliver := packetizeH264_deliver hkeeps hlimits hunits
    (show (10 : Int) ≤ (10 : Nat) by decide) SpsPpsTracker.inBand_init
  exact ⟨_, rfl, hdeliver.2 _ rfl (by decide)⟩

/-- The room left in a packet is computed without a sign: if there is less than none, a unit of
any size is sent. -/
theorem reduction_above_maximum_exceeds_limit : packetize 100 ⟨10, 0, 0, 20⟩ .singleNalUnit
      (annexB [(true, [1, 2, 3, 4, 5, 6, 7, 8, 9, 10, 11, 12])]) =
        .ok [⟨[1, 2, 3, 4, 5, 6, 7, 8, 9, 10, 11, 12], true⟩] ∧
      ¬ PayloadSizeLimits.Respects ⟨10, 0, 0, 20⟩ [12] := by
  constructor
  · rfl
  · simp [PayloadSizeLimits.Respects]

end WebRtc.Rtp.H264
