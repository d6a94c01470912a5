import WebRtc.Rtp.H265Packetizer

/-! Whole frames of H.265: which of their units the packetizer sends, and which of them come out
behind a start code when the flags of the packets are those of the frame. -/

namespace WebRtc.Rtp.H265

open ByteBuffer List

def fuPacket (b0 b1 : UInt8) (first last : Bool) (piece : List UInt8) : List UInt8 :=
  fuPayloadHdrH b0.toBitVec :: b1 :: fuHeader b0.toBitVec first last :: piece

/-- The payloads carry the unit, in one packet or as two or more fragments. -/
inductive Carries : List UInt8 → List (List UInt8) → Prop
  | single (nalu : List UInt8) : Carries nalu [nalu]
  | fragmented (b0 b1 : UInt8) (first : List UInt8) (middle : List (List UInt8))
      (last : List UInt8) :
      Carries (b0 :: b1 :: (first ++ middle.flatten ++ last))
        (fuPacket b0 b1 true false first ::
          (middle.map (fuPacket b0 b1 false false) ++ [fuPacket b0 b1 false true last]))

variable {payloads : List (List UInt8)}

theorem Carries.single_or_two_le {nalu : List UInt8}
    (h : Carries nalu payloads) : payloads = [nalu] ∨ 2 ≤ payloads.length := by
  cases h with
  | single => exact .inl rfl
  | fragmented => exact .inr (by simp)

section Sending

variable (limits : PayloadSizeLimits) (count : Nat)

def Fits (nalu : List UInt8 × Nat) : Prop :=
  (nalu.1.length : Int) ≤ limits.maxPayloadLen - packetReduction limits count nalu.2

/-- The sizes of the fragments of a unit that does not fit. -/
def pieceSizes (nalu : List UInt8 × Nat) : Option (List Int) :=
  splitAboutEqually ((nalu.1.length : Int) - 2) (fuLimits limits count nalu.2)

def Sendable (nalu : List UInt8 × Nat) : Prop :=
  Fits limits count nalu ∨ ∃ sizes, pieceSizes limits count nalu = some sizes ∧ 2 ≤ sizes.length

def Omitted (nalu : List UInt8 × Nat) : Prop :=
  ¬ Fits limits count nalu ∧ pieceSizes limits count nalu = some []

variable {limits count} {nalu : List UInt8 × Nat} {units : List PacketUnit}

theorem packetizeFragment_of_fits (hfits : Fits limits count nalu)
    (h : packetizeFragment limits count nalu.2 nalu.1 = some units) :
    units.map (·.payload) = [nalu.1] := by
  have hle : (nalu.1.length : Int) ≤ limits.maxPayloadLen - packetReduction limits count nalu.2 :=
    hfits
  have hleft : toSizeT (limits.maxPayloadLen - packetReduction limits count nalu.2) =
      limits.maxPayloadLen - packetReduction limits count nalu.2 := if_neg (by omega)
  rw [packetizeFragment, if_neg (not_lt.mpr hle), packetizeSingleNalu] at h
  simp only [hleft] at h
  rw [if_neg (not_lt.mpr hle)] at h
  split_ifs at h
  cases h
  rfl

theorem packetizeFragment_of_not_fits (hfits : ¬ Fits limits count nalu)
    (h : packetizeFragment limits count nalu.2 nalu.1 = some units) :
    ∃ sizes, pieceSizes limits count nalu = some sizes ∧ (sizes = [] → units = []) ∧
      (sizes ≠ [] → (∀ size ∈ sizes, 0 < size) ∧ sizes.sum = (nalu.1.length : Int) - 2 ∧
        units = (markEnds true (cut sizes (nalu.1.drop 2))).map fun piece =>
          ⟨piece.1, piece.2.1, piece.2.2, load16 nalu.1 0⟩) := by
  rw [packetizeFragment, if_pos (not_le.mp hfits), packetizeFu] at h
  obtain ⟨sizes, hsizes, h⟩ := Option.bind_eq_some_iff.mp h
  refine ⟨sizes, hsizes, ?_, ?_⟩
  · rintro rfl
    exact (Option.some.inj h).symm
  · intro hne
    rw [if_neg hne] at h
    split_ifs at h with hchecks
    exact ⟨hchecks.1, hchecks.2, (Option.some.inj h).symm⟩

theorem carries_pieces {fragment : List UInt8} {sizes : List Int} (hpos : ∀ size ∈ sizes, 0 < size)
    (hsum : sizes.sum = (fragment.length : Int) - 2) (htwo : 2 ≤ sizes.length) :
    Carries fragment (((markEnds true (cut sizes (fragment.drop 2))).map fun piece =>
      (⟨piece.1, piece.2.1, piece.2.2, load16 fragment 0⟩ : PacketUnit)).map (·.payload)) := by
  have hlen := PayloadSizeLimits.length_le_sum hpos
  obtain ⟨b0, b1, data, rfl⟩ : ∃ b0 b1 data, fragment = b0 :: b1 :: data := by
    match fragment, show 2 ≤ fragment.length by omega with
    | b0 :: b1 :: data, _ => exact ⟨b0, b1, data, rfl⟩
  rw [drop_succ_cons, drop_succ_cons, drop_zero]
  have hdata : sizes.sum = data.length := by
    simp only [length_cons] at hsum
    omega
  obtain ⟨hflatten, hlengths⟩ := cut_spec hdata hpos
  have hcount : 2 ≤ (cut sizes data).length := by
    rw [← hlengths, length_map] at htwo
    exact htwo
  obtain ⟨first, middle, last, hcut⟩ : ∃ first middle last,
      cut sizes data = first :: (middle ++ [last]) := by
    match hc : cut sizes data, hcount with
    | first :: b :: rest, _ =>
      exact ⟨first, (b :: rest).dropLast, (b :: rest).getLast (cons_ne_nil _ _),
        by rw [dropLast_append_getLast]⟩
  rw [hcut, markEnds_pair]
  have hdata : data = first ++ middle.flatten ++ last := by
    rw [← hflatten, hcut]
    simp
  have hheader : load16 (b0 :: b1 :: data) 0 = b0.toBitVec ++ b1.toBitVec := rfl
  rw [hheader, hdata]
  simp only [map_cons, map_append, map_map, map_nil, Function.comp_def,
    part_payload b0 b1 _ (Bool.and_false _), part_payload b0 b1 _ (Bool.false_and _)]
  exact .fragmented b0 b1 first middle last

theorem carries_iff (h : packetizeFragment limits count nalu.2 nalu.1 = some units) :
    (Carries nalu.1 (units.map (·.payload)) ↔ Sendable limits count nalu) ∧
      (units = [] ↔ Omitted limits count nalu) := by
  by_cases hfits : Fits limits count nalu
  · have hpayloads := packetizeFragment_of_fits hfits h
    refine ⟨iff_of_true ?_ (.inl hfits), iff_of_false ?_ fun ho => ho.1 hfits⟩
    · rw [hpayloads]
      exact .single _
    · rintro rfl
      simp at hpayloads
  · obtain ⟨sizes, hsizes, hnil, hcons⟩ := packetizeFragment_of_not_fits hfits h
    have hfew (hlt : sizes.length < 2) : ¬ Sendable limits count nalu := by
      rintro (hf | ⟨other, hother, htwo⟩)
      · exact hfits hf
      · cases hsizes.symm.trans hother
        omega
    match sizes with
    | [] =>
      obtain rfl := hnil rfl
      refine ⟨iff_of_false ?_ (hfew (by simp)), iff_of_true rfl ⟨hfits, hsizes⟩⟩
      intro hc
      simpa using hc.single_or_two_le
    | [size] =>
      -- The only fragment is sent without a header, as if it was a unit of its own.
      obtain ⟨hpos, hsum, rfl⟩ := hcons (by simp)
      have hs := hpos size mem_cons_self
      simp only [sum_cons, sum_nil, add_zero] at hsum
      have hpay : ((markEnds true (cut [size] (nalu.1.drop 2))).map fun piece =>
          (⟨piece.1, piece.2.1, piece.2.2, load16 nalu.1 0⟩ : PacketUnit)).map (·.payload) =
          [(nalu.1.drop 2).take size.toNat] := rfl
      rw [hpay]
      refine ⟨iff_of_false ?_ ?_, iff_of_false (by simp [cut, markEnds]) ?_⟩
      · intro hc
        rcases hc.single_or_two_le with he | htwo
        · have hl := congrArg (List.map List.length) he
          simp only [map_cons, length_take, length_drop, map_nil, List.cons.injEq, and_true] at hl
          omega
        · simp at htwo
      · exact hfew (by simp)
      · rintro ⟨-, hn⟩
        simp [hsizes] at hn
    | a :: b :: rest =>
      obtain ⟨hpos, hsum, rfl⟩ := hcons (by simp)
      refine ⟨iff_of_true (carries_pieces hpos hsum (by simp)) (.inr ⟨_, hsizes, by simp⟩),
        iff_of_false ?_ ?_⟩
      · intro hc
        have := congrArg List.length hc
        simp [cut] at this
      · rintro ⟨-, hn⟩
        simp [hsizes] at hn

theorem generatePackets_groups {index : Nat} {fragments : List (List UInt8)}
    (h : generatePackets limits count index fragments = some units) :
    ∃ groups, units = groups.flatten ∧
      List.Forall₂ (fun nalu group => packetizeFragment limits count nalu.2 nalu.1 = some group)
        (fragments.zipIdx index) groups := by
  induction fragments generalizing index units with
  | nil =>
    cases h
    exact ⟨[], rfl, .nil⟩
  | cons fragment rest ih =>
    rw [generatePackets] at h
    obtain ⟨group, hgroup, h⟩ := Option.bind_eq_some_iff.mp h
    obtain ⟨others, hothers, h⟩ := Option.bind_eq_some_iff.mp h
    cases h
    obtain ⟨groups, rfl, hgroups⟩ := ih hothers
    refine ⟨group :: groups, rfl, ?_⟩
    rw [zipIdx_cons]
    exact .cons hgroup hgroups

theorem groups_iff {nalus : List (List UInt8 × Nat)} {groups : List (List PacketUnit)}
    (h : List.Forall₂ (fun nalu group => packetizeFragment limits count nalu.2 nalu.1 = some group)
      nalus groups) :
    (List.Forall₂ (fun nalu group => Carries nalu.1 (group.map (·.payload))) nalus groups ↔
        ∀ nalu ∈ nalus, Sendable limits count nalu) ∧
      (groups.flatten = [] ↔ ∀ nalu ∈ nalus, Omitted limits count nalu) := by
  induction h with
  | nil => simp
  | cons hgroup _ ih =>
    obtain ⟨hcarries, hnil⟩ := carries_iff hgroup
    rw [forall₂_cons, forall_mem_cons, forall_mem_cons, flatten_cons,
      append_eq_nil_iff, ih.1, ih.2, hcarries, hnil]
    exact ⟨Iff.rfl, Iff.rfl⟩

end Sending

/-- The packets of a payload are those of its units, one after the other. There are none, or they
carry every unit, exactly if all units are omitted or all can be sent. -/
theorem all_or_nothing_iff (limits : PayloadSizeLimits) (payload : List UInt8)
    {units : List PacketUnit}
    (h : generatePackets limits (inputFragments payload).length 0 (inputFragments payload) =
      some units) : ∃ groups, units = groups.flatten ∧ List.Forall₂ (fun nalu group =>
        packetizeFragment limits (inputFragments payload).length nalu.2 nalu.1 = some group)
        (inputFragments payload).zipIdx groups ∧
      (units = [] ∨ List.Forall₂ (fun nalu group => Carries nalu.1 (group.map (·.payload)))
          (inputFragments payload).zipIdx groups ↔ (∀ nalu ∈ (inputFragments payload).zipIdx,
          Omitted limits (inputFragments payload).length nalu) ∨
        ∀ nalu ∈ (inputFragments payload).zipIdx,
          Sendable limits (inputFragments payload).length nalu) := by
  obtain ⟨groups, hunits, hgroups⟩ := generatePackets_groups h
  obtain ⟨hcarries, hnil⟩ := groups_iff hgroups
  refine ⟨groups, hunits, hgroups, ?_⟩
  rw [hunits, hcarries, hnil]

theorem all_or_nothing_two_units :
    ∃ units groups, generatePackets ⟨5, 1, 1, 0⟩ 2 0 [[2, 1, 7], [2, 1]] = some units ∧
      units = groups.flatten ∧
      List.Forall₂ (fun nalu group => Carries nalu.1 (group.map (·.payload)))
        [([2, 1, 7], 0), ([2, 1], 1)] groups := by
  have hfragments : inputFragments (annexB [(true, [2, 1, 7]), (true, [2, 1])]) =
      [[2, 1, 7], [2, 1]] := by decide +kernel
  obtain ⟨units, hunits⟩ := Option.isSome_iff_exists.mp
    (show (generatePackets ⟨5, 1, 1, 0⟩ 2 0 [[2, 1, 7], [2, 1]]).isSome by decide)
  have hne : generatePackets ⟨5, 1, 1, 0⟩ 2 0 [[2, 1, 7], [2, 1]] ≠ some [] := by decide
  have hiff := @all_or_nothing_iff ⟨5, 1, 1, 0⟩
    (annexB [(true, [2, 1, 7]), (true, [2, 1])]) units
  rw [hfragments] at hiff
  obtain ⟨groups, hflatten, -, hcarries⟩ := hiff hunits
  have hfits : ∀ nalu ∈ [([2, 1, 7], 0), ([2, 1], 1)], Sendable ⟨5, 1, 1, 0⟩ 2 nalu := by
    simp [Sendable, Fits, packetReduction]
  refine ⟨units, groups, hunits, hflatten, (hcarries.mpr (.inr hfits)).resolve_left ?_⟩
  rintro rfl
  exact hne hunits

/-- The last unit cannot be split, as there is no room for data in the last packet, and the other
one is sent. -/
theorem omits_last_unit : inputFragments (annexB [(true, [2, 1, 7]), (true, [2, 1, 5, 6])]) =
        [[2, 1, 7], [2, 1, 5, 6]] ∧ (generatePackets ⟨4, 0, 1, 0⟩ 2 0 [[2, 1, 7], [2, 1, 5, 6]]).map
        (List.map (·.payload)) = some [[2, 1, 7]] := by
  decide +kernel

/-- What the dependency descriptor or the generic frame descriptor of a packet says. -/
structure FrameDescriptor where
  firstPacketInFrame : Bool
  frameType : Option VideoFrameType
  resolution : Option (BitVec 16 × BitVec 16)

/-- The part of `ParseGenericDependenciesExtension` that changes the header. -/
def VideoHeader.withDescriptor (header : VideoHeader) (d : FrameDescriptor) : VideoHeader :=
  { header with
    isFirstPacketInFrame := d.firstPacketInFrame
    frameType := d.frameType.getD header.frameType
    width := (d.resolution.map Prod.fst).getD header.width
    height := (d.resolution.map Prod.snd).getD header.height }

/-- `OnReceivedPayloadData` for the packets of a frame, up to the tracker. -/
def deliverFrame (parsers : Parsers) (t : VpsSpsPpsTracker) :
    List (List UInt8 × FrameDescriptor) → Option (List FixedBitstream)
  | [] => some []
  | (payload, descriptor) :: rest => do
    let parsed ← parse parsers payload
    let fixed := t.copyAndFixBitstream parsed.videoPayload
      (parsed.videoHeader.withDescriptor descriptor)
    let others ← deliverFrame parsers fixed.tracker rest
    return fixed.fixed :: others

variable {nalus : List (List UInt8)}

section Receiving

variable {parsers : Parsers} {t : VpsSpsPpsTracker}

theorem trackNalus_of_not_first {s : TrackState} (nalus : List NaluInfo)
    (hfirst : s.header.isFirstPacketInFrame = false) : (TrackState.trackNalus nalus s).2 = false ∧
      (TrackState.trackNalus nalus s).1.appendVpsSpsPps = s.appendVpsSpsPps := by
  induction nalus generalizing s with
  | nil => exact ⟨rfl, rfl⟩
  | cons nalu rest ih =>
    have hlacks : s.lacksSets nalu = false := by simp [TrackState.lacksSets, hfirst]
    have happend : (s.receive nalu).appendVpsSpsPps = s.appendVpsSpsPps := by
      rw [TrackState.receive]
      simp only [hfirst, Bool.and_false]
      split_ifs <;> first | rfl | contradiction
    rw [TrackState.trackNalus, hlacks]
    obtain ⟨hreq, happ⟩ := ih (s := s.receive nalu) (by rw [TrackState.receive_isFirst, hfirst])
    exact ⟨hreq, happ.trans happend⟩

theorem copyAndFixBitstream_not_first (payload : List UInt8) {header : VideoHeader}
    (hkind : header.packetizationType ≠ .ap) (hfirst : header.isFirstPacketInFrame = false) :
    (t.copyAndFixBitstream payload header).fixed = ⟨.insert, payload⟩ := by
  obtain ⟨hreq, happend⟩ := trackNalus_of_not_first (s := ⟨t, header, false, none⟩)
    header.nalus hfirst
  rw [← VpsSpsPpsTracker.track] at hreq happend
  rw [(copyAndFixBitstream_eq t payload hkind).2, hreq, hfirst, TrackState.appended_eq_nil happend]
  rfl

def Arrives (parsers : Parsers) (payload piece : List UInt8) : Prop :=
  ∃ parsed, parse parsers payload = some parsed ∧
    parsed.videoHeader.packetizationType ≠ .ap ∧ parsed.videoPayload = piece

theorem Carries.arrives (parsers : Parsers) {nalu : List UInt8}
    (h : Carries nalu payloads) (hlen : 2 ≤ nalu.length) (htype : naluType (nalu.headD 0) < 48) :
    ∃ pieces, List.Forall₂ (Arrives parsers) payloads pieces ∧ pieces.flatten = nalu := by
  have hfu (b0 b1 : UInt8) (first last : Bool) (piece : List UInt8) :
      Arrives parsers (fuPacket b0 b1 first last piece)
        (if first then b0 :: b1 :: piece else piece) := by
    obtain ⟨parsed, hparse, hkind, -, hpayload⟩ := parse_fuPayload parsers b0 b1 piece first last
    exact ⟨parsed, hparse, by rw [hkind]; decide, hpayload⟩
  cases h with
  | single =>
    obtain ⟨parsed, hparse, hkind, -, hpayload⟩ := parse_nalu parsers hlen htype
    exact ⟨[nalu], .cons ⟨parsed, hparse, by rw [hkind]; decide, hpayload⟩ .nil, by simp⟩
  | fragmented b0 b1 first middle last =>
    refine ⟨(b0 :: b1 :: first) :: (middle ++ [last]), ?_, by simp⟩
    refine .cons (hfu b0 b1 true false first) (rel_append ?_ ?_)
    · rw [forall₂_map_left_iff]
      exact List.forall₂_same.mpr fun piece _ => hfu b0 b1 false false piece
    · exact .cons (hfu b0 b1 false true last) .nil

theorem arrives_flatten (parsers : Parsers) {groups : List (List (List UInt8))}
    (h : List.Forall₂ Carries nalus groups)
    (hunits : ∀ nalu ∈ nalus, 2 ≤ nalu.length ∧ naluType (nalu.headD 0) < 48) :
    ∃ pieces, List.Forall₂ (Arrives parsers) groups.flatten pieces ∧
      pieces.flatten = nalus.flatten := by
  induction h with
  | nil => exact ⟨[], .nil, rfl⟩
  | cons hcarries _ ih =>
    obtain ⟨hunit, hrest⟩ := List.forall_mem_cons.mp hunits
    obtain ⟨pieces, hpieces, hflatten⟩ := hcarries.arrives parsers hunit.1 hunit.2
    obtain ⟨others, hothers, hflatten'⟩ := ih hrest
    refine ⟨pieces ++ others, ?_, ?_⟩
    · exact rel_append hpieces hothers
    · rw [flatten_append, flatten_cons, hflatten, hflatten']

theorem deliverFrame_rest {packets : List (List UInt8 × FrameDescriptor)}
    {pieces : List (List UInt8)} (h : List.Forall₂ (Arrives parsers) (packets.map Prod.fst) pieces)
    (hflags : ∀ packet ∈ packets, packet.2.firstPacketInFrame = false) :
    deliverFrame parsers t packets = some (pieces.map fun piece => ⟨.insert, piece⟩) := by
  induction packets generalizing t pieces with
  | nil =>
    cases h
    rfl
  | cons packet packets ih =>
    obtain ⟨payload, descriptor⟩ := packet
    cases h with
    | cons harrives hrest =>
      obtain ⟨parsed, hparse, hkind, rfl⟩ := harrives
      obtain ⟨hflag, hflags⟩ := List.forall_mem_cons.mp hflags
      rw [deliverFrame, hparse]
      simp only [Option.bind_eq_bind, Option.bind_some, ih hrest hflags]
      rw [copyAndFixBitstream_not_first _ (show (parsed.videoHeader.withDescriptor
        descriptor).packetizationType ≠ .ap from hkind) hflag]
      rfl

end Receiving

theorem withStartCodes_eq_iff (hne : nalus ≠ []) :
    startCode ++ nalus.flatten = withStartCodes nalus ↔ nalus.length = 1 := by
  have hlen (l : List (List UInt8)) :
      (withStartCodes l).length = 4 * l.length + l.flatten.length := by
    induction l with
    | nil => rfl
    | cons nalu l ih =>
      have hcode : startCode.length = 4 := rfl
      rw [withStartCodes] at ih ⊢
      simp only [flatMap_cons, length_append, ih, length_cons, flatten_cons, hcode]
      omega
  constructor
  · intro he
    have hcount := congrArg List.length he
    rw [hlen, length_append] at hcount
    simp only [startCode, length_cons, length_nil] at hcount
    omega
  · intro hone
    obtain ⟨nalu, rfl⟩ := List.length_eq_one_iff.mp hone
    simp [withStartCodes]

/-- When just the first packet of a frame is flagged as such, one start code comes out, behind the
parameter sets that the tracker prepends, and then the bare units. -/
theorem frame_start_codes_iff (parsers : Parsers) (t : VpsSpsPpsTracker)
    {nalus : List (List UInt8)} {groups : List (List (List UInt8))}
    {packets : List (List UInt8 × FrameDescriptor)} (hne : nalus ≠ [])
    (hunits : ∀ nalu ∈ nalus, 2 ≤ nalu.length ∧ naluType (nalu.headD 0) < 48)
    (hgroups : List.Forall₂ Carries nalus groups)
    (hpayloads : packets.map Prod.fst = groups.flatten)
    (hflags : packets.map (·.2.firstPacketInFrame) =
      true :: List.replicate (packets.length - 1) false) :
    ∃ fixed sets, deliverFrame parsers t packets = some fixed ∧
      (t.InBand → sets = []) ∧
      ((∀ f ∈ fixed, f.action = .insert) →
        (fixed.map (·.bitstream)).flatten = sets ++ (startCode ++ nalus.flatten) ∧
        ((fixed.map (·.bitstream)).flatten = sets ++ withStartCodes nalus ↔
          nalus.length = 1)) := by
  obtain ⟨pieces, hpieces, hflatten⟩ := arrives_flatten parsers hgroups hunits
  rw [← hpayloads] at hpieces
  cases packets with
  | nil => cases hflags
  | cons packet packets =>
    obtain ⟨payload, descriptor⟩ := packet
    rw [map_cons, List.cons.injEq] at hflags
    have hrest : ∀ packet ∈ packets, packet.2.firstPacketInFrame = false := by
      intro packet hmem
      have hf := mem_map_of_mem (f := fun packet : List UInt8 × FrameDescriptor =>
        packet.2.firstPacketInFrame) hmem
      rw [hflags.2] at hf
      exact eq_of_mem_replicate hf
    cases hpieces with
    | @cons _ piece _ others harrives hothers =>
      obtain ⟨parsed, hparse, hkind, rfl⟩ := harrives
      let header := parsed.videoHeader.withDescriptor descriptor
      have hkind' : header.packetizationType ≠ .ap := hkind
      have hdeliver : deliverFrame parsers t ((payload, descriptor) :: packets) =
          some ((t.copyAndFixBitstream parsed.videoPayload header).fixed ::
            others.map fun piece => ⟨.insert, piece⟩) := by
        rw [deliverFrame, hparse]
        simp only [Option.bind_eq_bind, Option.bind_some, deliverFrame_rest hothers hrest]
        rfl
      refine ⟨_, (t.track header).1.appended, hdeliver, ?_, ?_⟩
      · intro hin
        exact (hin.appended header).2
      · intro hinsert
        have hfirst := copyAndFixBitstream_insert parsed.videoPayload hkind'
          (hinsert _ mem_cons_self)
        rw [show header.isFirstPacketInFrame = true from hflags.1, if_pos rfl] at hfirst
        have hout : (((t.copyAndFixBitstream parsed.videoPayload header).fixed ::
            others.map fun piece => (⟨.insert, piece⟩ : FixedBitstream)).map
              (·.bitstream)).flatten =
            (t.track header).1.appended ++ (startCode ++ nalus.flatten) := by
          rw [map_cons, flatten_cons, hfirst, map_map, ← hflatten]
          simp [Function.comp_def]
        refine ⟨hout, ?_⟩
        rw [hout, append_cancel_left_eq]
        exact withStartCodes_eq_iff hne

/-- A frame of two units, each in one packet. -/
theorem second_unit_without_start_code :
    (deliverFrame .failing .init [([2, 1, 7], ⟨true, some .delta, none⟩),
      ([2, 1, 8], ⟨false, some .delta, none⟩)]).map
        (fun fixed => (fixed.map (·.action), (fixed.map (·.bitstream)).flatten)) =
      some ([.insert, .insert], [0, 0, 0, 1, 2, 1, 7, 2, 1, 8]) := by
  decide

theorem frame_start_codes_iff_fragmented :
    ∃ fixed, deliverFrame .failing .init
        [(fuPacket 2 1 true false [5], ⟨true, some .delta, none⟩),
          (fuPacket 2 1 false true [6], ⟨false, some .delta, none⟩)] = some fixed ∧
      (∀ f ∈ fixed, f.action = .insert) ∧
      (fixed.map (·.bitstream)).flatten = withStartCodes [[2, 1, 5, 6]] := by
  obtain ⟨fixed, sets, hdeliver, hsets, hiff⟩ := @frame_start_codes_iff .failing .init
    [[2, 1, 5, 6]] [[fuPacket 2 1 true false [5], fuPacket 2 1 false true [6]]]
    [(fuPacket 2 1 true false [5], ⟨true, some .delta, none⟩),
      (fuPacket 2 1 false true [6], ⟨false, some .delta, none⟩)]
    (by simp) (by decide) (.cons (.fragmented 2 1 [5] [] [6]) .nil) rfl rfl
  have hactions : ∀ f ∈ fixed, f.action = .insert := by
    have hall : (deliverFrame .failing .init
        [(fuPacket 2 1 true false [5], ⟨true, some .delta, none⟩),
          (fuPacket 2 1 false true [6], ⟨false, some .delta, none⟩)]).all
            (fun fixed => fixed.all (·.action = .insert)) = true := by decide
    rw [hdeliver] at hall
    simpa using hall
  refine ⟨fixed, hdeliver, hactions, ?_⟩
  rw [((hiff hactions).2).mpr rfl, hsets VpsSpsPpsTracker.inBand_init, nil_append]

end WebRtc.Rtp.H265
