import WebRtc.Rtp.RtcpPacket
import WebRtc.Lib.Checked

/-! The generic NACK (`nack.cc`): the lost sequence numbers are packed sixteen to a mask, and the
masks are spread over as many packets as needed. -/

namespace WebRtc.Rtp

open ByteBuffer List

structure PackedNack where
  firstPid : BitVec 16
  bitmask : BitVec 16
  deriving DecidableEq

def packItem (firstPid : BitVec 16) : BitVec 16 → List (BitVec 16) → BitVec 16 × List (BitVec 16)
  | bitmask, [] => (bitmask, [])
  | bitmask, id :: ids =>
    let shift := id - firstPid - 1
    if shift ≤ 15 then packItem firstPid (bitmask ||| 1#16 <<< shift.toNat) ids
    else (bitmask, id :: ids)

def packLoop : Nat → List (BitVec 16) → List PackedNack
  | 0, _ => []
  | _, [] => []
  | fuel + 1, id :: ids =>
    let (bitmask, rest) := packItem id 0 ids
    ⟨id, bitmask⟩ :: packLoop fuel rest

def pack (ids : List (BitVec 16)) : List PackedNack := packLoop ids.length ids

def unpackMask : Nat → BitVec 16 → BitVec 16 → List (BitVec 16)
  | 0, _, _ => []
  | fuel + 1, bitmask, pid =>
    if bitmask = 0 then []
    else (if bitmask &&& 1 ≠ 0 then [pid] else []) ++ unpackMask fuel (bitmask >>> 1) (pid + 1)

def PackedNack.unpack (item : PackedNack) : List (BitVec 16) :=
  item.firstPid :: unpackMask 16 item.bitmask (item.firstPid + 1)

structure Nack where
  senderSsrc : BitVec 32
  mediaSsrc : BitVec 32
  packed : List PackedNack
  packetIds : List (BitVec 16)
  deriving DecidableEq

def Nack.setPacketIds (senderSsrc mediaSsrc : BitVec 32) (ids : List (BitVec 16)) : Option Nack := do
  guard (ids ≠ [])
  return ⟨senderSsrc, mediaSsrc, pack ids, ids⟩

def PackedNack.encode (item : PackedNack) : List UInt8 :=
  bigEndian16 item.firstPid ++ bigEndian16 item.bitmask

def PackedNack.decode (bytes : List UInt8) : PackedNack := ⟨load16 bytes 0, load16 bytes 2⟩

def Nack.parse (packet : CommonHeader) : Option Nack := do
  guard (packet.type = 205 ∧ packet.fmt = 1)
  guard (8 + 4 ≤ packet.payload.length)
  let packed := loadEach PackedNack.decode 4 packet.payload 8 ((packet.payload.length - 8) / 4)
  return ⟨load32 packet.payload 0, load32 packet.payload 4, packed, packed.flatMap PackedNack.unpack⟩

def Nack.createPacket (nack : Nack) (items : List PackedNack) : Option (List UInt8) := do
  let payloadSizeBytes := 8 + items.length * 4
  let header ← createHeader 1 205 (payloadSizeBytes / 4) false
  return header ++
    (bigEndian32 nack.senderSsrc ++ bigEndian32 nack.mediaSsrc ++ items.flatMap PackedNack.encode)

structure Created where
  ready : List (List UInt8)
  packet : List UInt8
  ok : Bool

def Created.after (c : Created) (packet : List UInt8) : Created :=
  { c with ready := packet :: c.ready }

def Created.buffers (c : Created) : List (List UInt8) := c.ready ++ [c.packet]

def Nack.createLoop (nack : Nack) (maxLength : Nat) :
    Nat → List PackedNack → List UInt8 → Option Created
  | _, [], packet => some ⟨[], packet, true⟩
  | 0, _ :: _, _ => none
  | fuel + 1, item :: items, packet =>
    let bytesLeft := maxLength - packet.length
    if bytesLeft < 16 then
      if packet.length = 0 then some ⟨[], packet, false⟩
      else (nack.createLoop maxLength fuel (item :: items) []).map (·.after packet)
    else do
      let count := min ((bytesLeft - 12) / 4) (item :: items).length
      let written ← nack.createPacket ((item :: items).take count)
      guard ((packet ++ written).length ≤ maxLength)
      nack.createLoop maxLength fuel ((item :: items).drop count) (packet ++ written)

def Nack.create (nack : Nack) (maxLength : Nat) (packet : List UInt8) : Option Created := do
  guard (nack.packed ≠ [])
  nack.createLoop maxLength (2 * nack.packed.length + 1) nack.packed packet

/-! ### Packing -/

def shift (firstPid id : BitVec 16) : Nat := (id - firstPid - 1).toNat

theorem shift_eq_iff {firstPid id : BitVec 16} {k : Nat} (hk : k < 16) :
    shift firstPid id = k ↔ id = firstPid + 1 + BitVec.ofNat 16 k := by
  unfold shift
  constructor <;> intro h <;> bv_omega

theorem packItem_spec (firstPid bitmask : BitVec 16) (ids : List (BitVec 16)) :
    ∃ taken rest, packItem firstPid bitmask ids = ((packItem firstPid bitmask ids).1, rest) ∧
      ids = taken ++ rest ∧ (∀ id ∈ taken, shift firstPid id < 16) ∧
      ∀ k < 16, (packItem firstPid bitmask ids).1.getLsbD k = true ↔
        bitmask.getLsbD k = true ∨ ∃ id ∈ taken, shift firstPid id = k := by
  induction ids generalizing bitmask with
  | nil => exact ⟨[], [], rfl, rfl, by simp, by simp [packItem]⟩
  | cons id ids ih =>
    rw [packItem]
    by_cases hshift : id - firstPid - 1 ≤ 15
    · rw [if_pos hshift]
      obtain ⟨taken, rest, heq, rfl, htaken, hmask⟩ :=
        ih (bitmask ||| 1#16 <<< (id - firstPid - 1).toNat)
      have hlt : shift firstPid id < 16 := by
        unfold shift
        bv_omega
      refine ⟨id :: taken, rest, heq, rfl, ?_, fun k hk => ?_⟩
      · intro x hx
        rcases mem_cons.mp hx with rfl | hx
        · exact hlt
        · exact htaken x hx
      · have hbit : (1#16 <<< (id - firstPid - 1).toNat).getLsbD k = true ↔
            shift firstPid id = k := by
          unfold shift at hlt ⊢
          rw [BitVec.getLsbD_shiftLeft]
          simp [hk]
          omega
        rw [hmask k hk, BitVec.getLsbD_or, Bool.or_eq_true, hbit, exists_mem_cons_iff, or_assoc]
    · rw [if_neg hshift]
      exact ⟨[], id :: ids, rfl, rfl, by simp, by simp⟩

theorem unpackMask_eq (n : Nat) (bitmask pid : BitVec 16) : unpackMask n bitmask pid =
      ((List.range n).filter bitmask.getLsbD).map fun k => pid + BitVec.ofNat 16 k := by
  induction n generalizing bitmask pid with
  | zero => rfl
  | succ n ih =>
    rw [unpackMask]
    by_cases hzero : bitmask = 0
    · rw [if_pos hzero, hzero]
      simp
    have hnext : (((List.range n).map Nat.succ).filter bitmask.getLsbD).map
        (fun k => pid + BitVec.ofNat 16 k) =
        ((List.range n).filter (bitmask >>> 1).getLsbD).map
          fun k => pid + 1 + BitVec.ofNat 16 k := by
      rw [filter_map, map_map]
      refine congr (congrArg _ (funext fun k => ?_)) ?_
      · simp only [Function.comp_apply, Nat.succ_eq_add_one]
        bv_omega
      · refine congrArg (List.filter · _) (funext fun k => ?_)
        simp [Nat.succ_eq_add_one, Nat.add_comm]
    have hbit : bitmask &&& 1 ≠ 0 ↔ bitmask.getLsbD 0 = true := by
      have hand : bitmask &&& 1 = (BitVec.ofBool (bitmask.getLsbD 0)).setWidth 16 :=
        BitVec.and_one_eq_setWidth_ofBool_getLsbD
      rw [hand]
      cases bitmask.getLsbD 0 <;> decide
    rw [if_neg hzero, ih, range_succ_eq_map, ← hnext]
    by_cases hlow : bitmask.getLsbD 0 = true
    · rw [if_pos (hbit.mpr hlow), filter_cons_of_pos hlow]
      simp
    · rw [if_neg (hbit.not.mpr hlow), filter_cons_of_neg hlow]
      rfl

theorem mem_unpackMask {bitmask firstPid id : BitVec 16} :
    id ∈ unpackMask 16 bitmask (firstPid + 1) ↔
      shift firstPid id < 16 ∧ bitmask.getLsbD (shift firstPid id) = true := by
  rw [unpackMask_eq]
  simp only [mem_map, mem_filter, mem_range]
  constructor
  · rintro ⟨k, ⟨hk, hbit⟩, rfl⟩
    rw [(shift_eq_iff hk).mpr rfl]
    exact ⟨hk, hbit⟩
  · rintro ⟨hk, hbit⟩
    exact ⟨_, ⟨hk, hbit⟩, ((shift_eq_iff hk).mp rfl).symm⟩

theorem pairwise_unpackMask (bitmask firstPid : BitVec 16) :
    (unpackMask 16 bitmask (firstPid + 1)).Pairwise
    (fun a b => shift firstPid a < shift firstPid b) := by
  rw [unpackMask_eq, pairwise_map]
  refine (pairwise_lt_range.filter _).imp_of_mem fun {a b} ha hb hab => ?_
  have hlt : ∀ k ∈ (List.range 16).filter bitmask.getLsbD, k < 16 :=
    fun k hk => mem_range.mp (mem_filter.mp hk).1
  rwa [(shift_eq_iff (hlt a ha)).mpr rfl, (shift_eq_iff (hlt b hb)).mpr rfl]

theorem packItem_unpack (id : BitVec 16) (ids : List (BitVec 16)) :
    ∃ taken, ids = taken ++ (packItem id 0 ids).2 ∧ (∀ x ∈ taken, shift id x < 16) ∧
      ∀ x, x ∈ unpackMask 16 (packItem id 0 ids).1 (id + 1) ↔ x ∈ taken := by
  obtain ⟨taken, rest, heq, hids, htaken, hmask⟩ := packItem_spec id 0 ids
  refine ⟨taken, by rwa [heq], htaken, fun x => ?_⟩
  rw [mem_unpackMask]
  refine ⟨?_, fun hx => ?_⟩
  · rintro ⟨hk, hbit⟩
    rcases (hmask _ hk).mp hbit with hzero | ⟨y, hy, heq'⟩
    · simp at hzero
    · have hxy : x = y :=
        ((shift_eq_iff hk).mp rfl).trans ((shift_eq_iff hk).mp heq').symm
      rwa [hxy]
  · exact ⟨htaken x hx, (hmask _ (htaken x hx)).mpr (.inr ⟨x, hx, rfl⟩)⟩

variable {ids : List (BitVec 16)}

theorem mem_unpack_packLoop {fuel : Nat} (hfuel : ids.length ≤ fuel)
    (x : BitVec 16) : x ∈ (packLoop fuel ids).flatMap PackedNack.unpack ↔ x ∈ ids := by
  induction fuel generalizing ids with
  | zero => rw [length_eq_zero_iff.mp (by omega : ids.length = 0)]; rfl
  | succ fuel ih =>
    cases ids with
    | nil => rfl
    | cons id ids =>
      obtain ⟨taken, hids, -, hmem⟩ := packItem_unpack id ids
      have hlength := congrArg List.length hids
      rw [length_append] at hlength
      rw [length_cons] at hfuel
      rw [packLoop]
      dsimp only
      rw [flatMap_cons, PackedNack.unpack, cons_append, mem_cons, mem_append, hmem,
        ih (by omega), ← mem_append, ← hids, mem_cons]

def Increasing (ids : List (BitVec 16)) : Prop :=
  ∃ ns : List Nat, ns.Pairwise (· < ·) ∧ (∀ n ∈ ns, ∀ m ∈ ns, n < m + 2 ^ 16) ∧
    ids = ns.map (BitVec.ofNat 16)

theorem Increasing.of_append {a b : List (BitVec 16)} (h : Increasing (a ++ b)) : Increasing b := by
  obtain ⟨ns, hlt, hspan, heq⟩ := h
  obtain ⟨l, r, rfl, -, rfl⟩ := map_eq_append_iff.mp heq.symm
  exact ⟨r, (pairwise_append.mp hlt).2.1,
    fun n hn m hm => hspan n (mem_append_right _ hn) m (mem_append_right _ hm), rfl⟩

theorem Increasing.pairwise_shift {id : BitVec 16}
    (h : Increasing (id :: ids)) : ids.Pairwise (fun a b => shift id a < shift id b) := by
  obtain ⟨ns, hlt, hspan, heq⟩ := h
  cases ns with
  | nil => cases heq
  | cons n ns =>
    obtain ⟨rfl, rfl⟩ := List.cons.inj heq
    obtain ⟨hfirst, hlt⟩ := pairwise_cons.mp hlt
    have hshift : ∀ m ∈ ns, shift (BitVec.ofNat 16 n) (BitVec.ofNat 16 m) = m - n - 1 := by
      intro m hm
      have hnm := hfirst m hm
      have hm' := hspan m (mem_cons_of_mem _ hm) n mem_cons_self
      unfold shift
      bv_omega
    rw [pairwise_map]
    refine hlt.imp_of_mem fun {a b} ha hb hab => ?_
    rw [hshift a ha, hshift b hb]
    have := hfirst a ha
    omega

theorem unpack_packLoop {fuel : Nat} (hfuel : ids.length ≤ fuel)
    (h : Increasing ids) : (packLoop fuel ids).flatMap PackedNack.unpack = ids := by
  induction fuel generalizing ids with
  | zero => rw [length_eq_zero_iff.mp (by omega : ids.length = 0)]; rfl
  | succ fuel ih =>
    cases ids with
    | nil => rfl
    | cons id ids =>
      obtain ⟨taken, hids, htaken, hmem⟩ := packItem_unpack id ids
      have hlength := congrArg List.length hids
      rw [length_append] at hlength
      rw [length_cons] at hfuel
      have hrest : Increasing (packItem id 0 ids).2 := by
        rw [hids, ← cons_append] at h
        exact h.of_append
      have hsorted : taken.Pairwise (fun a b => shift id a < shift id b) := by
        have := h.pairwise_shift
        rw [hids] at this
        exact (pairwise_append.mp this).1
      have hmask : unpackMask 16 (packItem id 0 ids).1 (id + 1) = taken :=
        have : Std.Irrefl (fun a b => shift id a < shift id b) := ⟨fun _ => lt_irrefl _⟩
        (pairwise_unpackMask _ id).eq_of_mem_iff hsorted hmem
      rw [packLoop]
      dsimp only
      rw [flatMap_cons, PackedNack.unpack, hmask, ih (by omega) hrest, cons_append, ← hids]

/-! ### Packets -/

theorem PackedNack.length_encode (item : PackedNack) : item.encode.length = 4 := rfl

theorem PackedNack.decode_encode (item : PackedNack) : decode item.encode = item := by
  obtain ⟨firstPid, bitmask⟩ := item
  have hfirst : load16 (bigEndian16 firstPid ++ bigEndian16 bitmask) 0 = firstPid :=
    load16_bigEndian16_append ..
  have hmask : load16 (bigEndian16 firstPid ++ bigEndian16 bitmask) 2 = bitmask :=
    (load16_append_right (bigEndian16 firstPid) _ 0).trans (load16_bigEndian16 bitmask)
  rw [decode, encode, hfirst, hmask]

def maxItems : Nat := 65533

theorem Nack.parse_createPacket (nack : Nack) {items : List PackedNack} (hitems : items ≠ [])
    (hmax : items.length ≤ maxItems) :
    ∃ packet, nack.createPacket items = some packet ∧ packet.length = 12 + items.length * 4 ∧
      (CommonHeader.parse packet).bind Nack.parse =
        some ⟨nack.senderSsrc, nack.mediaSsrc, items, items.flatMap PackedNack.unpack⟩ := by
  generalize hpayload : bigEndian32 nack.senderSsrc ++ bigEndian32 nack.mediaSsrc ++
    items.flatMap PackedNack.encode = payload
  have hlength : payload.length = 8 + items.length * 4 := by
    rw [← hpayload, length_append, length_flatMap_encode PackedNack.length_encode]
    rfl
  have hpos : 0 < items.length := length_pos_of_ne_nil hitems
  rw [maxItems] at hmax
  have hwords : payload.length = (8 + items.length * 4) / 4 * 4 := by omega
  obtain ⟨header, hcreate, hheader, hparse⟩ :=
    parse_createHeader (show 1 ≤ 0x1f by decide) 205 hwords (by omega)
  refine ⟨header ++ payload, ?_, ?_, ?_⟩
  · rw [Nack.createPacket, hpayload, hcreate]
    rfl
  · rw [length_append, hheader, hlength]
    omega
  have hitems' : loadEach PackedNack.decode 4 payload 8 items.length = items := by
    have hdrop : payload.drop 8 = items.flatMap PackedNack.encode ++ [] := by
      rw [← hpayload, append_nil]
      rfl
    rw [loadEach_eq (f := id) PackedNack.length_encode PackedNack.decode_encode hdrop, map_id]
  have hsender : load32 payload 0 = nack.senderSsrc := by
    rw [← hpayload, append_assoc]
    exact load32_bigEndian32_append ..
  have hmedia : load32 payload 4 = nack.mediaSsrc := by
    rw [← hpayload, append_assoc]
    exact (load32_append_right (bigEndian32 nack.senderSsrc) _ 0).trans
      (load32_bigEndian32_append ..)
  have hcount : (payload.length - 8) / 4 = items.length := by omega
  rw [hparse, Option.bind_some, Nack.parse]
  dsimp only
  rw [hcount, hitems', hsender, hmedia]
  simp only [guard, if_pos (show 8 + 4 ≤ payload.length by omega)]
  rfl

inductive Spread (nack : Nack) : List PackedNack → List (List UInt8) → Prop
  | nil : Spread nack [] []
  | cons {slice rest : List PackedNack} {packet : List UInt8} {packets : List (List UInt8)} :
    slice ≠ [] → slice.length ≤ maxItems → nack.createPacket slice = some packet →
    Spread nack rest packets → Spread nack (slice ++ rest) (packet :: packets)

theorem Spread.parse {nack : Nack} {items : List PackedNack} {packets : List (List UInt8)}
    (h : Spread nack items packets) : ∃ nacks : List Nack,
      packets.mapM (fun packet => (CommonHeader.parse packet).bind Nack.parse) = some nacks ∧
      (∀ n ∈ nacks, n.senderSsrc = nack.senderSsrc ∧ n.mediaSsrc = nack.mediaSsrc) ∧
      nacks.flatMap Nack.packetIds = items.flatMap PackedNack.unpack := by
  induction h with
  | nil => exact ⟨[], rfl, by simp, rfl⟩
  | @cons slice rest packet packets hne hmax hcreate _ ih =>
    obtain ⟨nacks, hparse, hssrc, hids⟩ := ih
    obtain ⟨packet', hcreate', -, hfirst⟩ := nack.parse_createPacket hne hmax
    obtain rfl : packet = packet' := Option.some.inj (hcreate.symm.trans hcreate')
    refine ⟨_ :: nacks, by rw [mapM_cons, hfirst, hparse]; rfl, ?_, ?_⟩
    · intro n hn
      rcases mem_cons.mp hn with rfl | hn
      · exact ⟨rfl, rfl⟩
      · exact hssrc n hn
    · rw [flatMap_cons, hids, flatMap_append]

section Create

variable {maxLength : Nat}

theorem Nack.createLoop_write (nack : Nack) (packet : List UInt8) {items : List PackedNack}
    (fuel : Nat) (hleft : packet.length + 16 ≤ maxLength) (hitems : items ≠ [])
    (hcount : maxLength < 2 ^ 18 + 4 ∨ items.length ≤ maxItems) :
    ∃ slice rest written, items = slice ++ rest ∧ slice ≠ [] ∧ slice.length ≤ maxItems ∧
      nack.createPacket slice = some written ∧ (packet ++ written).length ≤ maxLength ∧
      nack.createLoop maxLength (fuel + 2) items packet =
        if rest = [] then some ⟨[], packet ++ written, true⟩
        else (nack.createLoop maxLength fuel rest []).map (·.after (packet ++ written)) := by
  obtain ⟨item, items, rfl⟩ := exists_cons_of_ne_nil hitems
  generalize hn : min ((maxLength - packet.length - 12) / 4) (item :: items).length = n
  have hpos : 0 < (item :: items).length := by simp
  have hslice : ((item :: items).take n).length = n := by
    rw [length_take]
    omega
  have hsmall : n ≤ maxItems := by
    rw [maxItems] at hcount ⊢
    omega
  have hne : (item :: items).take n ≠ [] := by
    rw [← length_pos_iff_ne_nil, hslice]
    omega
  obtain ⟨written, hwritten, hsize, -⟩ := nack.parse_createPacket hne (hslice.le.trans hsmall)
  have hfits : (packet ++ written).length ≤ maxLength := by
    rw [length_append, hsize, hslice]
    omega
  refine ⟨_, (item :: items).drop n, written, (take_append_drop n _).symm, hne,
    hslice.le.trans hsmall, hwritten, hfits, ?_⟩
  rw [createLoop]
  dsimp only
  rw [if_neg (by omega), hn, hwritten]
  simp only [guard, Option.bind_eq_bind, Option.bind_some, if_pos hfits]
  by_cases hrest : (item :: items).drop n = []
  · rw [if_pos hrest, hrest]
    rfl
  · rw [if_neg hrest]
    obtain ⟨next, others, hnext⟩ := exists_cons_of_ne_nil hrest
    have hfull : maxLength - (packet ++ written).length < 16 := by
      have hlt : n < (item :: items).length := by
        by_contra hge
        exact hrest (drop_of_length_le (by omega))
      rw [length_append, hsize, hslice]
      omega
    have hsome : (packet ++ written).length ≠ 0 := by
      rw [length_append, hsize]
      omega
    rw [hnext]
    change createLoop nack maxLength (fuel + 1) (next :: others) _ = _
    rw [createLoop]
    dsimp only
    rw [if_pos hfull, if_neg hsome]

theorem Created.buffers_after (c : Created) (packet : List UInt8) :
    (c.after packet).buffers = packet :: c.buffers := rfl

theorem Nack.createLoop_empty (nack : Nack) (hmax : 16 ≤ maxLength) {items : List PackedNack}
    (hitems : items ≠ []) (hcount : maxLength < 2 ^ 18 + 4 ∨ items.length ≤ maxItems) (fuel : Nat)
    (hfuel : 2 * items.length ≤ fuel) :
    Ensures (nack.createLoop maxLength fuel items []) fun c => c.ok = true ∧
      Spread nack items c.buffers ∧ ∀ buffer ∈ c.buffers, buffer.length ≤ maxLength := by
  induction hn : items.length using Nat.strong_induction_on generalizing items fuel with
  | _ n ih =>
    have hpos := length_pos_of_ne_nil hitems
    obtain ⟨fuel, rfl⟩ : ∃ f, fuel = f + 2 := ⟨fuel - 2, by omega⟩
    obtain ⟨slice, rest, written, rfl, hslice, hsmall, hcreate, hfits, heq⟩ :=
      nack.createLoop_write [] fuel (by simpa using hmax) hitems hcount
    rw [nil_append] at heq hfits
    have hslicePos := length_pos_of_ne_nil hslice
    rw [length_append] at hn hfuel hcount
    rw [heq]
    by_cases hrest : rest = []
    · rw [if_pos hrest, hrest]
      refine .some ⟨rfl, .cons hslice hsmall hcreate .nil, ?_⟩
      intro buffer hbuffer
      rwa [mem_singleton.mp hbuffer]
    · rw [if_neg hrest]
      obtain ⟨c, hc, hok, hspread, hlength⟩ :=
        ih rest.length (by omega) hrest (hcount.imp_right (by omega)) fuel (by omega) rfl
      refine ⟨c.after written, by rw [hc]; rfl, hok, ?_⟩
      rw [Created.buffers_after]
      exact ⟨.cons hslice hsmall hcreate hspread, forall_mem_cons.mpr ⟨hfits, hlength⟩⟩

theorem Nack.create_spread {nack : Nack} (hmax : 16 ≤ maxLength) (hitems : nack.packed ≠ [])
    (hcount : maxLength < 2 ^ 18 + 4 ∨ nack.packed.length ≤ maxItems) {packet : List UInt8}
    (hpacket : packet.length ≤ maxLength) :
    Ensures (nack.create maxLength packet) fun c => c.ok = true ∧
      (∀ buffer ∈ c.buffers, buffer.length ≤ maxLength) ∧
      ∃ first others, Spread nack nack.packed (first :: others) ∧
        (c.buffers = (packet ++ first) :: others ∨
          packet ≠ [] ∧ c.buffers = packet :: first :: others) := by
  rw [create]
  refine .guard_bind hitems ?_
  generalize nack.packed = items at hitems hcount
  have hpos := length_pos_of_ne_nil hitems
  by_cases hleft : packet.length + 16 ≤ maxLength
  · obtain ⟨slice, rest, written, hsplit, hslice, hsmall, hcreate, hfits, heq⟩ :=
      nack.createLoop_write packet (2 * items.length - 1) hleft hitems hcount
    have hslicePos := length_pos_of_ne_nil hslice
    have hlength := congrArg List.length hsplit
    rw [length_append] at hlength
    rw [show 2 * items.length + 1 = 2 * items.length - 1 + 2 by omega, heq]
    by_cases hrest : rest = []
    · rw [if_pos hrest]
      refine .some ⟨rfl, ?_, written, [], ?_, .inl rfl⟩
      · intro buffer hbuffer
        rwa [mem_singleton.mp hbuffer]
      · rw [hsplit, hrest]
        exact .cons hslice hsmall hcreate .nil
    · rw [if_neg hrest]
      obtain ⟨c, hc, hok, hspread, hbuffers⟩ := nack.createLoop_empty hmax hrest
        (hcount.imp_right (by omega)) (2 * items.length - 1) (by omega)
      refine ⟨c.after (packet ++ written), by rw [hc]; rfl, hok, ?_, written, c.buffers, ?_, .inl rfl⟩
      · exact forall_mem_cons.mpr ⟨hfits, hbuffers⟩
      · rw [hsplit]
        exact .cons hslice hsmall hcreate hspread
  · obtain ⟨c, hc, hok, hspread, hbuffers⟩ :=
      nack.createLoop_empty hmax hitems hcount (2 * items.length) le_rfl
    have hstep : nack.createLoop maxLength (2 * items.length + 1) items packet =
        some (c.after packet) := by
      obtain ⟨item, items, rfl⟩ := exists_cons_of_ne_nil hitems
      rw [createLoop]
      dsimp only
      rw [if_pos (by omega), if_neg (by omega), hc]
      rfl
    obtain ⟨first, others, hfirst⟩ : ∃ first others, c.buffers = first :: others :=
      exists_cons_of_ne_nil (by simp [Created.buffers])
    refine ⟨c.after packet, hstep, hok, forall_mem_cons.mpr ⟨hpacket, hbuffers⟩, first, others,
      hfirst ▸ hspread, .inr ⟨?_, ?_⟩⟩
    · intro hempty
      rw [hempty] at hleft
      exact hleft (by simpa using hmax)
    · rw [Created.buffers_after, hfirst]

end Create

theorem pack_ne_nil (h : ids ≠ []) : pack ids ≠ [] := by
  obtain ⟨id, ids, rfl⟩ := exists_cons_of_ne_nil h
  exact cons_ne_nil _ _

/-- What is read from the packets is what was asked for. -/
theorem nack_roundTrip (senderSsrc mediaSsrc : BitVec 32) (ids : List (BitVec 16)) (hids : ids ≠ [])
    (maxLength : Nat) (hmax : 16 ≤ maxLength)
    (hcount : maxLength < 2 ^ 18 + 4 ∨ (pack ids).length ≤ 65533) (packet : List UInt8)
    (hpacket : packet.length ≤ maxLength) :
    Ensures ((Nack.setPacketIds senderSsrc mediaSsrc ids).bind (Nack.create · maxLength packet))
      fun c => c.ok = true ∧ (∀ buffer ∈ c.buffers, buffer.length ≤ maxLength) ∧
        ∃ first others nacks, (c.buffers = (packet ++ first) :: others ∨
            packet ≠ [] ∧ c.buffers = packet :: first :: others) ∧
          (first :: others).mapM (fun p => (CommonHeader.parse p).bind Nack.parse) = some nacks ∧
          (∀ n ∈ nacks, n.senderSsrc = senderSsrc ∧ n.mediaSsrc = mediaSsrc) ∧
          (∀ id, id ∈ nacks.flatMap Nack.packetIds ↔ id ∈ ids) ∧
          (Increasing ids → nacks.flatMap Nack.packetIds = ids) := by
  have hset : Nack.setPacketIds senderSsrc mediaSsrc ids =
      some ⟨senderSsrc, mediaSsrc, pack ids, ids⟩ := by
    simp only [Nack.setPacketIds, guard, if_pos hids]
    rfl
  rw [hset, Option.bind_some]
  refine (Nack.create_spread hmax (pack_ne_nil hids) hcount hpacket).mono fun c hc => ?_
  obtain ⟨hok, hbuffers, first, others, hspread, hlayout⟩ := hc
  obtain ⟨nacks, hparse, hssrc, hall⟩ := hspread.parse
  refine ⟨hok, hbuffers, first, others, nacks, hlayout, hparse, hssrc, fun id => ?_, fun h => ?_⟩
  · rw [hall]
    exact mem_unpack_packLoop le_rfl id
  · rw [hall]
    exact unpack_packLoop le_rfl h

theorem nack_roundTrip_three :
    Ensures ((Nack.setPacketIds 1 2 [65530, 65535, 3, 40]).bind (Nack.create · 16 []))
      fun c => c.buffers.length = 2 ∧ ∃ first others nacks, c.buffers = first :: others ∧
        (first :: others).mapM (fun p => (CommonHeader.parse p).bind Nack.parse) = some nacks ∧
        nacks.flatMap Nack.packetIds = [65530, 65535, 3, 40] := by
  have hincreasing : Increasing [65530, 65535, 3, 40] :=
    ⟨[65530, 65535, 65539, 65576], by decide, by decide, by decide⟩
  have htwo : ∀ c, (Nack.setPacketIds 1 2 [65530, 65535, 3, 40]).bind (Nack.create · 16 []) = some c →
      c.buffers.length = 2 := by
    intro c hc
    have : ((Nack.setPacketIds 1 2 [65530, 65535, 3, 40]).bind (Nack.create · 16 [])).all
        (fun c => c.buffers.length = 2) = true := by decide
    rw [hc] at this
    simpa using this
  obtain ⟨c, hc, -, -, first, others, nacks, hlayout, hparse, -, -, heq⟩ :=
    nack_roundTrip 1 2 [65530, 65535, 3, 40] (by decide) 16 le_rfl (by decide) [] (by decide)
  refine ⟨c, hc, htwo c hc, first, others, nacks, ?_, hparse, heq hincreasing⟩
  rcases hlayout with h | ⟨h, -⟩
  · exact h
  · exact absurd rfl h

/-! ### Lists that do not fit the length field -/

theorem packLoop_replicate (n : Nat) :
    packLoop n (List.replicate n 0) = List.replicate n ⟨0, 0⟩ := by
  induction n with
  | zero => rfl
  | succ n ih =>
    have hitem : packItem 0 0 (List.replicate n 0) = (0, List.replicate n 0) := by
      cases n with
      | zero => rfl
      | succ n => rfl
    rw [replicate_succ, packLoop, hitem]
    dsimp only
    rw [ih, ← replicate_succ]

theorem Nack.createPacket_eq_none (nack : Nack) {items : List PackedNack}
    (h : maxItems < items.length) : nack.createPacket items = none := by
  rw [maxItems] at h
  rw [createPacket, createHeader_eq_none (by omega)]
  rfl

theorem Nack.createLoop_eq_none (nack : Nack) {items : List PackedNack} {maxLength : Nat}
    (h : maxItems < items.length) (hfits : 12 + 4 * items.length ≤ maxLength) (fuel : Nat) :
    nack.createLoop maxLength (fuel + 1) items [] = none := by
  obtain ⟨item, items, rfl⟩ : ∃ item rest, items = item :: rest :=
    exists_cons_of_length_pos (by omega)
  have hall : min ((maxLength - ([] : List UInt8).length - 12) / 4) (item :: items).length =
      (item :: items).length := by
    rw [length_nil]
    omega
  rw [createLoop]
  dsimp only
  rw [if_neg (by rw [maxItems] at h; rw [length_nil]; omega), hall, take_length,
    nack.createPacket_eq_none h]
  rfl

theorem Nack.create_replicate {n : Nat} (h : maxItems < n) :
    (setPacketIds 1 2 (List.replicate n 0)).bind (create · (12 + 4 * n) []) = none := by
  have hids : List.replicate n (0 : BitVec 16) ≠ [] := by
    rw [ne_eq, replicate_eq_nil_iff]
    omega
  have hpack : pack (List.replicate n 0) = List.replicate n ⟨0, 0⟩ := by
    rw [pack, length_replicate, packLoop_replicate]
  simp only [setPacketIds, create, guard, if_pos hids, if_pos (pack_ne_nil hids),
    Option.bind_eq_bind, Option.bind_some, Option.pure_def]
  rw [hpack]
  apply createLoop_eq_none <;> rw [length_replicate]
  exact h

/-- The header of a packet with all the items would need a seventeenth bit. -/
theorem nack_length_overflow : ∃ ids : List (BitVec 16), ids ≠ [] ∧ ∃ maxLength ≥ 16,
      (Nack.setPacketIds 1 2 ids).bind (Nack.create · maxLength []) = none := by
  refine ⟨List.replicate 65534 0, ?_, 12 + 4 * 65534, by decide,
    Nack.create_replicate (by decide)⟩
  rw [ne_eq, replicate_eq_nil_iff]
  decide

end WebRtc.Rtp
