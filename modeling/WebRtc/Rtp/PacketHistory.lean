import WebRtc.Lib.Checked

/-! The packets kept for retransmission (`rtp_packet_history.cc`). A slot is addressed by its
distance from the first one, so it has to hold the packet at that distance. -/

namespace WebRtc.Rtp.History

open List Option Function

variable {α β : Type}

structure Packet (α : Type) where
  sequenceNumber : BitVec 16
  content : α

structure StoredPacket (α : Type) where
  packet : Option (Packet α)
  pendingTransmission : Bool
  sendTime : Int
  insertOrder : Nat
  timesRetransmitted : Nat

def vacant : StoredPacket α := ⟨none, false, 0, 0, 0⟩

/-- `culled` lists the insert orders of the packets that were removed. -/
structure RtpPacketHistory (α : Type) where
  numberToStore : Nat
  enabled : Bool
  rtt : Option Int
  packetHistory : List (StoredPacket α)
  packetsInserted : Nat
  culled : List Nat

def isNewerSequenceNumber (value prevValue : BitVec 16) : Bool :=
  if (value.toNat : Int) - prevValue.toNat = 0x8000 then decide (prevValue.toNat < value.toNat)
  else decide (value ≠ prevValue ∧ (value - prevValue).toNat < 0x8000)

namespace RtpPacketHistory

def initial : RtpPacketHistory α := ⟨0, false, none, [], 0, []⟩

def getPacketIndex (h : RtpPacketHistory α) (sequenceNumber : BitVec 16) : Option Int :=
  match h.packetHistory with
  | [] => some 0
  | front :: _ => do
    let firstSeq := (← front.packet).sequenceNumber
    let packetIndex : Int := sequenceNumber.toNat - firstSeq.toNat
    if firstSeq = sequenceNumber then return 0
    else if isNewerSequenceNumber sequenceNumber firstSeq then
      return if sequenceNumber.toNat < firstSeq.toNat then packetIndex + 65536 else packetIndex
    else return if firstSeq.toNat < sequenceNumber.toNat then packetIndex - 65536 else packetIndex

def findStored (h : RtpPacketHistory α) (sequenceNumber : BitVec 16) :
    Option (Option (Nat × StoredPacket α × Packet α)) := do
  let index ← h.getPacketIndex sequenceNumber
  if index < 0 then return none
  else return do
    let slot ← h.packetHistory[index.toNat]?
    let packet ← slot.packet
    return (index.toNat, slot, packet)

def removePacket (h : RtpPacketHistory α) (packetIndex : Nat) : RtpPacketHistory α :=
  match h.packetHistory[packetIndex]? with
  | none => h
  | some slot =>
    let slots := h.packetHistory.set packetIndex { slot with packet := none }
    { h with
      packetHistory := if packetIndex = 0 then slots.dropWhile (·.packet.isNone) else slots
      culled := if slot.packet.isSome then slot.insertOrder :: h.culled else h.culled }

/-- `max(1 second, 3x RTT)`, in microseconds. -/
def packetDuration (h : RtpPacketHistory α) : Int :=
  match h.rtt with
  | none => 1000000
  | some rtt => max (3 * rtt) 1000000

def maxCapacity : Nat := 9600

def cullLoop (now : Int) : Nat → RtpPacketHistory α → RtpPacketHistory α
  | 0, h => h
  | fuel + 1, h =>
    match h.packetHistory with
    | [] => h
    | front :: _ =>
      if maxCapacity ≤ h.packetHistory.length then cullLoop now fuel (h.removePacket 0)
      else if front.pendingTransmission then h
      else if now < front.sendTime + h.packetDuration then h
      else if h.numberToStore ≤ h.packetHistory.length ∨
          front.sendTime + h.packetDuration * 3 ≤ now then
        cullLoop now fuel (h.removePacket 0)
      else h

def cullOldPackets (h : RtpPacketHistory α) (now : Int) : RtpPacketHistory α :=
  cullLoop now h.packetHistory.length h

def reset (h : RtpPacketHistory α) : RtpPacketHistory α :=
  { h with
    packetHistory := []
    culled := (h.packetHistory.filter (·.packet.isSome)).map (·.insertOrder) ++ h.culled }

def setStorePacketsStatus (h : RtpPacketHistory α) (enabled : Bool) (numberToStore : Nat) :
    Option (RtpPacketHistory α) := do
  guard (numberToStore ≤ maxCapacity)
  return { h.reset with enabled := enabled, numberToStore := min maxCapacity numberToStore }

def setRtt (h : RtpPacketHistory α) (rtt now : Int) : Option (RtpPacketHistory α) := do
  guard (0 ≤ rtt)
  let h := { h with rtt := some rtt }
  return if h.enabled then h.cullOldPackets now else h

def removeDuplicate (h : RtpPacketHistory α) (sequenceNumber : BitVec 16) :
    Option (RtpPacketHistory α) := do
  match ← h.findStored sequenceNumber with
  | some (index, _, _) => return h.removePacket index
  | none => return h

def expand (slots : List (StoredPacket α)) (packetIndex : Int) : List (StoredPacket α) × Nat :=
  if packetIndex < 0 then (List.replicate (-packetIndex).toNat vacant ++ slots, 0)
  else (slots ++ List.replicate (packetIndex.toNat + 1 - slots.length) vacant, packetIndex.toNat)

def putRtpPacket (h : RtpPacketHistory α) (packet : Packet α) (sendTime now : Int) :
    Option (RtpPacketHistory α) := do
  if ¬ h.enabled then return h
  else
    let h ← (h.cullOldPackets now).removeDuplicate packet.sequenceNumber
    let (slots, index) := expand h.packetHistory (← h.getPacketIndex packet.sequenceNumber)
    guard ((slots[index]?.map (·.packet.isNone)) = some true)
    return { h with
      packetHistory := slots.set index ⟨packet, false, sendTime, h.packetsInserted, 0⟩
      packetsInserted := h.packetsInserted + 1 }

def verifyRtt (h : RtpPacketHistory α) (packet : StoredPacket α) (now : Int) : Bool :=
  match h.rtt with
  | none => true
  | some rtt => ! decide (0 < packet.timesRetransmitted ∧ now - packet.sendTime < rtt)

/-- The packet is copied or put into a container by `encapsulate`. -/
def getPacketAndMarkAsPending (h : RtpPacketHistory α) (sequenceNumber : BitVec 16)
    (encapsulate : Packet α → Option β) (now : Int) : Option (RtpPacketHistory α × Option β) := do
  if ¬ h.enabled then return (h, none)
  else match ← h.findStored sequenceNumber with
  | none => return (h, none)
  | some (index, slot, packet) =>
    if slot.pendingTransmission then return (h, none)
    else if ¬ h.verifyRtt slot now then return (h, none)
    else match encapsulate packet with
    | none => return (h, none)
    | some encapsulated =>
      return ({ h with packetHistory :=
        h.packetHistory.set index { slot with pendingTransmission := true } }, some encapsulated)

def markPacketAsSent (h : RtpPacketHistory α) (sequenceNumber : BitVec 16) (now : Int) :
    Option (RtpPacketHistory α) := do
  if ¬ h.enabled then return h
  else match ← h.findStored sequenceNumber with
  | none => return h
  | some (index, slot, packet) =>
    let sent := ⟨packet, false, now, slot.insertOrder, slot.timesRetransmitted + 1⟩
    return { h with packetHistory := h.packetHistory.set index sent }

def getPacketState (h : RtpPacketHistory α) (sequenceNumber : BitVec 16) (now : Int) :
    Option Bool := do
  if ¬ h.enabled then return false
  else match ← h.findStored sequenceNumber with
  | none => return false
  | some (_, slot, _) => return h.verifyRtt slot now

def cullAcknowledgedPacket (h : RtpPacketHistory α) (sequenceNumber : BitVec 16) :
    Option (RtpPacketHistory α) := do
  let index ← h.getPacketIndex sequenceNumber
  if index < 0 ∨ h.packetHistory.length ≤ index.toNat then return h
  else return h.removePacket index.toNat

def cullAcknowledgedPackets (h : RtpPacketHistory α) (sequenceNumbers : List (BitVec 16)) :
    Option (RtpPacketHistory α) :=
  sequenceNumbers.foldlM cullAcknowledgedPacket h

end RtpPacketHistory

open RtpPacketHistory

/-! ### Slots -/

def Aligned (base : BitVec 16) (slots : List (StoredPacket α)) : Prop :=
  ∀ i slot packet, slots[i]? = some slot → slot.packet = some packet →
    packet.sequenceNumber = base + BitVec.ofNat 16 i

variable {slots : List (StoredPacket α)} {base : BitVec 16}

theorem Aligned.drop (h : Aligned base slots)
    (n : Nat) : Aligned (base + BitVec.ofNat 16 n) (slots.drop n) := by
  intro i slot packet hslot hpacket
  rw [List.getElem?_drop] at hslot
  rw [h _ _ _ hslot hpacket, BitVec.ofNat_add, BitVec.add_assoc]

variable {slot : StoredPacket α}

theorem Aligned.set (h : Aligned base slots) (i : Nat)
    (hslot : ∀ packet, slot.packet = some packet →
      packet.sequenceNumber = base + BitVec.ofNat 16 i) : Aligned base (slots.set i slot) := by
  intro j slot' packet hslot' hpacket
  rw [List.getElem?_set] at hslot'
  split_ifs at hslot' with hij hlt
  · cases hslot'
    subst hij
    exact hslot packet hpacket
  · exact h _ _ _ hslot' hpacket

variable {packetIndex : Int}

theorem Aligned.expand (h : Aligned base slots) {s : BitVec 16}
    (hs : s = base + BitVec.ofInt 16 packetIndex) :
    ∃ base', Aligned base' (RtpPacketHistory.expand slots packetIndex).1 ∧
      s = base' + BitVec.ofNat 16 (RtpPacketHistory.expand slots packetIndex).2 := by
  rw [RtpPacketHistory.expand]
  split_ifs with hneg
  · obtain ⟨n, rfl⟩ : ∃ n : Nat, packetIndex = -n := ⟨(-packetIndex).toNat, by omega⟩
    rw [neg_neg, Int.toNat_natCast]
    refine ⟨s, fun i slot packet hslot hpacket => ?_, by simp⟩
    rw [List.getElem?_append, length_replicate] at hslot
    split_ifs at hslot with hlt
    · rw [List.getElem?_replicate_of_lt hlt] at hslot
      cases hslot
      cases hpacket
    · have hi : BitVec.ofNat 16 i = BitVec.ofNat 16 n + BitVec.ofNat 16 (i - n) := by
        rw [← BitVec.ofNat_add]
        congr 1
        omega
      rw [h _ _ _ hslot hpacket, hs, hi, BitVec.ofInt_neg, BitVec.ofInt_natCast]
      ring
  · obtain ⟨n, rfl⟩ : ∃ n : Nat, packetIndex = n := ⟨packetIndex.toNat, by omega⟩
    rw [Int.toNat_natCast]
    refine ⟨base, fun i slot packet hslot hpacket => ?_, by rw [hs, BitVec.ofInt_natCast]⟩
    rw [List.getElem?_append] at hslot
    split_ifs at hslot with hlt
    · exact h _ _ _ hslot hpacket
    · obtain rfl := eq_of_mem_replicate (mem_of_getElem? hslot)
      cases hpacket

theorem Aligned.index_eq (h : Aligned base slots)
    (hsize : slots.length < 2 ^ 16) {i j : Nat} {a b : StoredPacket α} {p q : Packet α}
    (hi : slots[i]? = some a) (hp : a.packet = some p) (hj : slots[j]? = some b)
    (hq : b.packet = some q) (heq : p.sequenceNumber = q.sequenceNumber) : i = j := by
  have hilt := (List.getElem?_eq_some_iff.mp hi).1
  have hjlt := (List.getElem?_eq_some_iff.mp hj).1
  rw [h _ _ _ hi hp, h _ _ _ hj hq] at heq
  have hofNat : BitVec.ofNat 16 i = BitVec.ofNat 16 j := by bv_omega
  have := congrArg BitVec.toNat hofNat
  rw [BitVec.toNat_ofNat, BitVec.toNat_ofNat] at this
  omega

theorem getPacketIndex_spec {h : RtpPacketHistory α} {front : StoredPacket α}
    (hslots : h.packetHistory = front :: slots) {packet : Packet α}
    (hfront : front.packet = some packet) (s : BitVec 16) :
    ∃ index, h.getPacketIndex s = some index ∧ -2 ^ 15 ≤ index ∧ index ≤ 2 ^ 15 ∧
      s = packet.sequenceNumber + BitVec.ofInt 16 index := by
  have hresult : ∀ index : Int, index % 2 ^ 16 = (s.toNat - packet.sequenceNumber.toNat : Int) % 2 ^ 16 →
      s = packet.sequenceNumber + BitVec.ofInt 16 index := by
    intro index hindex
    apply BitVec.eq_of_toNat_eq
    have := s.isLt
    have := packet.sequenceNumber.isLt
    rw [BitVec.toNat_add, BitVec.toNat_ofInt]
    omega
  have hs := s.isLt
  have hf := packet.sequenceNumber.isLt
  have hsub : (s - packet.sequenceNumber).toNat =
      (2 ^ 16 - packet.sequenceNumber.toNat + s.toNat) % 2 ^ 16 := BitVec.toNat_sub ..
  rw [RtpPacketHistory.getPacketIndex, hslots]
  simp only [hfront, Option.bind_eq_bind, Option.bind_some, Option.pure_def]
  by_cases heq : packet.sequenceNumber = s
  · rw [if_pos heq]
    exact ⟨0, rfl, by decide, by decide, by simp [heq]⟩
  rw [if_neg heq]
  have hne : packet.sequenceNumber.toNat ≠ s.toNat := fun h => heq (BitVec.eq_of_toNat_eq h)
  by_cases hnewer : isNewerSequenceNumber s packet.sequenceNumber = true
  · rw [if_pos hnewer]
    rw [isNewerSequenceNumber] at hnewer
    refine ⟨_, rfl, ?_, ?_, hresult _ ?_⟩ <;> split_ifs at hnewer ⊢ <;>
      simp only [decide_eq_true_eq] at hnewer <;> omega
  · rw [if_neg hnewer]
    rw [isNewerSequenceNumber] at hnewer
    refine ⟨_, rfl, ?_, ?_, hresult _ ?_⟩ <;> split_ifs at hnewer ⊢ <;>
      simp only [decide_eq_true_eq, not_and, not_lt] at hnewer <;>
      (try have hnewer := hnewer (Ne.symm heq)) <;> omega

/-! ### The invariant -/

/-- What the calls so far say about the packet with a number: whether it was handed out and not yet
marked as sent, and when it was last sent again. -/
structure Sent where
  pending : BitVec 16 → Bool
  resentAt : BitVec 16 → Option Int

structure Kept (puts : List (Packet α)) (sent : Sent) (culled : List Nat) (slot : StoredPacket α)
    (packet : Packet α) : Prop where
  put : puts[slot.insertOrder]? = some packet
  notCulled : slot.insertOrder ∉ culled
  pending : sent.pending packet.sequenceNumber = true → slot.pendingTransmission = true
  resent : ∀ t, sent.resentAt packet.sequenceNumber = some t →
    slot.pendingTransmission = true ∨ 0 < slot.timesRetransmitted ∧ t ≤ slot.sendTime

structure Sound (puts : List (Packet α)) (sent : Sent) (h : RtpPacketHistory α) : Prop where
  front : ∀ slot ∈ h.packetHistory.head?, slot.packet.isSome
  aligned : ∃ base, Aligned base h.packetHistory
  size : h.packetHistory.length < 2 ^ 16
  inserted : h.packetsInserted = puts.length
  culled : ∀ n ∈ h.culled, n < puts.length
  kept : ∀ slot ∈ h.packetHistory, ∀ packet, slot.packet = some packet →
    Kept puts sent h.culled slot packet

section Steps

variable {puts : List (Packet α)} {sent : Sent} {h : RtpPacketHistory α}

variable {i : Nat}

theorem removePacket_eq (hi : h.packetHistory[i]? = some slot) :
    h.removePacket i = { h with
      packetHistory := if i = 0 then
        (h.packetHistory.set i { slot with packet := none }).dropWhile (·.packet.isNone)
        else h.packetHistory.set i { slot with packet := none }
      culled := if slot.packet.isSome then slot.insertOrder :: h.culled else h.culled } := by
  rw [removePacket, hi]

theorem removePacket_suffix (hi : h.packetHistory[i]? = some slot) :
    (h.removePacket i).packetHistory <:+ h.packetHistory.set i { slot with packet := none } := by
  rw [removePacket_eq hi]
  dsimp only
  split_ifs
  · exact dropWhile_suffix _
  · exact suffix_refl _

theorem mem_removePacket {slot removed : StoredPacket α} {packet : Packet α}
    (hi : h.packetHistory[i]? = some removed) (hslot : slot ∈ (h.removePacket i).packetHistory)
    (hpacket : slot.packet = some packet) : ∃ j, j ≠ i ∧ h.packetHistory[j]? = some slot := by
  obtain ⟨j, hj⟩ := List.getElem?_of_mem ((removePacket_suffix hi).subset hslot)
  rw [List.getElem?_set] at hj
  split_ifs at hj with hij hlt
  · cases hj
    cases hpacket
  · exact ⟨j, Ne.symm hij, hj⟩

theorem head?_dropWhile_isSome (slots : List (StoredPacket α)) :
    ∀ slot ∈ (slots.dropWhile (·.packet.isNone)).head?, slot.packet.isSome = true := by
  induction slots with
  | nil => exact nofun
  | cons first slots ih =>
    rw [dropWhile_cons]
    split_ifs with hnone
    · exact ih
    · intro slot hslot
      cases hslot
      exact isSome_iff_ne_none.mpr fun h => hnone (by rw [h]; rfl)

theorem Sound.removePacket (hs : Sound puts sent h) {removed : StoredPacket α}
    (hi : h.packetHistory[i]? = some removed) : Sound puts sent (h.removePacket i) := by
  have hlt := (List.getElem?_eq_some_iff.mp hi).1
  have hsuffix := removePacket_suffix hi
  obtain ⟨base, haligned⟩ := hs.aligned
  have hset : Aligned base (h.packetHistory.set i { removed with packet := none }) :=
    haligned.set i nofun
  refine ⟨?_, ?_, ?_, ?_, ?_, ?_⟩
  · rw [removePacket_eq hi]
    dsimp only
    split_ifs with hzero
    · exact head?_dropWhile_isSome _
    · obtain ⟨first, slots, hslots⟩ := exists_cons_of_length_pos (by omega : 0 < h.packetHistory.length)
      obtain ⟨i, rfl⟩ := Nat.exists_eq_succ_of_ne_zero hzero
      rw [hslots, set_cons_succ]
      intro slot hslot
      exact hs.front slot (hslots ▸ hslot)
  · rw [suffix_iff_eq_drop.mp hsuffix]
    exact ⟨_, hset.drop _⟩
  · have := hsuffix.length_le
    rw [length_set] at this
    exact this.trans_lt hs.size
  · rw [removePacket_eq hi]
    exact hs.inserted
  · rw [removePacket_eq hi]
    dsimp only
    cases hremoved : removed.packet with
    | none => exact hs.culled
    | some q =>
      have hput := (hs.kept removed (mem_of_getElem? hi) q hremoved).put
      exact forall_mem_cons.mpr ⟨(List.getElem?_eq_some_iff.mp hput).1, hs.culled⟩
  · intro slot hslot packet hpacket
    obtain ⟨j, hj, hget⟩ := mem_removePacket hi hslot hpacket
    obtain ⟨hput, hnot, hpending, hresent⟩ := hs.kept slot (mem_of_getElem? hget) packet hpacket
    refine ⟨hput, ?_, hpending, hresent⟩
    rw [removePacket_eq hi]
    dsimp only
    cases hremoved : removed.packet with
    | none => exact hnot
    | some q =>
      refine fun hmem => (mem_cons.mp hmem).elim (fun heq => hj ?_) hnot
      have hput' := (hs.kept removed (mem_of_getElem? hi) q hremoved).put
      rw [← heq, hput] at hput'
      cases hput'
      exact haligned.index_eq hs.size hget hpacket hi hremoved rfl

theorem length_removePacket_zero (hne : h.packetHistory ≠ []) :
    (h.removePacket 0).packetHistory.length < h.packetHistory.length := by
  obtain ⟨front, slots, hslots⟩ := exists_cons_of_ne_nil hne
  have hi : h.packetHistory[0]? = some front := by rw [hslots]; rfl
  rw [removePacket_eq hi, hslots]
  simp only [if_true, set_cons_zero, dropWhile_cons, isNone_none]
  exact Nat.lt_succ_of_le (dropWhile_suffix _).length_le

section

variable (hs : Sound puts sent h)
include hs

theorem Sound.cullLoop (now : Int) {fuel : Nat} (hfuel : h.packetHistory.length ≤ fuel) :
    Sound puts sent (cullLoop now fuel h) ∧
      (cullLoop now fuel h).packetHistory.length < maxCapacity := by
  induction fuel generalizing h with
  | zero => exact ⟨hs, by rw [cullLoop]; exact hfuel.trans_lt (by decide)⟩
  | succ fuel ih =>
    rw [cullLoop]
    cases hslots : h.packetHistory with
    | nil => exact ⟨hs, by rw [hslots]; exact Nat.succ_pos _⟩
    | cons front slots =>
      have hi : h.packetHistory[0]? = some front := by rw [hslots]; rfl
      have hshorter := length_removePacket_zero (by rw [hslots]; exact cons_ne_nil _ _)
      have hremoved := ih (hs.removePacket hi) (by omega)
      dsimp only
      rw [← hslots]
      split_ifs with hfull
      · exact hremoved
      · exact ⟨hs, by omega⟩
      · exact ⟨hs, by omega⟩
      · exact hremoved
      · exact ⟨hs, by omega⟩

theorem Sound.reset : Sound puts sent h.reset := by
  refine ⟨nofun, ⟨0, nofun⟩, Nat.two_pow_pos 16, hs.inserted, ?_, nofun⟩
  intro n hn
  rcases mem_append.mp hn with hn | hn
  · obtain ⟨slot, hslot, rfl⟩ := mem_map.mp hn
    obtain ⟨hmem, hsome⟩ := mem_filter.mp hslot
    obtain ⟨packet, hpacket⟩ := isSome_iff_exists.mp hsome
    exact (List.getElem?_eq_some_iff.mp (hs.kept slot hmem packet hpacket).put).1
  · exact hs.culled n hn

theorem Sound.getPacketIndex (s : BitVec 16) :
    Ensures (h.getPacketIndex s) fun index => -2 ^ 15 ≤ index ∧ index ≤ 2 ^ 15 ∧
      (h.packetHistory = [] → index = 0) ∧ ∃ base, Aligned base h.packetHistory ∧ s = base + BitVec.ofInt 16 index := by
  cases hslots : h.packetHistory with
  | nil =>
    refine ⟨0, by rw [RtpPacketHistory.getPacketIndex, hslots], by decide, by decide, fun _ => rfl, s, nofun, ?_⟩
    simp
  | cons front slots =>
    obtain ⟨base, haligned⟩ := hs.aligned
    obtain ⟨packet, hpacket⟩ := isSome_iff_exists.mp (hs.front front (by rw [hslots]; rfl))
    obtain ⟨index, hindex, hlow, hhigh, hseq⟩ := getPacketIndex_spec hslots hpacket s
    rw [hslots] at haligned
    have hbase : packet.sequenceNumber = base := by
      have := haligned 0 front packet rfl hpacket
      simpa using this
    exact ⟨index, hindex, hlow, hhigh, nofun, base, haligned, hbase ▸ hseq⟩

theorem Sound.findStored (s : BitVec 16) : Ensures (h.findStored s) fun found =>
      (∀ i slot packet, found = some (i, slot, packet) → h.packetHistory[i]? = some slot ∧
        slot.packet = some packet ∧ packet.sequenceNumber = s) ∧
      (found = none → ∀ i slot packet, h.packetHistory[i]? = some slot → slot.packet = some packet →
        i < 2 ^ 15 → packet.sequenceNumber ≠ s) := by
  rw [RtpPacketHistory.findStored]
  refine (hs.getPacketIndex s).bind fun index hindex => ?_
  obtain ⟨hlow, hhigh, -, base, haligned, hseq⟩ := hindex
  -- A packet with the number is at the index.
  have hat : ∀ (i : Nat) (slot : StoredPacket α) (packet : Packet α),
      h.packetHistory[i]? = some slot → slot.packet = some packet → i < 2 ^ 15 →
      packet.sequenceNumber = s → index = i := by
    intro i slot packet hi hpacket hlt heq
    rw [haligned i slot packet hi hpacket, hseq] at heq
    have hofInt : BitVec.ofInt 16 index = BitVec.ofInt 16 i := by
      rw [BitVec.ofInt_natCast]
      exact (BitVec.add_right_inj base).mp heq.symm
    have := congrArg BitVec.toNat hofInt
    rw [BitVec.toNat_ofInt, BitVec.toNat_ofInt] at this
    omega
  split_ifs with hneg
  · refine .some ⟨nofun, fun _ i slot packet hi hpacket hlt heq => ?_⟩
    have := hat i slot packet hi hpacket hlt heq
    omega
  · refine .some ⟨?_, ?_⟩
    · intro i slot packet hfound
      obtain ⟨slot', hslot, hfound⟩ := bind_eq_some_iff.mp hfound
      obtain ⟨packet', hpacket, hfound⟩ := bind_eq_some_iff.mp hfound
      cases hfound
      refine ⟨hslot, hpacket, ?_⟩
      rw [haligned _ _ _ hslot hpacket, hseq, ← BitVec.ofInt_natCast]
      congr 2
      omega
    · intro hnone i slot packet hi hpacket hlt heq
      have := hat i slot packet hi hpacket hlt heq
      rw [this, Int.toNat_natCast, hi] at hnone
      simp [hpacket] at hnone

theorem Sound.set {slot slot' : StoredPacket α} {packet : Packet α}
    (hi : h.packetHistory[i]? = some slot) (hpacket : slot.packet = some packet) {sent' : Sent}
    (hpacket' : slot'.packet = some packet) (hkept : Kept puts sent' h.culled slot' packet)
    (hother : ∀ s ≠ packet.sequenceNumber, sent'.pending s = sent.pending s ∧
      sent'.resentAt s = sent.resentAt s) :
    Sound puts sent' { h with packetHistory := h.packetHistory.set i slot' } := by
  obtain ⟨base, haligned⟩ := hs.aligned
  refine ⟨?_, ⟨base, haligned.set i ?_⟩, by simpa using hs.size, hs.inserted, hs.culled, ?_⟩
  · intro first hfirst
    dsimp only at hfirst
    rw [List.head?_eq_getElem?, List.getElem?_set] at hfirst
    split_ifs at hfirst with hzero hlt
    · cases hfirst
      rw [hpacket']
      rfl
    · cases hfirst
    · exact hs.front first (by rw [List.head?_eq_getElem?]; exact hfirst)
  · intro p hp
    cases hp.symm.trans hpacket'
    exact haligned i slot _ hi hpacket
  · intro x hx p hp
    obtain ⟨j, hj⟩ := List.getElem?_of_mem hx
    dsimp only at hj
    rw [List.getElem?_set] at hj
    split_ifs at hj with hij hlt
    · cases hj
      cases hp.symm.trans hpacket'
      exact hkept
    · obtain ⟨hput, hnot, hpending, hresent⟩ := hs.kept x (mem_of_getElem? hj) p hp
      have hne : p.sequenceNumber ≠ packet.sequenceNumber :=
        fun heq => hij (haligned.index_eq hs.size hi hpacket hj hp heq.symm)
      obtain ⟨hsame, hsame'⟩ := hother _ hne
      exact ⟨hput, hnot, hsame ▸ hpending, hsame' ▸ hresent⟩

end

def Free (h : RtpPacketHistory α) (s : BitVec 16) : Prop :=
  ∀ slot ∈ h.packetHistory, ∀ packet, slot.packet = some packet → packet.sequenceNumber ≠ s

theorem Sound.removeDuplicate (hs : Sound puts sent h) (s : BitVec 16)
    (hlength : h.packetHistory.length < maxCapacity) :
    Ensures (h.removeDuplicate s) fun h' => Sound puts sent h' ∧ Free h' s ∧
      h'.packetHistory.length < maxCapacity ∧ h'.enabled = h.enabled := by
  rw [maxCapacity] at hlength ⊢
  refine (hs.findStored s).bind fun found hfound => ?_
  obtain ⟨hsome, hnone⟩ := hfound
  cases found with
  | none =>
    refine .some ⟨hs, fun slot hslot packet hpacket => ?_, hlength, rfl⟩
    obtain ⟨i, hi⟩ := List.getElem?_of_mem hslot
    have hlt := (List.getElem?_eq_some_iff.mp hi).1
    exact hnone rfl i slot packet hi hpacket (by omega)
  | some found =>
    obtain ⟨i, removed, q⟩ := found
    obtain ⟨hi, hq, hseq⟩ := hsome i removed q rfl
    obtain ⟨base, haligned⟩ := hs.aligned
    refine .some ⟨hs.removePacket hi, fun slot hslot packet hpacket heq => ?_, ?_, ?_⟩
    · obtain ⟨j, hj, hget⟩ := mem_removePacket hi hslot hpacket
      exact hj (haligned.index_eq hs.size hget hpacket hi hq (heq.trans hseq.symm))
    · have := (removePacket_suffix hi).length_le
      rw [length_set] at this
      exact this.trans_lt hlength
    · rw [removePacket_eq hi]

theorem mem_expand
    (hslot : slot ∈ (RtpPacketHistory.expand slots packetIndex).1) : slot ∈ slots ∨ slot = vacant := by
  rw [RtpPacketHistory.expand] at hslot
  split_ifs at hslot
  · exact (mem_append.mp hslot).symm.imp_right eq_of_mem_replicate
  · exact (mem_append.mp hslot).imp_right eq_of_mem_replicate

theorem expand_bounds (hlow : -2 ^ 15 ≤ packetIndex) (hhigh : packetIndex ≤ 2 ^ 15)
    (hlength : slots.length < maxCapacity) : (RtpPacketHistory.expand slots packetIndex).2 <
    (RtpPacketHistory.expand slots packetIndex).1.length ∧
      (RtpPacketHistory.expand slots packetIndex).1.length < 2 ^ 16 := by
  rw [maxCapacity] at hlength
  rw [RtpPacketHistory.expand]
  split_ifs <;> rw [length_append, length_replicate] <;> omega

theorem head?_expand
    (hne : (RtpPacketHistory.expand slots packetIndex).2 ≠ 0) (hslots : slots ≠ []) :
    (RtpPacketHistory.expand slots packetIndex).1.head? = slots.head? := by
  rw [RtpPacketHistory.expand] at hne ⊢
  split_ifs at hne ⊢
  · exact absurd rfl hne
  · exact List.head?_append_of_ne_nil _ hslots

def Sent.put (sent : Sent) (s : BitVec 16) : Sent :=
  ⟨Function.update sent.pending s false, Function.update sent.resentAt s none⟩

theorem Kept.put_other {culled : List Nat} {packet : Packet α}
    (hk : Kept puts sent culled slot packet) {p : Packet α}
    (hne : packet.sequenceNumber ≠ p.sequenceNumber) :
    Kept (puts ++ [p]) (sent.put p.sequenceNumber) culled slot packet := by
  have hlt := (List.getElem?_eq_some_iff.mp hk.put).1
  refine ⟨by rw [List.getElem?_append_left hlt, hk.put], hk.notCulled, ?_, ?_⟩
  · dsimp only [Sent.put]
    rw [update_of_ne hne]
    exact hk.pending
  · dsimp only [Sent.put]
    rw [update_of_ne hne]
    exact hk.resent

theorem Sound.putRtpPacket (hs : Sound puts sent h) (henabled : h.enabled = true) (p : Packet α)
    (sendTime now : Int) :
    Ensures (h.putRtpPacket p sendTime now) (Sound (puts ++ [p]) (sent.put p.sequenceNumber)) := by
  obtain ⟨hculled, hlength⟩ := hs.cullLoop now le_rfl
  rw [RtpPacketHistory.putRtpPacket, if_neg (by simp [henabled])]
  refine (hculled.removeDuplicate p.sequenceNumber hlength).bind fun h' hh' => ?_
  obtain ⟨hs', hfree, hlength', -⟩ := hh'
  refine (hs'.getPacketIndex p.sequenceNumber).bind fun index hindex => ?_
  obtain ⟨hlow, hhigh, hempty, base, haligned, hseq⟩ := hindex
  obtain ⟨base', haligned', hseq'⟩ := haligned.expand hseq
  obtain ⟨hlt, hsize⟩ := expand_bounds hlow hhigh hlength'
  have hplace : ∀ slot, (RtpPacketHistory.expand h'.packetHistory index).1[
      (RtpPacketHistory.expand h'.packetHistory index).2]? = some slot → slot.packet = none := by
    intro slot hslot
    by_contra hsome
    obtain ⟨q, hq⟩ := ne_none_iff_exists'.mp hsome
    rcases mem_expand (mem_of_getElem? hslot) with hmem | rfl
    · exact hfree slot hmem q hq ((haligned' _ _ _ hslot hq).trans hseq'.symm)
    · cases hq
  have hfirst : (RtpPacketHistory.expand h'.packetHistory index).2 ≠ 0 →
      (RtpPacketHistory.expand h'.packetHistory index).1.head? = h'.packetHistory.head? := by
    intro hne
    refine head?_expand hne fun hnil => hne ?_
    rw [hempty hnil]
    rfl
  have hmem : ∀ slot ∈ (RtpPacketHistory.expand h'.packetHistory index).1,
      slot ∈ h'.packetHistory ∨ slot = vacant := fun _ => mem_expand
  generalize RtpPacketHistory.expand h'.packetHistory index = expanded at *
  obtain ⟨slots, place⟩ := expanded
  dsimp only at *
  have hget : slots[place]? = some slots[place] := List.getElem?_eq_getElem hlt
  refine .guard_bind (by rw [hget, map_some, hplace _ hget]; rfl) (.some ?_)
  refine ⟨?_, ⟨base', haligned'.set place ?_⟩, by simpa using hsize, ?_, ?_, ?_⟩
  · intro first hfront
    dsimp only at hfront
    rw [List.head?_eq_getElem?, List.getElem?_set] at hfront
    split_ifs at hfront with hzero
    · cases hfront
      rfl
    · rw [← List.head?_eq_getElem?, hfirst hzero] at hfront
      exact hs'.front first hfront
  · intro q hq
    cases hq
    exact hseq'
  · rw [length_append, hs'.inserted]
    rfl
  · intro n hn
    rw [length_append]
    exact Nat.lt_add_right _ (hs'.culled n hn)
  · intro slot hslot q hq
    obtain ⟨j, hj⟩ := List.getElem?_of_mem hslot
    dsimp only at hj
    rw [List.getElem?_set] at hj
    split_ifs at hj with hij
    · cases hj
      cases hq
      refine ⟨?_, fun hmem => ?_, ?_, ?_⟩
      · simp [hs'.inserted]
      · exact absurd (hs'.culled _ hmem) (by rw [hs'.inserted]; exact lt_irrefl _)
      · dsimp only [Sent.put]
        rw [update_self]
        exact nofun
      · dsimp only [Sent.put]
        rw [update_self]
        exact nofun
    · rcases hmem slot (mem_of_getElem? hj) with hold | rfl
      · exact (hs'.kept slot hold q hq).put_other (hfree slot hold q hq)
      · cases hq

def Sent.get (sent : Sent) (s : BitVec 16) : Sent :=
  { sent with pending := Function.update sent.pending s true }

theorem Sound.getPacketAndMarkAsPending (hs : Sound puts sent h) (s : BitVec 16)
    (encapsulate : Packet α → Option β) (now : Int) :
    Ensures (h.getPacketAndMarkAsPending s encapsulate now) fun (h', result) =>
      (result = none → h' = h) ∧
      ∀ q, result = some q → Sound puts (sent.get s) h' ∧ sent.pending s = false ∧
        (∀ t rtt, sent.resentAt s = some t → h.rtt = some rtt → rtt ≤ now - t) ∧
        ∃ n packet, puts[n]? = some packet ∧ n ∉ h.culled ∧ packet.sequenceNumber = s ∧
          encapsulate packet = some q := by
  rw [RtpPacketHistory.getPacketAndMarkAsPending]
  by_cases henabled : h.enabled = true
  swap
  · rw [if_pos henabled]
    exact .some ⟨fun _ => rfl, nofun⟩
  rw [if_neg (not_not.mpr henabled)]
  refine (hs.findStored s).bind fun found hfound => ?_
  cases found with
  | none => exact .some ⟨fun _ => rfl, nofun⟩
  | some found =>
    obtain ⟨i, slot, packet⟩ := found
    obtain ⟨hi, hpacket, rfl⟩ := hfound.1 i slot packet rfl
    have hk := hs.kept slot (mem_of_getElem? hi) packet hpacket
    dsimp only
    by_cases hpending : slot.pendingTransmission = true
    · rw [if_pos hpending]
      exact .some ⟨fun _ => rfl, nofun⟩
    rw [if_neg hpending]
    by_cases hrtt : h.verifyRtt slot now = true
    swap
    · rw [if_pos hrtt]
      exact .some ⟨fun _ => rfl, nofun⟩
    rw [if_neg (not_not.mpr hrtt)]
    cases hencapsulate : encapsulate packet with
    | none => exact .some ⟨fun _ => rfl, nofun⟩
    | some encapsulated =>
      refine .some ⟨nofun, fun q hq => ⟨?_, ?_, ?_, ?_⟩⟩
      · refine hs.set hi hpacket hpacket ⟨hk.put, hk.notCulled, fun _ => rfl, fun _ _ => .inl rfl⟩ ?_
        intro s hne
        exact ⟨update_of_ne hne _ _, rfl⟩
      · exact Bool.eq_false_iff.mpr fun h => hpending (hk.pending h)
      · intro t rtt hresent heq
        rcases hk.resent t hresent with h | ⟨hpos, hle⟩
        · exact absurd h hpending
        · rw [verifyRtt, heq] at hrtt
          simp only [Bool.not_eq_true', decide_eq_false_iff_not, not_and] at hrtt
          have := hrtt hpos
          omega
      · exact ⟨slot.insertOrder, packet, hk.put, hk.notCulled, rfl, hencapsulate.trans hq⟩

theorem Sound.forget (hs : Sound puts sent h) {sent' : Sent}
    (hsent : ∀ s, (sent'.pending s = true → sent.pending s = true) ∧
      ∀ t, sent'.resentAt s = some t → sent.pending s = true ∨ sent.resentAt s = some t) :
    Sound puts sent' h := by
  refine ⟨hs.front, hs.aligned, hs.size, hs.inserted, hs.culled, fun slot hslot packet hpacket => ?_⟩
  obtain ⟨hput, hnot, hpending, hresent⟩ := hs.kept slot hslot packet hpacket
  refine ⟨hput, hnot, fun h => hpending ((hsent _).1 h), fun t ht => ?_⟩
  rcases (hsent _).2 t ht with h | h
  · exact .inl (hpending h)
  · exact hresent t h

def Sent.mark (sent : Sent) (s : BitVec 16) (found : Bool) (now : Int) : Sent :=
  ⟨Function.update sent.pending s false,
    if sent.pending s || found then Function.update sent.resentAt s (some now) else sent.resentAt⟩

theorem Sound.markPacketAsSent (hs : Sound puts sent h) (s : BitVec 16) (now : Int) :
    Ensures (h.markPacketAsSent s now) fun h' =>
      (h.enabled = true → Ensures (h.findStored s) fun found =>
        Sound puts (sent.mark s found.isSome now) h') ∧ (h.enabled = false → h' = h) := by
  rw [RtpPacketHistory.markPacketAsSent]
  by_cases henabled : h.enabled = true
  swap
  · rw [if_pos henabled]
    exact .some ⟨fun h => absurd h henabled, fun _ => rfl⟩
  rw [if_neg (not_not.mpr henabled)]
  obtain ⟨found, hfind, hfound⟩ := hs.findStored s
  rw [hfind]
  cases found with
  | none =>
    refine .some ⟨fun _ => .some (hs.forget fun packet => ⟨?_, ?_⟩), fun h => by simp [henabled] at h⟩
    · intro h
      by_cases heq : packet = s
      · rw [heq] at h
        simp [Sent.mark] at h
      · simpa [Sent.mark, update_of_ne heq] using h
    · intro t ht
      simp only [Sent.mark, isSome_none, Bool.or_false] at ht
      split_ifs at ht with hpending
      · by_cases heq : packet = s
        · exact .inl (heq ▸ hpending)
        · rw [update_of_ne heq] at ht
          exact .inr ht
      · exact .inr ht
  | some found =>
    obtain ⟨i, slot, packet⟩ := found
    obtain ⟨hi, hpacket, rfl⟩ := hfound.1 i slot packet rfl
    have hk := hs.kept slot (mem_of_getElem? hi) packet hpacket
    refine .some ⟨fun _ => .some ?_, fun h => by simp [henabled] at h⟩
    refine hs.set hi hpacket rfl ⟨hk.put, hk.notCulled, ?_, ?_⟩ ?_
    · dsimp only [Sent.mark]
      rw [update_self]
      exact nofun
    · intro t ht
      simp only [Sent.mark, isSome_some, Bool.or_true, if_true, update_self] at ht
      exact .inr ⟨Nat.succ_pos _, (Option.some.inj ht).ge⟩
    · intro s hne
      simp [Sent.mark, update_of_ne hne]

theorem Sound.cullAcknowledgedPackets (hs : Sound puts sent h) (sequenceNumbers : List (BitVec 16)) :
    Ensures (h.cullAcknowledgedPackets sequenceNumbers) (Sound puts sent) := by
  refine Ensures.foldlM hs fun h hs s _ => ?_
  refine (hs.getPacketIndex s).bind fun index _ => ?_
  split_ifs with houtside
  · exact .some hs
  · have hlt : index.toNat < h.packetHistory.length := by omega
    exact .some (hs.removePacket (List.getElem?_eq_getElem hlt))

end Steps

/-! ### Runs -/

structure HistoryRun (α : Type) where
  history : RtpPacketHistory α
  puts : List (Packet α)
  sent : Sent

inductive HistoryOp (α β : Type) where
  | putRtpPacket (packet : Packet α) (sendTime now : Int)
  | getPacketAndMarkAsPending (sequenceNumber : BitVec 16) (encapsulate : Packet α → Option β)
    (now : Int)
  | markPacketAsSent (sequenceNumber : BitVec 16) (now : Int)
  | cullAcknowledgedPackets (sequenceNumbers : List (BitVec 16))
  | setRtt (rtt now : Int)
  | setStorePacketsStatus (enabled : Bool) (numberToStore : Nat)
  | clear

def HistoryRun.step (r : HistoryRun α) : HistoryOp α β → Option (HistoryRun α)
  | .putRtpPacket packet sendTime now => do
    let history ← r.history.putRtpPacket packet sendTime now
    if r.history.enabled then
      return ⟨history, r.puts ++ [packet], r.sent.put packet.sequenceNumber⟩
    else return { r with history := history }
  | .getPacketAndMarkAsPending sequenceNumber encapsulate now => do
    let (history, result) ←
      r.history.getPacketAndMarkAsPending sequenceNumber encapsulate now
    return ⟨history, r.puts, if result.isSome then r.sent.get sequenceNumber else r.sent⟩
  | .markPacketAsSent sequenceNumber now => do
    let found ← r.history.findStored sequenceNumber
    let history ← r.history.markPacketAsSent sequenceNumber now
    return ⟨history, r.puts,
      if r.history.enabled then r.sent.mark sequenceNumber found.isSome now else r.sent⟩
  | .cullAcknowledgedPackets sequenceNumbers => do
    return { r with history := ← r.history.cullAcknowledgedPackets sequenceNumbers }
  | .setRtt rtt now => do return { r with history := ← r.history.setRtt rtt now }
  | .setStorePacketsStatus enabled numberToStore => do
    return { r with history := ← r.history.setStorePacketsStatus enabled numberToStore }
  | .clear => return { r with history := r.history.reset }

def HistoryOp.Accepted : HistoryOp α β → Prop
  | .setRtt rtt _ => 0 ≤ rtt
  | .setStorePacketsStatus _ numberToStore => numberToStore ≤ RtpPacketHistory.maxCapacity
  | _ => True

instance : (op : HistoryOp α β) → Decidable op.Accepted
  | .setRtt rtt _ => inferInstanceAs (Decidable (0 ≤ rtt))
  | .setStorePacketsStatus _ numberToStore =>
    inferInstanceAs (Decidable (numberToStore ≤ RtpPacketHistory.maxCapacity))
  | .putRtpPacket .. | .getPacketAndMarkAsPending .. | .markPacketAsSent ..
  | .cullAcknowledgedPackets .. | .clear => isTrue trivial

def HistoryRun.start : HistoryRun α := ⟨.initial, [], ⟨fun _ => false, fun _ => none⟩⟩

def historyMachine (α β : Type) : Machine (HistoryRun α) (HistoryOp α β) where
  initial r := r = HistoryRun.start
  enabled _ op := op.Accepted
  step := HistoryRun.step

instance (r : HistoryRun α) (op : HistoryOp α β) : Decidable ((historyMachine α β).enabled r op) :=
  inferInstanceAs (Decidable op.Accepted)

def HistoryRun.Sound (r : HistoryRun α) : Prop := History.Sound r.puts r.sent r.history

theorem sound_start : (HistoryRun.start : HistoryRun α).Sound :=
  ⟨nofun, ⟨0, nofun⟩, Nat.two_pow_pos 16, rfl, nofun, nofun⟩

theorem HistoryRun.Sound.step {r : HistoryRun α} (hr : r.Sound) {op : HistoryOp α β}
    (haccepted : op.Accepted) : Ensures (r.step op) HistoryRun.Sound := by
  cases op with
  | putRtpPacket packet sendTime now =>
    by_cases henabled : r.history.enabled = true
    · refine (History.Sound.putRtpPacket hr henabled packet sendTime now).bind fun h' hs' => ?_
      rw [if_pos henabled]
      exact .some hs'
    · have hsame : r.history.putRtpPacket packet sendTime now = some r.history := by
        rw [RtpPacketHistory.putRtpPacket, if_pos henabled]
        rfl
      rw [HistoryRun.step, hsame]
      simp only [bind_eq_bind, bind_some]
      rw [if_neg henabled]
      exact .some hr
  | getPacketAndMarkAsPending sequenceNumber encapsulate now =>
    refine (History.Sound.getPacketAndMarkAsPending hr sequenceNumber encapsulate now).bind ?_
    rintro ⟨h', result⟩ ⟨hnone, hsome⟩
    refine .some ?_
    cases result with
    | none =>
      obtain rfl := hnone rfl
      exact hr
    | some q => exact (hsome q rfl).1
  | markPacketAsSent sequenceNumber now =>
    obtain ⟨found, hfind, -⟩ := History.Sound.findStored hr sequenceNumber
    rw [HistoryRun.step, hfind]
    refine (History.Sound.markPacketAsSent hr sequenceNumber now).bind fun h' hh' => ?_
    refine .some ?_
    by_cases henabled : r.history.enabled = true
    · have hs' := (hh'.1 henabled).of_eq_some hfind
      change History.Sound _ (if _ then _ else _) _
      rwa [if_pos henabled]
    · obtain rfl := hh'.2 (Bool.eq_false_iff.mpr henabled)
      change History.Sound _ (if _ then _ else _) _
      rwa [if_neg henabled]
  | cullAcknowledgedPackets sequenceNumbers =>
    exact (History.Sound.cullAcknowledgedPackets hr sequenceNumbers).bind fun h' hs' => .some hs'
  | setRtt rtt now =>
    have hrtt : History.Sound r.puts r.sent { r.history with rtt := some rtt } :=
      ⟨hr.front, hr.aligned, hr.size, hr.inserted, hr.culled, hr.kept⟩
    have hset : Ensures (r.history.setRtt rtt now) (History.Sound r.puts r.sent) := by
      refine .guard_bind haccepted (.some ?_)
      split_ifs
      · exact (hrtt.cullLoop now le_rfl).1
      · exact hrtt
    exact hset.bind fun h' hs' => .some hs'
  | setStorePacketsStatus enabled numberToStore =>
    have hreset := History.Sound.reset hr
    have hset : Ensures (r.history.setStorePacketsStatus enabled numberToStore)
        (History.Sound r.puts r.sent) :=
      .guard_bind haccepted (.some ⟨hreset.front, hreset.aligned, hreset.size, hreset.inserted,
        hreset.culled, hreset.kept⟩)
    exact hset.bind fun h' hs' => .some hs'
  | clear => exact .some (History.Sound.reset hr)

/-- In every run the first slot is in use and each slot holds the packet at its distance; a packet
that is handed out has the number asked for, was put and not culled, is not pending and was not
sent again within the round-trip time. -/
theorem packetHistory_sound (r : HistoryRun α) (hr : (historyMachine α β).Reachable r) :
    (∀ slot ∈ r.history.packetHistory.head?, slot.packet.isSome) ∧
    (∀ i front first slot packet, r.history.packetHistory.head? = some front →
      front.packet = some first → r.history.packetHistory[i]? = some slot →
      slot.packet = some packet →
      packet.sequenceNumber = first.sequenceNumber + BitVec.ofNat 16 i) ∧
    (∀ op : HistoryOp α β, op.Accepted → (r.step op).isSome) ∧
    ∀ (s : BitVec 16) (encapsulate : Packet α → Option β) (now : Int),
      Ensures (r.history.getPacketAndMarkAsPending s encapsulate now) fun (_, result) =>
        ∀ q, result = some q → r.sent.pending s = false ∧
          (∀ t rtt, r.sent.resentAt s = some t → r.history.rtt = some rtt → rtt ≤ now - t) ∧
          ∃ n packet, r.puts[n]? = some packet ∧ n ∉ r.history.culled ∧
            packet.sequenceNumber = s ∧ encapsulate packet = some q := by
  obtain ⟨hs, hsteps⟩ := hr.invariant (I := HistoryRun.Sound)
    (fun r (hr : r = HistoryRun.start) => hr ▸ sound_start) (fun r op hr ha => hr.step ha)
  refine ⟨hs.front, ?_, fun op ha => ?_, fun s encapsulate now => ?_⟩
  · intro i front first slot packet hfront hfirst hslot hpacket
    obtain ⟨base, haligned⟩ := hs.aligned
    rw [List.head?_eq_getElem?] at hfront
    have hbase := haligned 0 front first hfront hfirst
    rw [haligned i slot packet hslot hpacket, hbase]
    simp
  · obtain ⟨r', hr', -⟩ := hsteps op ha
    rw [show r.step op = some r' from hr']
    rfl
  · refine (History.Sound.getPacketAndMarkAsPending hs s encapsulate now).mono ?_
    rintro ⟨h', result⟩ ⟨-, hsome⟩ q hq
    exact (hsome q hq).2

theorem packetHistory_sound_wrapped :
    ∃ r, (historyMachine Unit Unit).Reachable r ∧ r.history.packetHistory.length = 2 ∧
      Ensures (r.history.getPacketAndMarkAsPending 0 (fun _ => some ()) 5) fun (_, result) =>
        result.isSome ∧ ∃ n packet, r.puts[n]? = some packet ∧ n ∉ r.history.culled ∧
          packet.sequenceNumber = 0 := by
  have hrun : ((historyMachine Unit Unit).run HistoryRun.start
      [.setStorePacketsStatus true 10, .putRtpPacket ⟨0, ()⟩ 1 1, .putRtpPacket ⟨65535, ()⟩ 2 2]).any
      (fun r => decide (r.history.packetHistory.length = 2) &&
        (r.history.getPacketAndMarkAsPending 0 (fun _ => some ()) 5).all
          fun result => result.2.isSome) = true := by decide
  obtain ⟨r, hr, h⟩ := Option.any_eq_true .. |>.mp hrun
  obtain ⟨hlength, hsome⟩ := Bool.and_eq_true_iff.mp h
  have hreach : (historyMachine Unit Unit).Reachable r := .run (.initial rfl) hr
  obtain ⟨-, -, -, hget⟩ := packetHistory_sound r hreach
  obtain ⟨⟨h', result⟩, heq, hresult⟩ := hget 0 (fun _ => some ()) 5
  rw [heq] at hsome
  obtain ⟨q, hq⟩ := Option.isSome_iff_exists.mp hsome
  obtain ⟨-, -, n, packet, hput, hnot, hseq, -⟩ := hresult q hq
  exact ⟨r, hreach, of_decide_eq_true hlength, _, heq, hsome, n, packet, hput, hnot, hseq⟩

end WebRtc.Rtp.History
