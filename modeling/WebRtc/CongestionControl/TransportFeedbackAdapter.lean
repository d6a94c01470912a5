import WebRtc.Lib.OrdMap
import WebRtc.Lib.Checked
import WebRtc.Numerics.SequenceNumber

/-! The history of sent packets and the bytes in flight (`transport_feedback_adapter.cc`). Bytes are
added when a packet is sent and removed once a later packet is acknowledged or the packet leaves
the history. -/

namespace WebRtc.CongestionControl

open List Option

structure RouteEndpoint where
  adapterType : Nat
  adapterId : Nat
  networkId : Nat
  usesTurn : Bool
deriving DecidableEq

structure NetworkRoute where
  connected : Bool
  localEndpoint : RouteEndpoint
  remoteEndpoint : RouteEndpoint
  lastSentPacketId : Int
  packetOverhead : Int
deriving DecidableEq

def networkRouteComparator (a b : NetworkRoute) : Bool :=
  if a.localEndpoint.networkId ≠ b.localEndpoint.networkId then
    a.localEndpoint.networkId < b.localEndpoint.networkId
  else if a.remoteEndpoint.networkId ≠ b.remoteEndpoint.networkId then
    a.remoteEndpoint.networkId < b.remoteEndpoint.networkId
  else if a.localEndpoint.adapterId ≠ b.localEndpoint.adapterId then
    a.localEndpoint.adapterId < b.localEndpoint.adapterId
  else if a.remoteEndpoint.adapterId ≠ b.remoteEndpoint.adapterId then
    a.remoteEndpoint.adapterId < b.remoteEndpoint.adapterId
  else if a.localEndpoint.usesTurn ≠ b.localEndpoint.usesTurn then
    a.localEndpoint.usesTurn < b.localEndpoint.usesTurn
  else if a.remoteEndpoint.usesTurn ≠ b.remoteEndpoint.usesTurn then
    a.remoteEndpoint.usesTurn < b.remoteEndpoint.usesTurn
  else a.connected < b.connected

abbrev RouteKey := Nat ×ₗ Nat ×ₗ Nat ×ₗ Nat ×ₗ Bool ×ₗ Bool ×ₗ Bool

def NetworkRoute.key (r : NetworkRoute) : RouteKey :=
  toLex (r.localEndpoint.networkId, toLex (r.remoteEndpoint.networkId,
    toLex (r.localEndpoint.adapterId, toLex (r.remoteEndpoint.adapterId,
      toLex (r.localEndpoint.usesTurn, toLex (r.remoteEndpoint.usesTurn, r.connected))))))

theorem networkRouteComparator_iff (a b : NetworkRoute) :
    networkRouteComparator a b = true ↔ a.key < b.key := by
  simp only [NetworkRoute.key, Prod.Lex.toLex_lt_toLex]
  unfold networkRouteComparator
  split_ifs <;> simp_all

/-- The map of the bytes in flight finds a route by its key. -/
theorem networkRouteComparator_order :
    IsStrictWeakOrder NetworkRoute (networkRouteComparator · ·) ∧ ∀ a b : NetworkRoute,
      ¬ networkRouteComparator a b ∧ ¬ networkRouteComparator b a ↔ a.key = b.key := by
  simp only [networkRouteComparator_iff]
  refine ⟨⟨fun a b c hab hbc => ?_⟩, fun a b => ?_⟩
  · simp only [not_lt] at hab hbc ⊢
    exact ⟨hbc.1.trans hab.1, hab.2.trans hbc.2⟩
  · simp only [not_lt]
    exact ⟨fun h => le_antisymm h.2 h.1, fun h => ⟨h.ge, h.le⟩⟩

structure SentPacket where
  /-- None before the packet was sent. -/
  sendTime : Option Int
  size : Nat
  priorUnackedData : Nat
  audio : Bool
  sequenceNumber : Int
  dataInFlight : Nat

structure PacketFeedback where
  creationTime : Int
  sent : SentPacket
  receiveTime : Option Int
  networkRoute : NetworkRoute
  /-- Which of the calls of `addPacket` brought it. The code does not keep this. -/
  ordinal : Nat

def PacketFeedback.markSent (packet : PacketFeedback) (sendTime : Int)
    (pendingUntrackedSize : Nat) : PacketFeedback :=
  { packet with
    sent := { packet.sent with
      sendTime := some sendTime
      priorUnackedData := packet.sent.priorUnackedData + pendingUntrackedSize } }

def PacketFeedback.withDataInFlight (packet : PacketFeedback) (dataInFlight : Nat) :
    PacketFeedback :=
  { packet with sent := { packet.sent with dataInFlight } }

structure PacketResult where
  sentPacket : SentPacket
  receiveTime : Option Int
  ordinal : Nat

/-- `InFlightBytesTracker`; the map is keyed by what its comparator sees of a route. -/
structure InFlightBytesTracker where
  inFlightData : OrdMap RouteKey Nat

namespace InFlightBytesTracker

variable (t : InFlightBytesTracker)

def addInFlightPacketBytes (packet : PacketFeedback) : Option InFlightBytesTracker := do
  guard packet.sent.sendTime.isSome
  return ⟨t.inFlightData.upsert packet.networkRoute.key fun old =>
    old.getD 0 + packet.sent.size⟩

def removeInFlightPacketBytes (packet : PacketFeedback) : Option InFlightBytesTracker :=
  if packet.sent.sendTime.isNone then some t
  else
    match t.inFlightData.find? packet.networkRoute.key with
    | none => some t
    | some data => do
      let rest ← checkedSub data packet.sent.size
      if rest = 0 then return ⟨t.inFlightData.erase packet.networkRoute.key⟩
      else return ⟨t.inFlightData.upsert packet.networkRoute.key fun _ => rest⟩

def getOutstandingData (route : NetworkRoute) : Nat := (t.inFlightData.find? route.key).getD 0

end InFlightBytesTracker

open InFlightBytesTracker

structure TransportFeedbackAdapter where
  pendingUntrackedSize : Nat
  lastSendTime : Option Int
  lastUntrackedSendTime : Option Int
  seqNumUnwrapper : SeqNumUnwrapper 16
  history : OrdMap Int PacketFeedback
  lastAckSeqNum : Int
  inFlight : InFlightBytesTracker
  currentOffset : Int
  lastTimestamp : Option Int
  networkRoute : NetworkRoute
  /-- The number of calls of `addPacket`. The code does not keep this. -/
  added : Nat

/-- The packet as `rtc::SentPacket` reports it. -/
structure SentPacketInfo where
  packetId : Int
  sendTimeMs : Int
  includedInFeedback : Bool
  includedInAllocation : Bool
  packetSizeBytes : Nat

structure TransportFeedback where
  baseSeqNo : BitVec 16
  numSeqNo : BitVec 16
  baseTime : Int
  receivedPackets : List (BitVec 16 × Int)

def kSendTimeHistoryWindow : Int := 60000000

def kTimeWrapPeriod : Int := 250 * 2 ^ 8 * 2 ^ 24

namespace TransportFeedback

/-- The loop of `ForAllPackets`: every packet with the time since the base, or none if lost. -/
def forAllPackets : Nat → BitVec 16 → Int → List (BitVec 16 × Int) → List (BitVec 16 × Option Int)
  | 0, _, _, _ => []
  | n + 1, seqNum, deltaSinceBase, [] =>
    (seqNum, none) :: forAllPackets n (seqNum + 1) deltaSinceBase []
  | n + 1, seqNum, deltaSinceBase, received :: rest =>
    if received.1 = seqNum then
      (seqNum, some (deltaSinceBase + received.2)) ::
        forAllPackets n (seqNum + 1) (deltaSinceBase + received.2) rest
    else (seqNum, none) :: forAllPackets n (seqNum + 1) deltaSinceBase (received :: rest)

def packets (f : TransportFeedback) : List (BitVec 16 × Option Int) :=
  forAllPackets f.numSeqNo.toNat f.baseSeqNo 0 f.receivedPackets

def getBaseDelta (f : TransportFeedback) (prevTimestamp : Int) : Int :=
  let delta := f.baseTime - prevTimestamp
  if |delta - kTimeWrapPeriod| < |delta| then delta - kTimeWrapPeriod
  else if |delta + kTimeWrapPeriod| < |delta| then delta + kTimeWrapPeriod
  else delta

end TransportFeedback

def roundDownToMillis (t : Int) : Int := t.tdiv 1000 * 1000

def maxTime (a : Option Int) (b : Int) : Option Int := some (a.elim b fun a => max a b)

namespace TransportFeedbackAdapter

variable (a : TransportFeedbackAdapter)

def expired (creationTime : Int) (entry : Int × PacketFeedback) : Bool :=
  creationTime - entry.2.creationTime > kSendTimeHistoryWindow

def dropExpired (creationTime : Int) : OrdMap Int PacketFeedback :=
  ⟨a.history.entries.dropWhile (expired creationTime),
    a.history.sorted.sublist (List.dropWhile_sublist _)⟩

def addPacket (transportSequenceNumber : BitVec 16) (length overheadBytes : Nat) (audio : Bool)
    (creationTime : Int) : Option TransportFeedbackAdapter := do
  let (seqNum, seqNumUnwrapper) := a.seqNumUnwrapper.unwrap transportSequenceNumber
  let packet : PacketFeedback :=
    { creationTime
      sent :=
        { sendTime := none, size := length + overheadBytes, priorUnackedData := 0, audio
          sequenceNumber := seqNum, dataInFlight := 0 }
      receiveTime := none
      networkRoute := a.networkRoute
      ordinal := a.added }
  let inFlight ← (a.history.entries.takeWhile (expired creationTime)).foldlM
    (fun t entry =>
      if entry.2.sent.sequenceNumber > a.lastAckSeqNum then t.removeInFlightPacketBytes entry.2
      else some t) a.inFlight
  return { a with
    seqNumUnwrapper, inFlight
    history := (a.dropExpired creationTime).upsert seqNum fun old => old.getD packet
    added := a.added + 1 }

def processSentPacket (sentPacket : SentPacketInfo) :
    Option (Option SentPacket × TransportFeedbackAdapter) :=
  let sendTime := sentPacket.sendTimeMs * 1000
  if sentPacket.includedInFeedback ∨ sentPacket.packetId ≠ -1 then
    let (seqNum, seqNumUnwrapper) := a.seqNumUnwrapper.unwrap (wrap 16 sentPacket.packetId)
    match a.history.find? seqNum with
    | none => some (none, { a with seqNumUnwrapper })
    | some packet =>
      let packetRetransmit := packet.sent.sendTime.isSome
      let packet := packet.markSent sendTime a.pendingUntrackedSize
      let a := { a with
        seqNumUnwrapper, lastSendTime := maxTime a.lastSendTime sendTime, pendingUntrackedSize := 0 }
      if packetRetransmit then
        some (none, { a with history := a.history.upsert seqNum fun _ => packet })
      else do
        let inFlight ←
          if packet.sent.sequenceNumber > a.lastAckSeqNum then
            a.inFlight.addInFlightPacketBytes packet
          else some a.inFlight
        let packet := packet.withDataInFlight (inFlight.getOutstandingData a.networkRoute)
        return (some packet.sent, { a with
          inFlight, history := a.history.upsert seqNum fun _ => packet })
  else if sentPacket.includedInAllocation then
    some (none, { a with
      pendingUntrackedSize := a.pendingUntrackedSize + sentPacket.packetSizeBytes
      lastUntrackedSendTime := maxTime a.lastUntrackedSendTime sendTime })
  else some (none, a)

def acknowledge (seqNum : Int) : Option TransportFeedbackAdapter :=
  if seqNum > a.lastAckSeqNum then do
    let inFlight ← (a.history.entries.filter fun entry =>
        a.lastAckSeqNum < entry.1 ∧ entry.1 ≤ seqNum).foldlM
      (fun t entry => t.removeInFlightPacketBytes entry.2) a.inFlight
    return { a with inFlight, lastAckSeqNum := seqNum }
  else some a

def handlePacket (sequenceNumber : BitVec 16) (deltaSinceBase : Option Int) :
    Option (Option PacketResult × TransportFeedbackAdapter) := do
  let (seqNum, seqNumUnwrapper) := a.seqNumUnwrapper.unwrap sequenceNumber
  let a ← { a with seqNumUnwrapper }.acknowledge seqNum
  match a.history.find? seqNum with
  | none => return (none, a)
  | some packet =>
    if packet.sent.sendTime.isNone then return (none, a)
    else
      let receiveTime := deltaSinceBase.map fun delta => a.currentOffset + roundDownToMillis delta
      let history := if deltaSinceBase.isSome then a.history.erase seqNum else a.history
      let result :=
        if packet.networkRoute = a.networkRoute then
          some (PacketResult.mk packet.sent (receiveTime.or packet.receiveTime) packet.ordinal)
        else none
      return (result, { a with history })

def handlePackets : List (BitVec 16 × Option Int) → TransportFeedbackAdapter →
    Option (List PacketResult × TransportFeedbackAdapter)
  | [], a => some ([], a)
  | (sequenceNumber, delta) :: rest, a => do
    let (result, a) ← a.handlePacket sequenceNumber delta
    let (results, a) ← handlePackets rest a
    return (result.toList ++ results, a)

def updateOffset (feedback : TransportFeedback) (feedbackReceiveTime : Int) :
    TransportFeedbackAdapter :=
  let currentOffset :=
    match a.lastTimestamp with
    | none => feedbackReceiveTime
    | some lastTimestamp =>
      let delta := roundDownToMillis (feedback.getBaseDelta lastTimestamp)
      if delta < 0 - a.currentOffset then feedbackReceiveTime else a.currentOffset + delta
  { a with currentOffset, lastTimestamp := some feedback.baseTime }

def processTransportFeedback (feedback : TransportFeedback) (feedbackReceiveTime : Int) :
    Option (List PacketResult × TransportFeedbackAdapter) :=
  if feedback.numSeqNo = 0 then some ([], a)
  else handlePackets feedback.packets (a.updateOffset feedback feedbackReceiveTime)

def setNetworkRoute (networkRoute : NetworkRoute) : TransportFeedbackAdapter :=
  { a with networkRoute }

end TransportFeedbackAdapter

/-! The bytes in flight are those of the packets that were sent and not acknowledged. -/

variable {l : List (Int × PacketFeedback)}

section Tracker

variable {t : InFlightBytesTracker} {packet : PacketFeedback}

def PacketFeedback.weight (packet : PacketFeedback) (route : NetworkRoute) : Nat :=
  if packet.networkRoute.key = route.key ∧ packet.sent.sendTime.isSome then packet.sent.size else 0

theorem ensures_add (h : packet.sent.sendTime.isSome) :
    Ensures (t.addInFlightPacketBytes packet) fun t' => ∀ route,
      t'.getOutstandingData route = t.getOutstandingData route + packet.weight route := by
  refine Ensures.guard_bind h (Ensures.some fun route => ?_)
  rw [getOutstandingData, OrdMap.find?_upsert]
  by_cases hkey : route.key = packet.networkRoute.key
  · rw [if_pos hkey, PacketFeedback.weight, if_pos ⟨hkey.symm, h⟩, getD_some,
      getOutstandingData, hkey]
  · rw [if_neg hkey, PacketFeedback.weight, if_neg fun hand => hkey hand.1.symm]
    rfl

variable {extra : NetworkRoute → Nat}

theorem ensures_remove
    (h : ∀ route, t.getOutstandingData route = packet.weight route + extra route) :
    Ensures (t.removeInFlightPacketBytes packet) fun t' =>
      ∀ route, t'.getOutstandingData route = extra route := by
  unfold removeInFlightPacketBytes
  by_cases hsent : packet.sent.sendTime.isNone = true
  · rw [if_pos hsent]
    refine Ensures.some fun route => ?_
    rw [h, PacketFeedback.weight, if_neg fun hand => by simp_all, Nat.zero_add]
  · rw [if_neg hsent]
    replace hsent : packet.sent.sendTime.isSome := by
      rw [isSome_iff_ne_none]
      simpa using hsent
    have hother (route : NetworkRoute) (hkey : route.key ≠ packet.networkRoute.key) :
        t.getOutstandingData route = extra route := by
      rw [h, PacketFeedback.weight, if_neg fun hand => hkey hand.1.symm, Nat.zero_add]
    have hsame (route : NetworkRoute) (hkey : route.key = packet.networkRoute.key) :
        (t.inFlightData.find? packet.networkRoute.key).getD 0 =
          packet.sent.size + extra route := by
      have := h route
      rwa [PacketFeedback.weight, if_pos ⟨hkey.symm, hsent⟩, getOutstandingData, hkey] at this
    cases hfind : t.inFlightData.find? packet.networkRoute.key with
    | none =>
      refine Ensures.some fun route => ?_
      by_cases hkey : route.key = packet.networkRoute.key
      · have := hsame route hkey
        rw [hfind, getD_none] at this
        rw [getOutstandingData, hkey, hfind, getD_none]
        omega
      · exact hother route hkey
    | some data =>
      have hle := hsame packet.networkRoute rfl
      rw [hfind, getD_some] at hle
      refine (ensures_checkedSub (show packet.sent.size ≤ data by omega)).bind fun rest hrest => ?_
      have hextra (route : NetworkRoute) (hkey : route.key = packet.networkRoute.key) :
          extra route = rest := by
        have := hsame route hkey
        rw [hfind, getD_some] at this
        omega
      split_ifs with hzero
      all_goals
        refine Ensures.some fun route => ?_
        by_cases hkey : route.key = packet.networkRoute.key
        · simp [getOutstandingData, hkey, hextra route hkey, hzero]
        · rw [← hother route hkey]
          simp [getOutstandingData, OrdMap.find?_upsert, hkey]

theorem ensures_removeAll {p : Int × PacketFeedback → Bool}
    (h : ∀ route, t.getOutstandingData route =
      ((l.map fun entry => if p entry then entry.2.weight route else 0)).sum + extra route) :
    Ensures (l.foldlM (fun t entry =>
        if p entry then t.removeInFlightPacketBytes entry.2 else some t) t) fun t' =>
      ∀ route, t'.getOutstandingData route = extra route := by
  induction l generalizing t with
  | nil => exact Ensures.some fun route => by simpa using h route
  | cons entry l ih =>
    rw [foldlM_cons]
    have hrest : Ensures (if p entry then t.removeInFlightPacketBytes entry.2 else some t)
        fun t' => ∀ route, t'.getOutstandingData route =
          (l.map fun entry => if p entry then entry.2.weight route else 0).sum + extra route := by
      by_cases hp : p entry = true
      · rw [if_pos hp]
        refine ensures_remove fun route => ?_
        rw [h, map_cons, sum_cons, if_pos hp, Nat.add_assoc]
      · rw [if_neg hp]
        refine Ensures.some fun route => ?_
        rw [h, map_cons, sum_cons, if_neg hp, Nat.zero_add]
    exact hrest.bind fun t' ht' => ih ht'

end Tracker

/-! Runs of the adapter. -/

namespace TransportFeedbackAdapter

def contribution (lastAckSeqNum : Int) (route : NetworkRoute) (packet : PacketFeedback) : Nat :=
  if lastAckSeqNum < packet.sent.sequenceNumber then packet.weight route else 0

def bytesInFlight (a : TransportFeedbackAdapter) (route : NetworkRoute) : Nat :=
  a.history.sumBy (contribution a.lastAckSeqNum route)

structure Accounted (a : TransportFeedbackAdapter) (received : List Nat) : Prop where
  key : ∀ k packet, a.history.find? k = some packet → packet.sent.sequenceNumber = k
  unreceived : ∀ k packet, a.history.find? k = some packet → packet.receiveTime = none
  inFlight : ∀ route, a.inFlight.getOutstandingData route = a.bytesInFlight route
  fresh : ∀ k packet, a.history.find? k = some packet →
    packet.ordinal < a.added ∧ packet.ordinal ∉ received
  distinct : ∀ k k' packet packet', a.history.find? k = some packet →
    a.history.find? k' = some packet' → packet.ordinal = packet'.ordinal → k = k'
  received_lt : ∀ n ∈ received, n < a.added
  received_nodup : received.Nodup

variable {a : TransportFeedbackAdapter} {received : List Nat}

theorem sum_filter_acknowledged {last seqNum : Int}
    (hlt : last < seqNum) (hkey : ∀ entry ∈ l, entry.2.sent.sequenceNumber = entry.1)
    (route : NetworkRoute) : (l.map fun entry => contribution last route entry.2).sum =
      ((l.filter fun entry => last < entry.1 ∧ entry.1 ≤ seqNum).map fun entry =>
          if (fun _ => true) entry then entry.2.weight route else 0).sum +
        (l.map fun entry => contribution seqNum route entry.2).sum := by
  induction l with
  | nil => rfl
  | cons entry l ih =>
    have hrest := ih fun e he => hkey e (mem_cons_of_mem _ he)
    have hhead (n : Int) : contribution n route entry.2 =
        if n < entry.1 then entry.2.weight route else 0 := by
      rw [contribution, hkey entry mem_cons_self]
    rw [map_cons, sum_cons, map_cons, sum_cons, hrest, hhead, hhead, filter_cons]
    by_cases h₁ : last < entry.1
    · by_cases h₂ : entry.1 ≤ seqNum
      · rw [if_pos h₁, if_neg (not_lt.mpr h₂), if_pos (by simp [h₁, h₂]), map_cons,
          sum_cons, if_pos rfl]
        omega
      · rw [if_pos h₁, if_pos (not_le.mp h₂), if_neg (by simp [h₂])]
        omega
    · rw [if_neg h₁, if_neg (show ¬ seqNum < entry.1 by omega), if_neg (by simp [h₁])]
      omega

theorem Accounted.acknowledge (h : a.Accounted received) (seqNum : Int) :
    Ensures (a.acknowledge seqNum) fun a' => a'.Accounted received ∧ seqNum ≤ a'.lastAckSeqNum ∧
      a'.history = a.history ∧ a'.added = a.added := by
  unfold TransportFeedbackAdapter.acknowledge
  by_cases hlt : seqNum > a.lastAckSeqNum
  · rw [if_pos hlt]
    have hkeys : ∀ entry ∈ a.history.entries, entry.2.sent.sequenceNumber = entry.1 :=
      fun entry hentry => h.key _ _ (a.history.mem_entries_iff.mp hentry)
    have hsplit (route : NetworkRoute) : a.inFlight.getOutstandingData route = _ :=
      (h.inFlight route).trans (sum_filter_acknowledged hlt hkeys route)
    refine (ensures_removeAll hsplit).bind fun inFlight hinFlight => Ensures.some ?_
    exact ⟨{ h with inFlight := hinFlight }, le_rfl, rfl, rfl⟩
  · rw [if_neg hlt]
    exact Ensures.some ⟨h, not_lt.mp hlt, rfl, rfl⟩

theorem Accounted.erase (h : a.Accounted received) {seqNum : Int} {packet : PacketFeedback}
    (hfind : a.history.find? seqNum = some packet) (hack : seqNum ≤ a.lastAckSeqNum) :
    Accounted { a with history := a.history.erase seqNum } received ∧
      Accounted { a with history := a.history.erase seqNum } (received ++ [packet.ordinal]) := by
  have hfind' {k : Int} {q : PacketFeedback} (hq : (a.history.erase seqNum).find? k = some q) :
      k ≠ seqNum ∧ a.history.find? k = some q := by
    rw [OrdMap.find?_erase] at hq
    split_ifs at hq with hk
    exact ⟨hk, hq⟩
  have hzero (route : NetworkRoute) : contribution a.lastAckSeqNum route packet = 0 := by
    rw [contribution, if_neg]
    rw [h.key _ _ hfind]
    omega
  have hinFlight (route : NetworkRoute) : a.inFlight.getOutstandingData route =
      (a.history.erase seqNum).sumBy (contribution a.lastAckSeqNum route) := by
    have hsum := a.history.sumBy_erase seqNum (contribution a.lastAckSeqNum route)
    rw [hfind, elim_some, hzero] at hsum
    rw [h.inFlight]
    exact hsum.symm
  have hbase : Accounted { a with history := a.history.erase seqNum } received :=
    ⟨fun k q hq => h.key k q (hfind' hq).2, fun k q hq => h.unreceived k q (hfind' hq).2, hinFlight, fun k q hq => h.fresh k q (hfind' hq).2,
      fun k k' q q' hq hq' => h.distinct k k' q q' (hfind' hq).2 (hfind' hq').2, h.received_lt,
      h.received_nodup⟩
  refine ⟨hbase, { hbase with
    fresh := fun k q hq => ⟨(hbase.fresh k q hq).1, fun hmem => ?_⟩
    received_lt := fun n hn => ?_
    received_nodup := ?_ }⟩
  · rcases mem_append.mp hmem with hmem | hmem
    · exact (hbase.fresh k q hq).2 hmem
    · obtain ⟨hk, hq⟩ := hfind' hq
      exact hk (h.distinct _ _ _ _ hq hfind (mem_singleton.mp hmem))
  · rcases mem_append.mp hn with hn | hn
    · exact h.received_lt n hn
    · rw [mem_singleton.mp hn]
      exact (h.fresh _ _ hfind).1
  · rw [nodup_append]
    refine ⟨h.received_nodup, nodup_singleton _, fun n hn m hm heq => ?_⟩
    rw [mem_singleton.mp hm] at heq
    exact (h.fresh _ _ hfind).2 (heq ▸ hn)

def receivedOf (results : List PacketResult) : List Nat :=
  (results.filter fun result => result.receiveTime.isSome).map PacketResult.ordinal

theorem Accounted.unwrapper (h : a.Accounted received) (seqNumUnwrapper : SeqNumUnwrapper 16) :
    Accounted { a with seqNumUnwrapper } received :=
  ⟨h.key, h.unreceived, h.inFlight, h.fresh, h.distinct, h.received_lt, h.received_nodup⟩

theorem Accounted.handlePacket (h : a.Accounted received) (sequenceNumber : BitVec 16)
    (delta : Option Int) : Ensures (a.handlePacket sequenceNumber delta) fun r =>
      r.2.Accounted (received ++ receivedOf r.1.toList) := by
  obtain ⟨seqNum, hseqNum⟩ : ∃ n, a.seqNumUnwrapper.peekUnwrap sequenceNumber = n := ⟨_, rfl⟩
  refine ((h.unwrapper (a.seqNumUnwrapper.unwrap sequenceNumber).2).acknowledge _).bind ?_
  rintro a' ⟨h', hack, -, -⟩
  rw [hseqNum] at hack ⊢
  have hnone : a'.Accounted (received ++ receivedOf (none : Option PacketResult).toList) := by
    rw [toList_none, receivedOf, filter_nil, map_nil, append_nil]
    exact h'
  cases hfind : a'.history.find? seqNum with
  | none => exact Ensures.some hnone
  | some packet =>
    obtain ⟨herase, hreport⟩ := h'.erase hfind hack
    by_cases hsent : packet.sent.sendTime.isNone = true
    · simp only [hsent, if_true]
      exact Ensures.some hnone
    · simp only [hsent, Bool.false_eq_true, if_false, h'.unreceived _ _ hfind, or_none]
      refine Ensures.some ?_
      cases delta with
      | none =>
        by_cases hroute : packet.networkRoute = a'.networkRoute
        · simpa [hroute, receivedOf] using h'
        · simpa [hroute, receivedOf] using h'
      | some delta =>
        by_cases hroute : packet.networkRoute = a'.networkRoute
        · simpa [hroute, receivedOf] using hreport
        · simpa [hroute, receivedOf] using herase

theorem receivedOf_append (l l' : List PacketResult) :
    receivedOf (l ++ l') = receivedOf l ++ receivedOf l' := by
  rw [receivedOf, filter_append, map_append]
  rfl

theorem Accounted.handlePackets {packets : List (BitVec 16 × Option Int)}
    (h : a.Accounted received) : Ensures (TransportFeedbackAdapter.handlePackets packets a) fun r =>
      r.2.Accounted (received ++ receivedOf r.1) := by
  induction packets generalizing a received with
  | nil =>
    refine Ensures.some ?_
    rw [receivedOf, filter_nil, map_nil, append_nil]
    exact h
  | cons packet packets ih =>
    refine (h.handlePacket packet.1 packet.2).bind fun r hr => ?_
    refine (ih hr).bind fun r' hr' => Ensures.some ?_
    rw [receivedOf_append, ← append_assoc]
    exact hr'

theorem Accounted.processTransportFeedback (h : a.Accounted received)
    (feedback : TransportFeedback) (feedbackReceiveTime : Int) :
    Ensures (a.processTransportFeedback feedback feedbackReceiveTime) fun r =>
      r.2.Accounted (received ++ receivedOf r.1) := by
  refine Ensures.ite (fun _ => Ensures.some ?_) fun _ => ?_
  · rw [receivedOf, filter_nil, map_nil, append_nil]
    exact h
  · exact Accounted.handlePackets
      ⟨h.key, h.unreceived, h.inFlight, h.fresh, h.distinct, h.received_lt, h.received_nodup⟩

theorem find?_dropExpired {creationTime k : Int} {packet : PacketFeedback}
    (h : (a.dropExpired creationTime).find? k = some packet) : a.history.find? k = some packet := by
  rw [← OrdMap.mem_entries_iff] at h ⊢
  exact (dropWhile_sublist _).subset h

section

variable (h : a.Accounted received)
include h

theorem Accounted.addPacket (transportSequenceNumber : BitVec 16)
    (length overheadBytes : Nat) (audio : Bool) (creationTime : Int) :
    Ensures (a.addPacket transportSequenceNumber length overheadBytes audio creationTime) fun a' =>
      a'.Accounted received := by
  have hsplit (route : NetworkRoute) : a.inFlight.getOutstandingData route =
      ((a.history.entries.takeWhile (expired creationTime)).map fun entry =>
        if decide (entry.2.sent.sequenceNumber > a.lastAckSeqNum) then
          entry.2.weight route else 0).sum +
      (a.dropExpired creationTime).sumBy (contribution a.lastAckSeqNum route) := by
    rw [h.inFlight, bytesInFlight, OrdMap.sumBy, OrdMap.sumBy, dropExpired]
    nth_rw 1 [← takeWhile_append_dropWhile (p := expired creationTime) (l := a.history.entries)]
    rw [map_append, sum_append]
    simp only [contribution, decide_eq_true_eq, gt_iff_lt]
  have hloop := ensures_removeAll hsplit
  simp only [decide_eq_true_eq] at hloop
  refine hloop.bind fun inFlight hinFlight => Ensures.some ?_
  have hcases {history : OrdMap Int PacketFeedback} {k j : Int} {packet q : PacketFeedback}
      (hq : (history.upsert k fun old => old.getD packet).find? j = some q) :
      history.find? j = some q ∨ j = k ∧ q = packet := by
    rw [OrdMap.find?_upsert] at hq
    split_ifs at hq with hj
    · cases hold : history.find? k with
      | none =>
        rw [hold] at hq
        exact .inr ⟨hj, (Option.some.inj hq).symm⟩
      | some old =>
        rw [hold] at hq
        exact .inl (by rw [hj, hold]; exact hq)
    · exact .inl hq
  have hweight {history : OrdMap Int PacketFeedback} {k : Int} {packet : PacketFeedback}
      (hpacket : packet.sent.sendTime = none) (route : NetworkRoute) :
      (history.upsert k fun old => old.getD packet).sumBy (contribution a.lastAckSeqNum route) =
        history.sumBy (contribution a.lastAckSeqNum route) := by
    have hzero : contribution a.lastAckSeqNum route packet = 0 := by
      simp [contribution, PacketFeedback.weight, hpacket]
    have hsum := history.sumBy_upsert k (fun old => old.getD packet)
      (contribution a.lastAckSeqNum route)
    cases hold : history.find? k with
    | none =>
      rw [hold, elim_none, getD_none, hzero] at hsum
      exact hsum
    | some old =>
      rw [hold, elim_some, getD_some] at hsum
      omega
  constructor
  · intro k q hq
    rcases hcases hq with hq | ⟨rfl, rfl⟩
    · exact h.key k q (find?_dropExpired hq)
    · rfl
  · intro k q hq
    rcases hcases hq with hq | ⟨rfl, rfl⟩
    · exact h.unreceived k q (find?_dropExpired hq)
    · rfl
  · intro route
    exact (hinFlight route).trans (hweight rfl route).symm
  · intro k q hq
    rcases hcases hq with hq | ⟨rfl, rfl⟩
    · obtain ⟨hlt, hmem⟩ := h.fresh k q (find?_dropExpired hq)
      exact ⟨Nat.lt_succ_of_lt hlt, hmem⟩
    · exact ⟨Nat.lt_succ_self _, fun hmem => lt_irrefl _ (h.received_lt _ hmem)⟩
  · intro k k' q q' hq hq' hordinal
    rcases hcases hq with hq | ⟨rfl, rfl⟩ <;> rcases hcases hq' with hq' | ⟨rfl, rfl⟩
    · exact h.distinct k k' q q' (find?_dropExpired hq) (find?_dropExpired hq') hordinal
    · exact absurd hordinal (h.fresh k q (find?_dropExpired hq)).1.ne
    · exact absurd hordinal (h.fresh k' q' (find?_dropExpired hq')).1.ne'
    · rfl
  · exact fun n hn => Nat.lt_succ_of_lt (h.received_lt n hn)
  · exact h.received_nodup

theorem Accounted.update {seqNum : Int} {packet : PacketFeedback}
    (packet' : PacketFeedback) (inFlight : InFlightBytesTracker)
    (hfind : a.history.find? seqNum = some packet)
    (hseqNum : packet'.sent.sequenceNumber = packet.sent.sequenceNumber)
    (hreceive : packet'.receiveTime = packet.receiveTime)
    (hordinal : packet'.ordinal = packet.ordinal)
    (hinFlight : ∀ route, inFlight.getOutstandingData route +
        contribution a.lastAckSeqNum route packet =
      a.inFlight.getOutstandingData route + contribution a.lastAckSeqNum route packet') :
    Accounted { a with inFlight, history := a.history.upsert seqNum fun _ => packet' } received := by
  have hcases {j : Int} {q : PacketFeedback}
      (hq : (a.history.upsert seqNum fun _ => packet').find? j = some q) :
      a.history.find? j = some q ∨ j = seqNum ∧ q = packet' := by
    rw [OrdMap.find?_upsert] at hq
    split_ifs at hq with hj
    · exact .inr ⟨hj, (Option.some.inj hq).symm⟩
    · exact .inl hq
  have hold {j : Int} {q : PacketFeedback}
      (hq : (a.history.upsert seqNum fun _ => packet').find? j = some q) :
      ∃ q₀, a.history.find? j = some q₀ ∧ q.sent.sequenceNumber = q₀.sent.sequenceNumber ∧
        q.receiveTime = q₀.receiveTime ∧ q.ordinal = q₀.ordinal := by
    rcases hcases hq with hq | ⟨rfl, rfl⟩
    · exact ⟨q, hq, rfl, rfl, rfl⟩
    · exact ⟨packet, hfind, hseqNum, hreceive, hordinal⟩
  constructor
  · intro k q hq
    obtain ⟨q₀, hq₀, hs, -, -⟩ := hold hq
    exact hs.trans (h.key k q₀ hq₀)
  · intro k q hq
    obtain ⟨q₀, hq₀, -, hr, -⟩ := hold hq
    exact hr.trans (h.unreceived k q₀ hq₀)
  · intro route
    have hsum := a.history.sumBy_upsert seqNum (fun _ => packet')
      (contribution a.lastAckSeqNum route)
    rw [hfind, elim_some] at hsum
    have hroute := hinFlight route
    rw [h.inFlight, bytesInFlight] at hroute
    show inFlight.getOutstandingData route = (a.history.upsert seqNum fun _ => packet').sumBy
      (contribution a.lastAckSeqNum route)
    omega
  · intro k q hq
    obtain ⟨q₀, hq₀, -, -, ho⟩ := hold hq
    rw [ho]
    exact h.fresh k q₀ hq₀
  · intro k k' q q' hq hq' hsame
    obtain ⟨q₀, hq₀, -, -, ho⟩ := hold hq
    obtain ⟨q₀', hq₀', -, -, ho'⟩ := hold hq'
    exact h.distinct k k' q₀ q₀' hq₀ hq₀' (by rw [← ho, ← ho', hsame])
  · exact h.received_lt
  · exact h.received_nodup

theorem Accounted.of_eq {a' : TransportFeedbackAdapter}
    (hhistory : a'.history = a.history) (hinFlight : a'.inFlight = a.inFlight)
    (hack : a'.lastAckSeqNum = a.lastAckSeqNum) (hadded : a'.added = a.added) :
    a'.Accounted received := by
  obtain ⟨hkey, hunreceived, hbytes, hfresh, hdistinct, hlt, hnodup⟩ := h
  rw [← hhistory] at hkey hunreceived hfresh hdistinct
  rw [← hadded] at hfresh hlt
  refine ⟨hkey, hunreceived, fun route => ?_, hfresh, hdistinct, hlt, hnodup⟩
  rw [hinFlight, hbytes, bytesInFlight, bytesInFlight, hhistory, hack]

theorem Accounted.processSentPacket (sentPacket : SentPacketInfo) :
    Ensures (a.processSentPacket sentPacket) fun r => r.2.Accounted received := by
  unfold TransportFeedbackAdapter.processSentPacket
  refine Ensures.ite (fun _ => ?_) fun _ => Ensures.ite (fun _ => Ensures.some ?_)
    fun _ => Ensures.some h
  · obtain ⟨seqNum, hseqNum⟩ :
      ∃ n, a.seqNumUnwrapper.peekUnwrap (wrap 16 sentPacket.packetId) = n := ⟨_, rfl⟩
    simp only [SeqNumUnwrapper.unwrap_fst, hseqNum]
    cases hfind : a.history.find? seqNum with
    | none => exact Ensures.some (h.unwrapper _)
    | some packet =>
      dsimp only
      cases hsent : packet.sent.sendTime with
      | some time =>
        -- a packet that is sent again counts as before
        rw [if_pos (by rfl)]
        refine Ensures.some (Accounted.of_eq (h.update
          (packet.markSent (sentPacket.sendTimeMs * 1000) a.pendingUntrackedSize) a.inFlight hfind
          rfl rfl rfl fun route => ?_) rfl rfl rfl rfl)
        simp only [contribution, PacketFeedback.weight, PacketFeedback.markSent, hsent, isSome_some]
      | none =>
        have hzero (route : NetworkRoute) : contribution a.lastAckSeqNum route packet = 0 := by
          simp [contribution, PacketFeedback.weight, hsent]
        rw [if_neg (by simp)]
        split_ifs with hack
        · refine (ensures_add rfl).bind fun inFlight hinFlight => Ensures.some ?_
          refine Accounted.of_eq (h.update
            ((packet.markSent (sentPacket.sendTimeMs * 1000) a.pendingUntrackedSize).withDataInFlight
              (inFlight.getOutstandingData a.networkRoute)) inFlight hfind
            rfl rfl rfl fun route => ?_) rfl rfl rfl rfl
          rw [hzero, hinFlight, contribution, if_pos (by exact hack)]
          rfl
        · refine Ensures.some ?_
          refine Accounted.of_eq (h.update
            ((packet.markSent (sentPacket.sendTimeMs * 1000) a.pendingUntrackedSize).withDataInFlight
              (a.inFlight.getOutstandingData a.networkRoute)) a.inFlight hfind
            rfl rfl rfl fun route => ?_) rfl rfl rfl rfl
          rw [hzero, contribution, if_neg (by exact hack)]
  · exact h.of_eq rfl rfl rfl rfl

end

end TransportFeedbackAdapter

structure Run where
  adapter : TransportFeedbackAdapter
  received : List Nat

inductive Op
  | addPacket (transportSequenceNumber : BitVec 16) (length overheadBytes : Nat) (audio : Bool)
      (creationTime : Int)
  | processSentPacket (sentPacket : SentPacketInfo)
  | processTransportFeedback (feedback : TransportFeedback) (feedbackReceiveTime : Int)
  | setNetworkRoute (networkRoute : NetworkRoute)

def Run.step (r : Run) : Op → Option Run
  | .addPacket transportSequenceNumber length overheadBytes audio creationTime => do
    let adapter ←
      r.adapter.addPacket transportSequenceNumber length overheadBytes audio creationTime
    return { r with adapter }
  | .processSentPacket sentPacket => do
    let (_, adapter) ← r.adapter.processSentPacket sentPacket
    return { r with adapter }
  | .processTransportFeedback feedback feedbackReceiveTime => do
    let (results, adapter) ← r.adapter.processTransportFeedback feedback feedbackReceiveTime
    return ⟨adapter, r.received ++ TransportFeedbackAdapter.receivedOf results⟩
  | .setNetworkRoute networkRoute => some { r with adapter := r.adapter.setNetworkRoute networkRoute }

def TransportFeedbackAdapter.create : TransportFeedbackAdapter where
  pendingUntrackedSize := 0
  lastSendTime := none
  lastUntrackedSendTime := none
  seqNumUnwrapper := .pristine
  history := ∅
  lastAckSeqNum := -1
  inFlight := ⟨∅⟩
  currentOffset := 0
  lastTimestamp := none
  networkRoute := ⟨false, ⟨0, 0, 0, false⟩, ⟨0, 0, 0, false⟩, -1, 0⟩
  added := 0

def adapterMachine : Machine Run Op where
  initial r := r = ⟨.create, []⟩
  enabled _ _ := True
  step := Run.step

theorem accounted_create : TransportFeedbackAdapter.create.Accounted [] := by
  refine ⟨fun k packet h => ?_, fun k packet h => ?_, fun route => rfl, fun k packet h => ?_,
    fun k k' packet packet' h => ?_, by simp, nodup_nil⟩ <;> cases h

theorem Run.ensures_step {r : Run} (h : r.adapter.Accounted r.received) (op : Op) :
    Ensures (r.step op) fun r' => r'.adapter.Accounted r'.received := by
  cases op with
  | addPacket transportSequenceNumber length overheadBytes audio creationTime =>
    exact (h.addPacket _ _ _ _ _).bind fun adapter h' => Ensures.some h'
  | processSentPacket sentPacket =>
    exact (h.processSentPacket sentPacket).bind fun result h' => Ensures.some h'
  | processTransportFeedback feedback feedbackReceiveTime =>
    exact (h.processTransportFeedback feedback feedbackReceiveTime).bind fun result h' =>
      Ensures.some h'
  | setNetworkRoute networkRoute => exact Ensures.some (h.of_eq rfl rfl rfl rfl)

/-- In every run the bytes in flight on each route are those of the packets of the history that
were sent and not acknowledged, no check fails, and no packet is reported as received twice. -/
theorem adapter_accounted {r : Run} (h : adapterMachine.Reachable r) :
    (∀ route, r.adapter.inFlight.getOutstandingData route = r.adapter.bytesInFlight route) ∧
      r.received.Nodup ∧ ∀ op, (adapterMachine.step r op).isSome := by
  have hinv := h.invariant (I := fun r => r.adapter.Accounted r.received)
    (fun r hr => by rw [hr]; exact accounted_create) fun r op hr _ => Run.ensures_step hr op
  refine ⟨hinv.1.inFlight, hinv.1.received_nodup, fun op => ?_⟩
  obtain ⟨r', hr', -⟩ := hinv.2 op trivial
  rw [hr']
  rfl

theorem adapter_accounted_sent : ∃ r, adapterMachine.Reachable r ∧
      r.adapter.inFlight.getOutstandingData r.adapter.networkRoute = 100 ∧
      (∀ route, r.adapter.inFlight.getOutstandingData route = r.adapter.bytesInFlight route) ∧
      r.received.Nodup ∧ ∀ op, (adapterMachine.step r op).isSome := by
  have hadd := Machine.Reachable.step (Machine.Reachable.initial rfl) trivial
    (show adapterMachine.step ⟨.create, []⟩ (.addPacket 7 80 20 false 0) = some _ from rfl)
  have hsent := hadd.step trivial
    (show adapterMachine.step _ (.processSentPacket ⟨7, 5, true, true, 100⟩) = some _ from rfl)
  exact ⟨_, hsent, by decide, adapter_accounted hsent⟩

end WebRtc.CongestionControl
