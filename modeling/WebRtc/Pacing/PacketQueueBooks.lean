import WebRtc.Pacing.PrioritizedPacketQueue

/-! The books of the pacer's queue: the counters, the list of enqueue times and the queue times are
those of the packets that are stored. -/

namespace WebRtc.Pacing

open Multiset

open Option Function

variable {l : List QueuedPacket}

namespace StreamQueue

variable {s s' : StreamQueue} {i : Fin 5} {p : QueuedPacket}

def all (s : StreamQueue) : Multiset QueuedPacket := ∑ i, (s.packets i : Multiset QueuedPacket)

theorem mem_all : p ∈ s.all ↔ ∃ i, p ∈ s.packets i := by
  simp [all, mem_sum]

structure Ok (prio : RtpPacketToSend → Fin 5) (ssrc : Nat) (s : StreamQueue) : Prop where
  owner : ∀ i, ∀ p ∈ s.packets i, p.packet.ssrc = ssrc ∧ prio p.packet = i
  fifo : ∀ i, (s.packets i).Pairwise fun a b => a.enqueueTimeIterator < b.enqueueTimeIterator
  keyframes : s.numKeyframePackets = s.all.countP fun p => p.packet.isKeyFrame

theorem Ok.create (prio : RtpPacketToSend → Fin 5) (ssrc : Nat) (time : Int) :
    Ok prio ssrc (.create time) :=
  ⟨fun _ _ hp => absurd hp List.not_mem_nil, fun _ => List.Pairwise.nil, rfl⟩

theorem all_update_cons (n : Int) (h : s.packets i = p :: l) :
    s.all = p ::ₘ all { s with packets := Function.update s.packets i l, numKeyframePackets := n } := by
  have hsum := sum_update_add (fun l : List QueuedPacket => (l : Multiset QueuedPacket)) s.packets i l
  rw [h, ← cons_coe, add_cons] at hsum
  exact add_right_cancel (hsum.symm.trans (by rw [cons_add]; rfl))

theorem all_update_append (n : Int) :
    all { s with
      packets := Function.update s.packets i (s.packets i ++ [p])
      numKeyframePackets := n } = p ::ₘ s.all := by
  have hsum := sum_update_add (fun l : List QueuedPacket => (l : Multiset QueuedPacket)) s.packets i
    (s.packets i ++ [p])
  rw [← coe_add, ← add_assoc, add_right_comm] at hsum
  have := add_right_cancel hsum
  rw [coe_singleton, add_comm, singleton_add] at this
  exact this

variable {prio : RtpPacketToSend → Fin 5}

variable {ssrc : Nat}

theorem Ok.update (h : Ok prio ssrc s) (hs' : s'.packets = Function.update s.packets i l)
    (howner : ∀ p ∈ l, p.packet.ssrc = ssrc ∧ prio p.packet = i)
    (hfifo : l.Pairwise fun a b => a.enqueueTimeIterator < b.enqueueTimeIterator)
    (hkey : s'.numKeyframePackets = s'.all.countP fun p => p.packet.isKeyFrame) :
    Ok prio ssrc s' := by
  refine ⟨?_, ?_, hkey⟩
  · intro j x hx
    rw [hs'] at hx
    by_cases hj : j = i
    · subst hj
      rw [update_self] at hx
      exact howner x hx
    · rw [update_of_ne hj] at hx
      exact h.owner j x hx
  · intro j
    rw [hs']
    by_cases hj : j = i
    · subst hj
      rw [update_self]
      exact hfifo
    · rw [update_of_ne hj]
      exact h.fifo j

theorem Ok.ensures_dequeuePacket (h : Ok prio ssrc s) (hl : s.packets i = p :: l) :
    Ensures (s.dequeuePacket i) fun r => r.1 = p ∧ r.2.packets = Function.update s.packets i l ∧
      Ok prio ssrc r.2 ∧ s.all = p ::ₘ r.2.all := by
  have hkey : (p.packet.isKeyFrame = true → s.numKeyframePackets > 0) := by
    intro hkey
    have hmem : p ∈ s.all := mem_all.mpr ⟨i, hl ▸ List.mem_cons_self⟩
    have hpos : 0 < s.all.countP fun p => p.packet.isKeyFrame :=
      countP_pos.mpr ⟨p, hmem, hkey⟩
    rw [h.keyframes]
    exact_mod_cast hpos
  unfold dequeuePacket
  rw [hl]
  have hall := all_update_cons (s.numKeyframePackets - if p.packet.isKeyFrame then 1 else 0) hl
  refine .guard_bind hkey (.some ⟨rfl, rfl, h.update rfl ?_ ?_ ?_, hall⟩)
  · intro x hx
    exact h.owner i x (hl ▸ List.mem_cons_of_mem p hx)
  · exact (List.pairwise_cons.mp (hl ▸ h.fifo i)).2
  · have hcount := h.keyframes
    rw [hall, countP_cons] at hcount
    show s.numKeyframePackets - _ = _
    push_cast at hcount
    exact sub_eq_of_eq_add hcount

theorem Ok.enqueuePacket (h : Ok prio ssrc s)
    (hssrc : p.packet.ssrc = ssrc) (hprio : prio p.packet = i)
    (hlast : ∀ x ∈ s.packets i, x.enqueueTimeIterator < p.enqueueTimeIterator) :
    Ok prio ssrc (s.enqueuePacket p i).2 ∧ (s.enqueuePacket p i).2.all = p ::ₘ s.all := by
  have hall : (s.enqueuePacket p i).2.all = p ::ₘ s.all := all_update_append _
  refine ⟨h.update rfl ?_ ?_ ?_, hall⟩
  · intro x hx
    rcases List.mem_append.mp hx with hx | hx
    · exact h.owner i x hx
    · rw [List.mem_singleton.mp hx]
      exact ⟨hssrc, hprio⟩
  · refine List.pairwise_append.mpr ⟨h.fifo i, List.pairwise_singleton .., ?_⟩
    intro x hx y hy
    rw [List.mem_singleton.mp hy]
    exact hlast x hx
  · rw [hall, countP_cons]
    push_cast
    rw [← h.keyframes]
    rfl

end StreamQueue

structure PushRecord where
  packet : RtpPacketToSend
  time : Int
  active : Int

namespace PrioritizedPacketQueue

variable {q q' : PrioritizedPacketQueue} {held : Multiset QueuedPacket} {extra : Multiset Nat}
  {log : List PushRecord} {active origin : Int} {i : Fin 5} {ssrc : Nat} {p : QueuedPacket}

def stored (q : PrioritizedPacketQueue) : Multiset QueuedPacket := q.streams.total StreamQueue.all

def packetsAt (q : PrioritizedPacketQueue) (ssrc : Nat) (i : Fin 5) : List QueuedPacket :=
  match q.streams.find? ssrc with
  | none => []
  | some stream => stream.packets i

theorem mem_stored : p ∈ q.stored ↔ ∃ ssrc i, p ∈ q.packetsAt ssrc i := by
  rw [stored, OrdMap.mem_total]
  constructor
  · rintro ⟨ssrc, stream, hfind, hp⟩
    obtain ⟨i, hi⟩ := StreamQueue.mem_all.mp hp
    exact ⟨ssrc, i, by rw [packetsAt, hfind]; exact hi⟩
  · rintro ⟨ssrc, i, hp⟩
    rw [packetsAt] at hp
    split at hp
    · exact absurd hp List.not_mem_nil
    · rename_i stream hfind
      exact ⟨ssrc, stream, hfind, StreamQueue.mem_all.mpr ⟨i, hp⟩⟩

structure Books (q : PrioritizedPacketQueue) (all : Multiset QueuedPacket) (extra : Multiset Nat) :
    Prop where
  size : q.sizePackets = all.card
  types : ∀ t, q.sizePacketsPerMediaType t = all.countP fun p => p.packet.packetType = t
  payload : q.sizePayload = (all.map QueuedPacket.packetSize).sum
  times : q.queueTimeSum =
    (all.map fun p => q.lastUpdateTime - p.enqueueTime - q.pauseTimeSum).sum
  nodes : (q.enqueueTimes.map Prod.fst : Multiset Nat) =
    all.map QueuedPacket.enqueueTimeIterator + extra
  sorted : (q.enqueueTimes.map Prod.fst).Pairwise (· < ·)
  fresh : ∀ e ∈ q.enqueueTimes, e.1 < q.nextNode

structure Logged (log : List PushRecord) (active origin : Int) (q : PrioritizedPacketQueue)
    (all : Multiset QueuedPacket) : Prop where
  length : log.length = q.nextNode
  clock : q.lastUpdateTime - q.pauseTimeSum = active + origin
  packets : ∀ p ∈ all, ∃ record, log[p.enqueueTimeIterator]? = some record ∧
    record.packet = p.packet ∧ p.enqueueTime = record.active + origin
  times : ∀ e ∈ q.enqueueTimes, ∃ record, log[e.1]? = some record ∧ record.time = e.2

structure Kept (log : List PushRecord) (active origin : Int) (q : PrioritizedPacketQueue)
    (held : Multiset QueuedPacket) (extra : Multiset Nat) : Prop where
  books : q.Books (q.stored + held) extra
  logged : q.Logged log active origin (q.stored + held)
  streams : ∀ ssrc stream, q.streams.find? ssrc = some stream → stream.Ok q.prioLevel ssrc

structure Frame (q q' : PrioritizedPacketQueue) : Prop where
  prioritize : q'.prioritizeAudioRetransmission = q.prioritizeAudioRetransmission
  ttl : q'.timeToLivePerPrio = q.timeToLivePerPrio
  pause : q'.pauseTimeSum = q.pauseTimeSum
  update : q'.lastUpdateTime = q.lastUpdateTime
  paused : q'.paused = q.paused
  node : q'.nextNode = q.nextNode
  present : ∀ ssrc, (q.streams.find? ssrc).isSome → (q'.streams.find? ssrc).isSome
  fewer : q'.stored ≤ q.stored

theorem Frame.refl (q : PrioritizedPacketQueue) : Frame q q :=
  ⟨rfl, rfl, rfl, rfl, rfl, rfl, fun _ h => h, le_rfl⟩

theorem Frame.trans {q'' : PrioritizedPacketQueue} (h : Frame q q') (h' : Frame q' q'') :
    Frame q q'' :=
  ⟨h'.prioritize.trans h.prioritize, h'.ttl.trans h.ttl, h'.pause.trans h.pause,
    h'.update.trans h.update, h'.paused.trans h.paused, h'.node.trans h.node,
    fun ssrc hs => h'.present ssrc (h.present ssrc hs), h'.fewer.trans h.fewer⟩

structure Unmoved (q q' : PrioritizedPacketQueue) : Prop extends Frame q q' where
  streams : q'.streams = q.streams
  byPrio : q'.streamsByPrio = q.streamsByPrio
  top : q'.topActivePrioLevel = q.topActivePrioLevel

theorem filter_nodes {l : List (Nat × Int)} {n : Nat} {rest : Multiset Nat}
    (hs : (l.map Prod.fst).Pairwise (· < ·)) (hn : (l.map Prod.fst : Multiset Nat) = n ::ₘ rest) :
    ((l.filter fun e => e.1 ≠ n).map Prod.fst : Multiset Nat) = rest := by
  have hnodup : (l.map Prod.fst).Nodup := hs.imp ne_of_lt
  have hfilter : (l.filter fun e => e.1 ≠ n).map Prod.fst = (l.map Prod.fst).erase n := by
    rw [hnodup.erase_eq_filter, List.filter_map]
    congr 1
    apply List.filter_congr
    intro e _
    simp [bne, beq_eq_decide]
  rw [hfilter, ← coe_erase, hn, erase_cons_head]

theorem Kept.ensures_dequeuePacketInternal (h : Kept log active origin q (p ::ₘ held) extra) :
    Ensures (q.dequeuePacketInternal p) fun q' =>
      Kept log active origin q' held extra ∧ Unmoved q q' := by
  have hall : q.stored + p ::ₘ held = p ::ₘ (q.stored + held) := add_cons ..
  obtain ⟨hbooks, hlogged, hstreams⟩ := h
  rw [hall] at hbooks hlogged
  generalize hrest : q.stored + held = rest at *
  have hcard := hbooks.size
  have htype := hbooks.types p.packet.packetType
  have htime := hbooks.times
  have hpayload := hbooks.payload
  have hnodes := hbooks.nodes
  rw [card_cons] at hcard
  rw [countP_cons_of_pos rest (show p.packet.packetType = _ from rfl)] at htype
  rw [map_cons, sum_cons] at htime hpayload
  rw [map_cons, cons_add] at hnodes
  push_cast at hcard htype
  have hmem : p.enqueueTimeIterator ∈ q.enqueueTimes.map Prod.fst := by
    have : p.enqueueTimeIterator ∈ (q.enqueueTimes.map Prod.fst : Multiset Nat) :=
      hnodes ▸ mem_cons_self ..
    exact this
  have hzero : q.sizePackets - 1 > 0 ∨
      q.queueTimeSum - (q.lastUpdateTime - p.enqueueTime - q.pauseTimeSum) = 0 := by
    by_cases hempty : rest = 0
    · right
      rw [htime, hempty]
      simp
    · left
      have := card_pos.mpr hempty
      omega
  unfold dequeuePacketInternal
  refine .guard_bind (by omega) (.guard_bind hzero (.guard_bind hmem (.some ⟨⟨?_, ?_, ?_⟩, ?_⟩)))
  · have hstored : ∀ a b c d e, stored { q with
        sizePackets := a
        sizePacketsPerMediaType := b
        sizePayload := c
        queueTimeSum := d
        enqueueTimes := e } + held = rest := fun _ _ _ _ _ => hrest
    rw [hstored]
    refine ⟨?_, ?_, ?_, ?_, ?_, ?_, ?_⟩
    · show q.sizePackets - 1 = _
      omega
    · intro t
      show Function.update q.sizePacketsPerMediaType p.packet.packetType _ t = _
      by_cases ht : t = p.packet.packetType
      · subst ht
        rw [update_self]
        omega
      · have := hbooks.types t
        rw [countP_cons_of_neg rest (show ¬ p.packet.packetType = t from Ne.symm ht)] at this
        rw [update_of_ne ht, this]
    · show q.sizePayload - p.packetSize = _
      omega
    · show q.queueTimeSum - _ =
        (rest.map fun x => q.lastUpdateTime - x.enqueueTime - q.pauseTimeSum).sum
      omega
    · exact filter_nodes hbooks.sorted hnodes
    · exact hbooks.sorted.sublist (List.filter_sublist.map _)
    · intro e he
      exact hbooks.fresh e (List.mem_of_mem_filter he)
  · refine ⟨hlogged.length, hlogged.clock, ?_, ?_⟩
    · intro x hx
      exact hlogged.packets x (mem_cons_of_mem (hrest ▸ hx))
    · intro e he
      exact hlogged.times e (List.mem_of_mem_filter he)
  · exact hstreams
  · exact ⟨⟨rfl, rfl, rfl, rfl, rfl, rfl, fun _ h => h, le_rfl⟩, rfl, rfl, rfl⟩

variable {s : StreamQueue}

theorem stored_setStream (s' : StreamQueue) (hfind : q.streams.find? ssrc = some s) :
    (q.setStream ssrc s').stored + s.all = q.stored + s'.all := by
  have htotal := q.streams.total_upsert ssrc (fun _ => s') StreamQueue.all
  rw [hfind] at htotal
  exact htotal

theorem packetsAt_of_find? (hfind : q.streams.find? ssrc = some s) :
    q.packetsAt ssrc = s.packets := by
  funext j
  rw [packetsAt, hfind]

theorem packetsAt_setStream (q : PrioritizedPacketQueue) (ssrc other : Nat) (s : StreamQueue)
    (j : Fin 5) : (q.setStream ssrc s).packetsAt other j =
      if other = ssrc then s.packets j else q.packetsAt other j := by
  rw [packetsAt, setStream, OrdMap.find?_upsert]
  by_cases h : other = ssrc
  · rw [if_pos h, if_pos h]
  · rw [if_neg h, if_neg h, packetsAt]

theorem Kept.take {s s' : StreamQueue} {out : Multiset QueuedPacket}
    (h : Kept log active origin q held extra) (hfind : q.streams.find? ssrc = some s)
    (hok : s'.Ok q.prioLevel ssrc) (hall : s.all = out + s'.all) :
    q.stored = out + (q.setStream ssrc s').stored ∧
      Kept log active origin (q.setStream ssrc s') (out + held) extra := by
  have hstored : q.stored = out + (q.setStream ssrc s').stored := by
    have hset := stored_setStream s' hfind
    rw [hall, ← add_assoc] at hset
    rw [← add_right_cancel hset, add_comm]
  have hsame : (q.setStream ssrc s').stored + (out + held) = q.stored + held := by
    rw [hstored, ← add_assoc, add_comm out]
  obtain ⟨hbooks, hlogged, hstreams⟩ := h
  refine ⟨hstored, ?_, ?_, ?_⟩
  · rw [hsame]
    exact { hbooks with }
  · rw [hsame]
    exact { hlogged with }
  · intro other stream hother
    rw [setStream, OrdMap.find?_upsert] at hother
    split_ifs at hother with heq
    · cases hother
      rw [heq]
      exact hok
    · exact hstreams other stream hother

structure Taken (q q' : PrioritizedPacketQueue) (ssrc : Nat) (i : Fin 5) (p : QueuedPacket)
    (rest : List QueuedPacket) : Prop extends Frame q q' where
  byPrio : q'.streamsByPrio = q.streamsByPrio
  top : q'.topActivePrioLevel = q.topActivePrioLevel
  stored : q.stored = p ::ₘ q'.stored
  packets : ∀ other j, q'.packetsAt other j =
    if other = ssrc ∧ j = i then rest else q.packetsAt other j

variable {rest : List QueuedPacket}

theorem Kept.dequeue
    (h : Kept log active origin q held extra) (hfind : q.streams.find? ssrc = some s)
    (hs : s.packets i = p :: rest) : ∃ s' q', s.dequeuePacket i = some (p, s') ∧
      (q.setStream ssrc s').dequeuePacketInternal p = some q' ∧
      Kept log active origin q' held extra ∧ Taken q q' ssrc i p rest ∧
      q'.streams.find? ssrc = some s' ∧ s'.packets i = rest := by
  obtain ⟨⟨x, s'⟩, hdequeue, rfl, hpackets, hok, hall⟩ :=
    (h.streams ssrc s hfind).ensures_dequeuePacket hs
  rw [← singleton_add] at hall
  obtain ⟨hstored, hkept⟩ := h.take hfind hok hall
  rw [singleton_add] at hstored hkept
  obtain ⟨q', hq', hkept', hunmoved⟩ := hkept.ensures_dequeuePacketInternal
  have hstored' : q'.stored = (q.setStream ssrc s').stored := by
    rw [PrioritizedPacketQueue.stored, hunmoved.streams]
    rfl
  have hfind' : q'.streams.find? ssrc = some s' := by
    rw [hunmoved.streams, setStream, OrdMap.find?_upsert_self]
  refine ⟨s', q', hdequeue, hq', hkept', ?_, hfind', by rw [hpackets, update_self]⟩
  refine ⟨⟨hunmoved.prioritize, hunmoved.ttl, hunmoved.pause, hunmoved.update, hunmoved.paused,
    hunmoved.node, ?_, hstored ▸ hstored' ▸ le_cons_self _ _⟩, hunmoved.byPrio,
    hunmoved.top, hstored' ▸ hstored, ?_⟩
  · intro other hother
    rw [hunmoved.streams, setStream, OrdMap.find?_upsert]
    split_ifs
    · rfl
    · exact hother
  intro other j
  have hmoved : q'.packetsAt other j = (q.setStream ssrc s').packetsAt other j := by
    rw [packetsAt, hunmoved.streams]
    rfl
  rw [hmoved, packetsAt_setStream, hpackets]
  by_cases hother : other = ssrc
  · subst hother
    rw [if_pos rfl, packetsAt_of_find? hfind]
    by_cases hj : j = i
    · subst hj
      rw [update_self, if_pos ⟨rfl, rfl⟩]
    · rw [update_of_ne hj, if_neg (fun h => hj h.2)]
  · rw [if_neg hother, if_neg (fun h => hother h.1)]

def Listed (q : PrioritizedPacketQueue) (i : Fin 5) : Prop :=
  (q.streamsByPrio i).Nodup ∧ ∀ ssrc, ssrc ∈ q.streamsByPrio i ↔ q.packetsAt ssrc i ≠ []

theorem Listed.congr (h : q.Listed i) (hlist : q'.streamsByPrio i = q.streamsByPrio i)
    (hpackets : ∀ ssrc, q'.packetsAt ssrc i = q.packetsAt ssrc i) : q'.Listed i := by
  refine ⟨hlist ▸ h.1, fun ssrc => ?_⟩
  rw [hlist, hpackets]
  exact h.2 ssrc

theorem exists_stream_of_packetsAt (h : q.packetsAt ssrc i ≠ []) :
    ∃ s, q.streams.find? ssrc = some s := by
  cases hfind : q.streams.find? ssrc with
  | none => exact absurd (by rw [packetsAt, hfind]) h
  | some s => exact ⟨s, rfl⟩

structure PurgedAt (q q' : PrioritizedPacketQueue) (i : Fin 5) (gone : Nat → Prop) : Prop
    extends Frame q q' where
  byPrio : q'.streamsByPrio = q.streamsByPrio
  top : q'.topActivePrioLevel = q.topActivePrioLevel
  packets : ∀ ssrc j, ¬ (gone ssrc ∧ j = i) → q'.packetsAt ssrc j = q.packetsAt ssrc j

theorem Kept.ensures_purgeStream {timeToLive now : Int} {n : Nat}
    (h : Kept log active origin q held extra) (hfind : q.streams.find? ssrc = some s)
    (hn : (s.packets i).length = n) : Ensures (purgeStream i timeToLive now ssrc n q) fun q' =>
      Kept log active origin q' held extra ∧ PurgedAt q q' i (· = ssrc) ∧
        ∃ s', q'.streams.find? ssrc = some s' := by
  induction n generalizing q s with
  | zero => exact .some ⟨h, ⟨.refl q, rfl, rfl, fun _ _ _ => rfl⟩, s, hfind⟩
  | succ n ih =>
    obtain ⟨p, rest, hs⟩ : ∃ p rest, s.packets i = p :: rest :=
      List.exists_cons_of_length_eq_add_one hn
    rw [purgeStream, hfind]
    simp only [bind_eq_bind, bind_some, hs]
    apply Ensures.ite
    · intro hold
      obtain ⟨s', q', hdequeue, hq', hkept, htaken, hfind', hs'⟩ := h.dequeue hfind hs
      simp only [hdequeue, bind_some, hq']
      have hlength : (s'.packets i).length = n := by
        rw [hs] at hn
        rw [hs']
        exact Nat.succ.inj hn
      refine (ih hkept hfind' hlength).mono fun q'' ⟨hkept'', hpurged, hfind''⟩ =>
        ⟨hkept'', ⟨htaken.toFrame.trans hpurged.toFrame, hpurged.byPrio.trans htaken.byPrio,
          hpurged.top.trans htaken.top, ?_⟩, hfind''⟩
      intro other j hother
      rw [hpurged.packets other j hother, htaken.packets, if_neg hother]
    · intro hyoung
      exact .some ⟨h, ⟨.refl q, rfl, rfl, fun _ _ _ => rfl⟩, s, hfind⟩

theorem Kept.ensures_purgeStreams (timeToLive now : Int) {l : List Nat} (hnodup : l.Nodup)
    (h : Kept log active origin q held extra) (hl : ∀ ssrc ∈ l, q.packetsAt ssrc i ≠ []) :
    Ensures (purgeStreams i timeToLive now l q) fun r =>
      Kept log active origin r.2 held extra ∧ PurgedAt q r.2 i (· ∈ l) ∧ r.1.Sublist l ∧
        ∀ ssrc ∈ l, ssrc ∈ r.1 ↔ r.2.packetsAt ssrc i ≠ [] := by
  induction l generalizing q with
  | nil => exact .some ⟨h, ⟨.refl q, rfl, rfl, fun _ _ _ => rfl⟩, .slnil, nofun⟩
  | cons ssrc rest ih =>
    obtain ⟨hnotin, hrest⟩ := List.nodup_cons.mp hnodup
    obtain ⟨s, hfind⟩ := exists_stream_of_packetsAt (hl ssrc List.mem_cons_self)
    rw [purgeStreams, hfind]
    simp only [bind_eq_bind, bind_some]
    refine (h.ensures_purgeStream hfind rfl).bind fun q₁ ⟨hkept₁, hpurged₁, s₁, hfind₁⟩ => ?_
    simp only [hfind₁, bind_some]
    have hl₁ : ∀ other ∈ rest, q₁.packetsAt other i ≠ [] := by
      intro other hother
      rw [hpurged₁.packets other i (fun h => hnotin (h.1 ▸ hother))]
      exact hl other (List.mem_cons_of_mem ssrc hother)
    refine (ih hrest hkept₁ hl₁).bind fun ⟨kept, q₂⟩ ⟨hkept₂, hpurged₂, hsub, hiff⟩ => .some ?_
    have hssrc : q₂.packetsAt ssrc i = s₁.packets i := by
      rw [hpurged₂.packets ssrc i (fun h => hnotin h.1), packetsAt_of_find? hfind₁]
    refine ⟨hkept₂, ⟨hpurged₁.toFrame.trans hpurged₂.toFrame, hpurged₂.byPrio.trans hpurged₁.byPrio,
      hpurged₂.top.trans hpurged₁.top, ?_⟩, ?_, ?_⟩
    · intro other j hother
      rw [hpurged₂.packets other j (fun h => hother ⟨List.mem_cons_of_mem ssrc h.1, h.2⟩),
        hpurged₁.packets other j (fun h => hother ⟨h.1 ▸ List.mem_cons_self, h.2⟩)]
    · split_ifs
      · exact hsub.cons_cons ssrc
      · exact hsub.cons ssrc
    · intro other hother
      have hkeep : s₁.hasPacketsAtPrio i = true ↔ s₁.packets i ≠ [] := by
        simp [StreamQueue.hasPacketsAtPrio]
      rcases List.mem_cons.mp hother with rfl | hother
      · rw [hssrc, ← hkeep]
        split_ifs with hp
        · simp [hp]
        · simp only [hp]
          exact ⟨fun hmem => absurd (hsub.subset hmem) hnotin, nofun⟩
      · rw [← hiff other hother]
        have hne : other ≠ ssrc := fun h => hnotin (h ▸ hother)
        split_ifs
        · simp [hne]
        · rfl

structure Purged (q q' : PrioritizedPacketQueue) (i : Fin 5) : Prop extends Frame q q' where
  byPrio : ∀ j, j ≠ i → q'.streamsByPrio j = q.streamsByPrio j
  top : q'.topActivePrioLevel = q.topActivePrioLevel
  packets : ∀ ssrc j, j ≠ i → q'.packetsAt ssrc j = q.packetsAt ssrc j
  listed : q'.Listed i

theorem Kept.ensures_purge {now : Int} (h : Kept log active origin q held extra)
    (hlisted : q.Listed i) : Ensures (q.purgeOldPacketsAtPriorityLevel i now) fun q' =>
      Kept log active origin q' held extra ∧ Purged q q' i := by
  unfold purgeOldPacketsAtPriorityLevel
  cases q.timeToLivePerPrio i with
  | none => exact .some ⟨h, .refl q, fun _ _ => rfl, rfl, fun _ _ _ => rfl, hlisted⟩
  | some timeToLive =>
    obtain ⟨⟨kept, q'⟩, hpurge, hkept, hpurged, hsub, hiff⟩ :=
      h.ensures_purgeStreams timeToLive now hlisted.1
        fun ssrc hssrc => (hlisted.2 ssrc).mp hssrc
    simp only [hpurge, map_some]
    refine .some ⟨⟨{ hkept.books with }, { hkept.logged with }, hkept.streams⟩, ?_⟩
    refine ⟨⟨hpurged.prioritize, hpurged.ttl, hpurged.pause, hpurged.update, hpurged.paused,
      hpurged.node, hpurged.present, hpurged.fewer⟩, ?_, hpurged.top, ?_, ?_, ?_⟩
    · intro j hj
      show Function.update q'.streamsByPrio i kept j = _
      rw [update_of_ne hj, hpurged.byPrio]
    · intro ssrc j hj
      exact hpurged.packets ssrc j fun h => hj h.2
    · show (Function.update q'.streamsByPrio i kept i).Nodup
      rw [update_self]
      exact hlisted.1.sublist hsub
    · intro ssrc
      show ssrc ∈ Function.update q'.streamsByPrio i kept i ↔ q'.packetsAt ssrc i ≠ []
      rw [update_self]
      by_cases hmem : ssrc ∈ q.streamsByPrio i
      · exact hiff ssrc hmem
      · rw [hpurged.packets ssrc i fun h => hmem h.1]
        exact ⟨fun hk => absurd (hsub.subset hk) hmem, fun hne => absurd ((hlisted.2 ssrc).mpr hne) hmem⟩

def TopRight (q : PrioritizedPacketQueue) : Prop :=
  match q.topActivePrioLevel with
  | none => ∀ i, q.streamsByPrio i = []
  | some top => q.streamsByPrio top ≠ [] ∧ ∀ i < top, q.streamsByPrio i = []

theorem stored_eq_zero_iff (hlisted : ∀ i, q.Listed i) :
    q.stored = 0 ↔ ∀ i, q.streamsByPrio i = [] := by
  constructor
  · intro hzero i
    by_contra hne
    obtain ⟨ssrc, hssrc⟩ := List.exists_mem_of_ne_nil _ hne
    obtain ⟨p, hp⟩ := List.exists_mem_of_ne_nil _ (((hlisted i).2 ssrc).mp hssrc)
    have hmem := mem_stored.mpr ⟨ssrc, i, hp⟩
    rw [hzero] at hmem
    exact notMem_zero p hmem
  · intro hempty
    apply eq_zero_of_forall_notMem
    intro p hp
    obtain ⟨ssrc, i, hmem⟩ := mem_stored.mp hp
    have hssrc := ((hlisted i).2 ssrc).mpr (List.ne_nil_of_mem hmem)
    rw [hempty i] at hssrc
    exact absurd hssrc List.not_mem_nil

theorem Kept.sizePackets_eq_zero_iff (h : Kept log active origin q 0 extra) :
    q.sizePackets = 0 ↔ q.stored = 0 := by
  have hsize := h.books.size
  rw [add_zero] at hsize
  rw [hsize, Int.natCast_eq_zero, card_eq_zero]

structure Right (log : List PushRecord) (active origin : Int) (q : PrioritizedPacketQueue) :
    Prop where
  kept : Kept log active origin q 0 0
  listed : ∀ i, q.Listed i
  top : q.TopRight

theorem Purged.listed_all (h : Purged q q' i) (hlisted : ∀ j, q.Listed j) : ∀ j, q'.Listed j := by
  intro j
  by_cases hj : j = i
  · exact hj ▸ h.listed
  · exact (hlisted j).congr (h.byPrio j hj) fun ssrc => h.packets ssrc j hj

variable {levels : List (Fin 5)}

theorem Kept.ensures_findTopPrioLevel (hsorted : levels.Pairwise (· < ·))
    (h : Kept log active origin q held extra) (hlisted : ∀ i, q.Listed i)
    (hempty : ∀ i, i ∉ levels → q.streamsByPrio i = []) :
    Ensures (findTopPrioLevel levels q) fun q' =>
      Kept log active origin q' held extra ∧ Frame q q' ∧ (∀ i, q'.Listed i) ∧
        ((∃ top, q'.topActivePrioLevel = some top ∧ q'.streamsByPrio top ≠ [] ∧
            ∀ i < top, q'.streamsByPrio i = []) ∨ ∀ i, q'.streamsByPrio i = []) := by
  induction levels generalizing q with
  | nil => exact .some ⟨h, .refl q, hlisted, .inr fun i => hempty i List.not_mem_nil⟩
  | cons i rest ih =>
    obtain ⟨hfirst, hrest⟩ := List.pairwise_cons.mp hsorted
    rw [findTopPrioLevel]
    refine (h.ensures_purge (hlisted i)).bind fun q₁ ⟨hkept₁, hpurged⟩ => ?_
    have hlisted₁ := hpurged.listed_all hlisted
    have hothers : ∀ j, j ≠ i → j ∉ rest → q₁.streamsByPrio j = [] := by
      intro j hj hjrest
      rw [hpurged.byPrio j hj]
      exact hempty j fun hmem => (List.mem_cons.mp hmem).elim hj hjrest
    apply Ensures.ite
    · intro hne
      refine .some ⟨⟨{ hkept₁.books with }, { hkept₁.logged with }, hkept₁.streams⟩,
        ⟨hpurged.prioritize, hpurged.ttl, hpurged.pause, hpurged.update, hpurged.paused,
          hpurged.node, hpurged.present, hpurged.fewer⟩, hlisted₁, .inl ⟨i, rfl, hne, ?_⟩⟩
      intro j hj
      exact hothers j hj.ne fun hmem => absurd (hfirst j hmem) (not_lt.mpr hj.le)
    · intro hnil
      refine (ih hrest hkept₁ hlisted₁ ?_).mono fun q₂ ⟨hkept₂, hframe, htop⟩ =>
        ⟨hkept₂, hpurged.toFrame.trans hframe, htop⟩
      intro j hj
      by_cases hji : j = i
      · subst hji
        exact not_not.mp hnil
      · exact hothers j hji hj

theorem Kept.ensures_maybeUpdateTopPrioLevel (h : Kept log active origin q 0 0)
    (hlisted : ∀ i, q.Listed i)
    (htop : ∀ top, q.topActivePrioLevel = some top → ∀ i < top, q.streamsByPrio i = []) :
    Ensures q.maybeUpdateTopPrioLevel fun q' => Right log active origin q' ∧ Frame q q' := by
  unfold maybeUpdateTopPrioLevel
  apply Ensures.ite
  · intro hany
    obtain ⟨top, hsome, hne⟩ : ∃ top, q.topActivePrioLevel = some top ∧ q.streamsByPrio top ≠ [] := by
      cases hsome : q.topActivePrioLevel with
      | none => simp [hsome] at hany
      | some top => exact ⟨top, rfl, by simpa [hsome] using hany⟩
    refine .some ⟨⟨h, hlisted, ?_⟩, .refl q⟩
    rw [TopRight, hsome]
    exact ⟨hne, htop top hsome⟩
  · intro _
    obtain ⟨q', hq', hkept, hframe, hlisted', hcases⟩ :=
      h.ensures_findTopPrioLevel (List.pairwise_lt_finRange 5) hlisted
        fun i hi => absurd (List.mem_finRange i) hi
    have hzero := hkept.sizePackets_eq_zero_iff.trans (stored_eq_zero_iff hlisted')
    rw [hq']
    refine ⟨_, rfl, ?_⟩
    dsimp only
    split_ifs with hsize
    · exact ⟨⟨⟨{ hkept.books with }, { hkept.logged with }, hkept.streams⟩, hlisted',
        hzero.mp hsize⟩, { hframe with }⟩
    · refine ⟨⟨hkept, hlisted', ?_⟩, hframe⟩
      rcases hcases with ⟨top, hsome, hne, hbefore⟩ | hall
      · rw [TopRight, hsome]
        exact ⟨hne, hbefore⟩
      · exact absurd (hzero.mpr hall) hsize

theorem TopRight.before (h : q.TopRight) {top : Fin 5} (htop : q.topActivePrioLevel = some top) :
    ∀ i < top, q.streamsByPrio i = [] := by
  rw [TopRight, htop] at h
  exact h.2

/-! The calls. -/

theorem Kept.owner (h : Kept log active origin q held extra) (hp : p ∈ q.packetsAt ssrc i) :
    p.packet.ssrc = ssrc ∧ q.prioLevel p.packet = i := by
  obtain ⟨s, hfind⟩ := exists_stream_of_packetsAt (List.ne_nil_of_mem hp)
  rw [packetsAt_of_find? hfind] at hp
  exact (h.streams ssrc s hfind).owner i p hp

theorem Kept.nodup (h : Kept log active origin q 0 extra) :
    (q.stored.map QueuedPacket.enqueueTimeIterator + extra).Nodup := by
  have hnodes := h.books.nodes
  rw [add_zero] at hnodes
  rw [← hnodes]
  exact h.books.sorted.imp ne_of_lt

/-- The packet that `Pop` returns: the first of a stream at the first level. -/
structure Leading (q : PrioritizedPacketQueue) (p : QueuedPacket) : Prop where
  mem : p ∈ q.stored
  highest : ∀ x ∈ q.stored, q.prioLevel p.packet ≤ q.prioLevel x.packet
  first : ∀ x ∈ q.stored, x.packet.ssrc = p.packet.ssrc →
    q.prioLevel x.packet = q.prioLevel p.packet → p.enqueueTimeIterator ≤ x.enqueueTimeIterator

theorem Right.leading (h : Right log active origin q) {top : Fin 5}
    (htop : q.topActivePrioLevel = some top) (hp : q.packetsAt ssrc top = p :: rest) :
    Leading q p := by
  have hmem : p ∈ q.packetsAt ssrc top := hp ▸ List.mem_cons_self
  have howner := h.kept.owner hmem
  refine ⟨mem_stored.mpr ⟨ssrc, top, hmem⟩, ?_, ?_⟩
  · intro x hx
    obtain ⟨other, i, hxi⟩ := mem_stored.mp hx
    rw [howner.2, (h.kept.owner hxi).2]
    by_contra hlt
    have hlist := ((h.listed i).2 other).mpr (List.ne_nil_of_mem hxi)
    rw [h.top.before htop i (not_le.mp hlt)] at hlist
    exact absurd hlist List.not_mem_nil
  · intro x hx hssrc hprio
    obtain ⟨other, i, hxi⟩ := mem_stored.mp hx
    obtain ⟨hxssrc, hxprio⟩ := h.kept.owner hxi
    rw [hssrc, howner.1] at hxssrc
    rw [hprio, howner.2] at hxprio
    subst hxssrc hxprio
    obtain ⟨s, hfind⟩ := exists_stream_of_packetsAt (List.ne_nil_of_mem hxi)
    rw [packetsAt_of_find? hfind] at hxi hp
    have hfifo := (h.kept.streams _ s hfind).fifo top
    rw [hp] at hxi hfifo
    rcases List.mem_cons.mp hxi with rfl | hxi
    · exact le_rfl
    · exact ((List.pairwise_cons.mp hfifo).1 x hxi).le

theorem Taken.listed {streams turned : List Nat}
    (h : Taken q q' ssrc i p rest) (hlisted : ∀ j, q.Listed j)
    (hstreams : q.streamsByPrio i = ssrc :: streams)
    (hturned : turned.Nodup) (hmem : ∀ other, other ∈ turned ↔
      other ∈ streams ∨ other = ssrc ∧ rest ≠ []) :
    ∀ j, Listed { q' with streamsByPrio := Function.update q'.streamsByPrio i turned } j := by
  intro j
  by_cases hj : j = i
  · subst hj
    show (Function.update q'.streamsByPrio j turned j).Nodup ∧
      ∀ other, other ∈ Function.update q'.streamsByPrio j turned j ↔ q'.packetsAt other j ≠ []
    rw [update_self]
    refine ⟨hturned, fun other => ?_⟩
    obtain ⟨hnodup, hiff⟩ := hlisted j
    rw [hstreams] at hnodup hiff
    have hnotin := (List.nodup_cons.mp hnodup).1
    rw [hmem, h.packets]
    by_cases hother : other = ssrc
    · rw [if_pos ⟨hother, rfl⟩, hother]
      simp [hnotin]
    · rw [if_neg fun h => hother h.1, ← hiff other]
      simp [hother]
  · refine (hlisted j).congr ?_ fun other => ?_
    · show Function.update q'.streamsByPrio i turned j = q.streamsByPrio j
      rw [update_of_ne hj, h.byPrio]
    · show q'.packetsAt other j = q.packetsAt other j
      rw [h.packets, if_neg fun h => hj h.2]

theorem Right.ensures_pop (h : Right log active origin q) (hne : q.sizePackets ≠ 0) :
    Ensures q.pop fun r => Right log active origin r.2 ∧ Frame q r.2 ∧
      ∃ p, Leading q p ∧ r.1 = some p.packet ∧ p ∉ r.2.stored := by
  have hlists : ¬ ∀ i, q.streamsByPrio i = [] := fun hall =>
    hne (h.kept.sizePackets_eq_zero_iff.mpr ((stored_eq_zero_iff h.listed).mpr hall))
  have htop := h.top
  unfold TopRight at htop
  unfold pop
  rw [if_neg hne]
  cases hsome : q.topActivePrioLevel with
  | none =>
    rw [hsome] at htop
    exact absurd htop hlists
  | some top =>
    rw [hsome] at htop
    obtain ⟨ssrc, streams, hstreams⟩ := List.exists_cons_of_ne_nil htop.1
    have hpackets := ((h.listed top).2 ssrc).mp (hstreams ▸ List.mem_cons_self)
    obtain ⟨p, rest, hp⟩ := List.exists_cons_of_ne_nil hpackets
    obtain ⟨s, hfind⟩ := exists_stream_of_packetsAt hpackets
    have hleading := h.leading hsome hp
    rw [packetsAt_of_find? hfind] at hp
    obtain ⟨s', q', hdequeue, hq', hkept, htaken, -, hrest⟩ := h.kept.dequeue hfind hp
    have hout : p ∉ q'.stored := by
      have hnodup := (nodup_add.mp h.kept.nodup).1
      rw [htaken.stored, map_cons, nodup_cons] at hnodup
      exact fun hmem => hnodup.1 (mem_map_of_mem _ hmem)
    have hnodup := List.nodup_cons.mp (hstreams ▸ (h.listed top).1)
    simp only [bind_eq_bind, bind_some, hstreams, List.head?_cons, hfind, hdequeue, hq']
    have htail : (q'.streamsByPrio top).tail = streams := by
      rw [htaken.byPrio, hstreams]
      rfl
    rw [htail]
    have hhas : s'.hasPacketsAtPrio top = true ↔ rest ≠ [] := by
      simp [StreamQueue.hasPacketsAtPrio, hrest]
    apply Ensures.ite
    · intro hmore
      refine .some ⟨⟨⟨{ hkept.books with }, { hkept.logged with }, hkept.streams⟩, ?_, ?_⟩,
        { htaken.toFrame with }, p, hleading, rfl, hout⟩
      · refine htaken.listed h.listed hstreams ?_ fun other => ?_
        · exact List.nodup_append.mpr ⟨hnodup.2, List.nodup_singleton ssrc,
            fun a ha b hb hab => hnodup.1 (List.mem_singleton.mp hb ▸ hab ▸ ha)⟩
        · simp [hhas.mp hmore]
      · show TopRight _
        rw [TopRight]
        show match q'.topActivePrioLevel with | none => _ | some top => _
        rw [htaken.top, hsome]
        refine ⟨?_, fun i hi => ?_⟩
        · show Function.update q'.streamsByPrio top (streams ++ [ssrc]) top ≠ []
          rw [update_self]
          simp
        · show Function.update q'.streamsByPrio top (streams ++ [ssrc]) i = []
          rw [update_of_ne hi.ne, htaken.byPrio]
          exact htop.2 i hi
    · intro hless
      have hnil : rest = [] := by
        by_contra hne
        exact hless (hhas.mpr hne)
      have hlisted' := htaken.listed h.listed hstreams hnodup.2 fun other => by simp [hnil]
      have hkept' : Kept log active origin
          { q' with streamsByPrio := Function.update q'.streamsByPrio top streams } 0 0 :=
        ⟨{ hkept.books with }, { hkept.logged with }, hkept.streams⟩
      refine (hkept'.ensures_maybeUpdateTopPrioLevel hlisted' ?_).bind fun q₂ ⟨hright, hframe⟩ => ?_
      · intro other hother i hi
        change q'.topActivePrioLevel = some other at hother
        rw [htaken.top, hsome] at hother
        cases hother
        show Function.update q'.streamsByPrio top streams i = []
        rw [update_of_ne hi.ne, htaken.byPrio]
        exact htop.2 i hi
      · have hframe' : Frame q' q₂ := { hframe with }
        exact .some ⟨hright, htaken.toFrame.trans hframe', p, hleading, rfl,
          fun hmem => hout (mem_of_le hframe.fewer hmem)⟩

theorem Kept.ensures_updateAverageQueueTime {now : Int} (h : Kept log active origin q 0 extra)
    (hnow : q.lastUpdateTime ≤ now) : Ensures (q.updateAverageQueueTime now) fun q' =>
      Kept log (active + if q.paused then 0 else now - q.lastUpdateTime) origin q' 0 extra ∧
        q'.lastUpdateTime = now ∧ q'.paused = q.paused ∧ q'.streams = q.streams ∧
        q'.streamsByPrio = q.streamsByPrio ∧ q'.topActivePrioLevel = q.topActivePrioLevel ∧
        q'.prioritizeAudioRetransmission = q.prioritizeAudioRetransmission ∧
        q'.nextNode = q.nextNode := by
  obtain ⟨hbooks, hlogged, hstreams⟩ := h
  have hclock := hlogged.clock
  have htimes := hbooks.times
  unfold updateAverageQueueTime
  refine .guard_bind hnow ?_
  apply Ensures.ite
  · intro heq
    have hzero : (if q.paused then 0 else now - q.lastUpdateTime) = 0 := by
      split_ifs <;> omega
    rw [hzero, add_zero]
    exact .some ⟨⟨hbooks, hlogged, hstreams⟩, heq.symm, rfl, rfl, rfl, rfl, rfl, rfl⟩
  · intro hlater
    apply Ensures.ite
    · intro hpaused
      rw [if_pos hpaused, add_zero]
      refine .some ⟨⟨{ hbooks with times := ?_ }, { hlogged with clock := ?_ }, hstreams⟩, rfl, rfl,
        rfl, rfl, rfl, rfl, rfl⟩
      · show q.queueTimeSum = ((q.stored + 0).map _).sum
        rw [htimes]
        congr 1
        apply map_congr rfl
        intro p _
        show _ = now - p.enqueueTime - (q.pauseTimeSum + (now - q.lastUpdateTime))
        omega
      · show now - (q.pauseTimeSum + (now - q.lastUpdateTime)) = active + origin
        omega
    · intro hpaused
      rw [if_neg hpaused]
      refine .some ⟨⟨{ hbooks with times := ?_ }, { hlogged with clock := ?_ }, hstreams⟩, rfl, rfl,
        rfl, rfl, rfl, rfl, rfl⟩
      · show q.queueTimeSum + (now - q.lastUpdateTime) * q.sizePackets =
          ((q.stored + 0).map fun p => now - p.enqueueTime - q.pauseTimeSum).sum
        have hsplit : ∀ p : QueuedPacket, now - p.enqueueTime - q.pauseTimeSum =
            (q.lastUpdateTime - p.enqueueTime - q.pauseTimeSum) + (now - q.lastUpdateTime) := by
          intro p
          omega
        simp only [hsplit]
        rw [sum_map_add, ← htimes, hbooks.size, map_const', sum_replicate, nsmul_eq_mul, mul_comm]
      · show now - q.pauseTimeSum = active + (now - q.lastUpdateTime) + origin
        omega

theorem Kept.ensures_dequeueAll
    (h : Kept log active origin q ((l : Multiset QueuedPacket) + held) extra) :
    Ensures (l.foldlM dequeuePacketInternal q) fun q' =>
      Kept log active origin q' held extra ∧ Unmoved q q' := by
  induction l generalizing q with
  | nil => exact .some ⟨by simpa using h, .refl q, rfl, rfl, rfl⟩
  | cons p l ih =>
    rw [← cons_coe, cons_add] at h
    rw [List.foldlM_cons]
    refine h.ensures_dequeuePacketInternal.bind fun q₁ ⟨hkept, hunmoved⟩ => ?_
    refine (ih hkept).mono fun q₂ ⟨hkept₂, hunmoved₂⟩ => ⟨hkept₂, ?_⟩
    exact ⟨hunmoved.toFrame.trans hunmoved₂.toFrame, hunmoved₂.streams.trans hunmoved.streams,
      hunmoved₂.byPrio.trans hunmoved.byPrio, hunmoved₂.top.trans hunmoved.top⟩

def Pending (q : PrioritizedPacketQueue) (ssrc : Nat) (l : List QueuedPacket) (i : Fin 5) : Prop :=
  (q.streamsByPrio i).Nodup ∧ (ssrc ∈ q.streamsByPrio i ↔ l ≠ []) ∧
    ∀ other, other ≠ ssrc → (other ∈ q.streamsByPrio i ↔ q.packetsAt other i ≠ [])

theorem Pending.congr (h : q.Pending ssrc l i) (hlist : q'.streamsByPrio i = q.streamsByPrio i)
    (hpackets : ∀ other, q'.packetsAt other i = q.packetsAt other i) : q'.Pending ssrc l i := by
  refine ⟨hlist ▸ h.1, hlist ▸ h.2.1, fun other hother => ?_⟩
  rw [hlist, hpackets]
  exact h.2.2 other hother

structure Removing (q q' : PrioritizedPacketQueue) : Prop extends Frame q q' where
  streams : q'.streams = q.streams
  top : q'.topActivePrioLevel = q.topActivePrioLevel
  emptied : ∀ i, q.streamsByPrio i = [] → q'.streamsByPrio i = []

theorem packetsAt_congr (h : q'.streams = q.streams) (ssrc : Nat) (i : Fin 5) :
    q'.packetsAt ssrc i = q.packetsAt ssrc i := by
  rw [packetsAt, h, packetsAt]

theorem Kept.ensures_removeLevel {packets : Fin 5 → List QueuedPacket}
    (h : Kept log active origin q ((packets i : Multiset QueuedPacket) + held) extra)
    (hpending : q.Pending ssrc (packets i) i) (hgone : q.packetsAt ssrc i = []) :
    Ensures (removeLevel ssrc packets q i) fun q' => Kept log active origin q' held extra ∧
      Removing q q' ∧ q'.Listed i ∧ ∀ j, j ≠ i → q'.streamsByPrio j = q.streamsByPrio j := by
  obtain ⟨hnodup, hssrc, hothers⟩ := hpending
  unfold removeLevel
  apply Ensures.ite
  · intro hnil
    refine .some ⟨by simpa [hnil] using h, ⟨.refl q, rfl, rfl, fun _ h => h⟩, ⟨hnodup, ?_⟩,
      fun _ _ => rfl⟩
    intro other
    by_cases hother : other = ssrc
    · rw [hother, hssrc, hnil, hgone]
    · exact hothers other hother
  · intro hne
    refine h.ensures_dequeueAll.bind fun q₁ ⟨hkept, hunmoved⟩ => ?_
    rw [hunmoved.byPrio]
    have hmem := hssrc.mpr hne
    have hone : (q.streamsByPrio i).length = 1 → q.streamsByPrio i = [ssrc] := by
      intro hlength
      obtain ⟨x, hx⟩ := List.length_eq_one_iff.mp hlength
      rw [hx, List.mem_singleton] at hmem
      rw [hx, hmem]
    have hfilter : (if (q.streamsByPrio i).length = 1 then (q.streamsByPrio i).tail
        else (q.streamsByPrio i).filter fun other => other ≠ ssrc) =
        (q.streamsByPrio i).filter fun other => other ≠ ssrc := by
      split_ifs with hlength
      · rw [hone hlength]
        simp
      · rfl
    refine .guard_bind (List.ne_nil_of_mem hmem) (.guard_bind ?_ (.some ⟨?_, ?_, ?_, ?_⟩))
    · intro hlength
      rw [hone hlength]
      rfl
    · exact ⟨{ hkept.books with }, { hkept.logged with }, hkept.streams⟩
    · refine ⟨⟨hunmoved.prioritize, hunmoved.ttl, hunmoved.pause, hunmoved.update, hunmoved.paused,
        hunmoved.node, hunmoved.present, hunmoved.fewer⟩, hunmoved.streams, hunmoved.top, ?_⟩
      intro j hj
      show Function.update q.streamsByPrio i _ j = []
      by_cases hji : j = i
      · subst hji
        exact absurd hj (List.ne_nil_of_mem hmem)
      · rw [update_of_ne hji, hj]
    · rw [hfilter]
      show (Function.update q.streamsByPrio i _ i).Nodup ∧
        ∀ other, other ∈ Function.update q.streamsByPrio i _ i ↔ _
      rw [update_self]
      refine ⟨hnodup.filter _, fun other => ?_⟩
      show _ ↔ q₁.packetsAt other i ≠ []
      rw [packetsAt_congr hunmoved.streams]
      by_cases hother : other = ssrc
      · rw [hother, hgone]
        simp
      · rw [← hothers other hother]
        simp [hother]
    · intro j hj
      exact update_of_ne hj ..

theorem Kept.ensures_removeLevels {packets : Fin 5 → List QueuedPacket} (hnodup : levels.Nodup)
    (h : Kept log active origin q
      ((levels.map fun i => (packets i : Multiset QueuedPacket)).sum) extra)
    (hpending : ∀ i ∈ levels, q.Pending ssrc (packets i) i)
    (hlisted : ∀ i, i ∉ levels → q.Listed i) (hgone : ∀ i, q.packetsAt ssrc i = []) :
    Ensures (levels.foldlM (removeLevel ssrc packets) q) fun q' =>
      Kept log active origin q' 0 extra ∧ Removing q q' ∧ ∀ i, q'.Listed i := by
  induction levels generalizing q with
  | nil =>
    exact .some ⟨by simpa using h, ⟨.refl q, rfl, rfl, fun _ h => h⟩,
      fun i => hlisted i List.not_mem_nil⟩
  | cons i levels ih =>
    obtain ⟨hnotin, hnodup⟩ := List.nodup_cons.mp hnodup
    rw [List.map_cons, List.sum_cons] at h
    rw [List.foldlM_cons]
    refine (h.ensures_removeLevel (hpending i List.mem_cons_self) (hgone i)).bind
      fun q₁ ⟨hkept, hremoving, hlisted₁, hsame⟩ => ?_
    have hpackets := packetsAt_congr hremoving.streams
    refine (ih hnodup hkept ?_ ?_ fun j => by rw [hpackets, hgone]).mono
      fun q₂ ⟨hkept₂, hremoving₂, hlisted₂⟩ => ⟨hkept₂, ?_, hlisted₂⟩
    · intro j hj
      have hne : j ≠ i := fun h => hnotin (h ▸ hj)
      exact (hpending j (List.mem_cons_of_mem i hj)).congr (hsame j hne) fun other => hpackets other j
    · intro j hj
      by_cases hji : j = i
      · exact hji ▸ hlisted₁
      · exact (hlisted j fun hmem => (List.mem_cons.mp hmem).elim hji hj).congr (hsame j hji)
          fun other => hpackets other j
    · exact ⟨hremoving.toFrame.trans hremoving₂.toFrame, hremoving₂.streams.trans hremoving.streams,
        hremoving₂.top.trans hremoving.top, fun j hj => hremoving₂.emptied j (hremoving.emptied j hj)⟩

theorem Right.ensures_removePacketsForSsrc (h : Right log active origin q) (ssrc : Nat) :
    Ensures (q.removePacketsForSsrc ssrc) fun q' => Right log active origin q' ∧ Frame q q' := by
  unfold removePacketsForSsrc
  cases hfind : q.streams.find? ssrc with
  | none => exact h.kept.ensures_maybeUpdateTopPrioLevel h.listed fun top htop => h.top.before htop
  | some s =>
    have hok : s.dequeueAll.Ok q.prioLevel ssrc := { StreamQueue.Ok.create q.prioLevel ssrc 0 with }
    have hall : s.all = s.all + s.dequeueAll.all := (add_zero _).symm
    obtain ⟨hstored, hkept⟩ := h.kept.take hfind hok hall
    rw [add_zero] at hkept
    have hsum : s.all = ((List.finRange 5).map fun i => (s.packets i : Multiset QueuedPacket)).sum := by
      rw [StreamQueue.all, ← List.sum_ofFn, List.ofFn_eq_map]
    rw [hsum] at hkept
    have hpackets := q.packetsAt_setStream ssrc
    refine (hkept.ensures_removeLevels (List.nodup_finRange 5) ?_ ?_ ?_).bind
      fun q₁ ⟨hkept₁, hremoving, hlisted₁⟩ => ?_
    · intro i _
      refine ⟨(h.listed i).1, ?_, ?_⟩
      · rw [← packetsAt_of_find? hfind]
        exact (h.listed i).2 ssrc
      · intro other hother
        rw [hpackets, if_neg hother]
        exact (h.listed i).2 other
    · intro i hi
      exact absurd (List.mem_finRange i) hi
    · intro i
      rw [hpackets, if_pos rfl]
      rfl
    · refine (hkept₁.ensures_maybeUpdateTopPrioLevel hlisted₁ ?_).mono fun q₂ ⟨hright, hframe⟩ =>
        ⟨hright, ?_⟩
      · intro top htop i hi
        exact hremoving.emptied i (h.top.before (hremoving.top.symm.trans htop) i hi)
      · have hset : Frame q (q.setStream ssrc s.dequeueAll) → Frame q q₂ := fun hset =>
          hset.trans (hremoving.toFrame.trans hframe)
        refine hset ⟨rfl, rfl, rfl, rfl, rfl, rfl, ?_, by rw [hstored]; exact le_add_left _ _⟩
        intro other hother
        rw [setStream, OrdMap.find?_upsert]
        split_ifs
        · rfl
        · exact hother

/-- `Push` makes a queue for the stream and a node for the time of the packet. -/
def announced (q : PrioritizedPacketQueue) (time : Int) (ssrc : Nat) : PrioritizedPacketQueue :=
  { q with
    streams := q.streams.upsert ssrc fun stream => stream.getD (.create time)
    enqueueTimes := q.enqueueTimes ++ [(q.nextNode, time)]
    nextNode := q.nextNode + 1 }

theorem packetsAt_announced (q : PrioritizedPacketQueue) (time : Int) (ssrc other : Nat)
    (i : Fin 5) : (q.announced time ssrc).packetsAt other i = q.packetsAt other i := by
  rw [packetsAt, announced, OrdMap.find?_upsert, packetsAt]
  by_cases h : other = ssrc
  · rw [if_pos h, h]
    cases q.streams.find? ssrc <;> rfl
  · rw [if_neg h]

theorem stored_announced (q : PrioritizedPacketQueue) (time : Int) (ssrc : Nat) :
    (q.announced time ssrc).stored = q.stored := by
  have htotal := q.streams.total_upsert ssrc (fun stream => stream.getD (.create time))
    StreamQueue.all
  cases hfind : q.streams.find? ssrc with
  | none =>
    rw [hfind] at htotal
    have hzero : (StreamQueue.create time).all = 0 := rfl
    show (q.streams.upsert ssrc _).total StreamQueue.all = q.streams.total StreamQueue.all
    simpa [hzero] using htotal
  | some s =>
    rw [hfind] at htotal
    exact add_right_cancel htotal

theorem Kept.announced {record : PushRecord} (h : Kept log active origin q 0 0) :
    Kept (log ++ [record]) active origin (q.announced record.time record.packet.ssrc) 0
      {q.nextNode} := by
  obtain ⟨hbooks, hlogged, hstreams⟩ := h
  refine ⟨?_, ?_, ?_⟩
  · rw [stored_announced]
    refine { hbooks with nodes := ?_, sorted := ?_, fresh := ?_ }
    · show ((q.enqueueTimes ++ [(q.nextNode, record.time)]).map Prod.fst : Multiset Nat) = _
      rw [List.map_append, ← coe_add, hbooks.nodes, add_zero]
      rfl
    · show ((q.enqueueTimes ++ [(q.nextNode, record.time)]).map Prod.fst).Pairwise (· < ·)
      rw [List.map_append]
      refine List.pairwise_append.mpr ⟨hbooks.sorted, List.pairwise_singleton .., ?_⟩
      intro n hn m hm
      obtain ⟨e, he, rfl⟩ := List.mem_map.mp hn
      rw [List.mem_singleton.mp hm]
      exact hbooks.fresh e he
    · intro e he
      show e.1 < q.nextNode + 1
      rcases List.mem_append.mp he with he | he
      · exact (hbooks.fresh e he).trans (Nat.lt_succ_self _)
      · rw [List.mem_singleton.mp he]
        exact Nat.lt_succ_self _
  · have hold : ∀ (n : Nat) (r : PushRecord), log[n]? = some r → (log ++ [record])[n]? = some r := by
      intro n r hr
      rw [List.getElem?_append_left (List.getElem?_eq_some_iff.mp hr).1, hr]
    rw [stored_announced]
    refine ⟨?_, hlogged.clock, ?_, ?_⟩
    · rw [List.length_append, hlogged.length]
      rfl
    · intro p hp
      obtain ⟨r, hr, hrest⟩ := hlogged.packets p hp
      exact ⟨r, hold _ r hr, hrest⟩
    · intro e he
      rcases List.mem_append.mp he with he | he
      · obtain ⟨r, hr, htime⟩ := hlogged.times e he
        exact ⟨r, hold _ r hr, htime⟩
      · rw [List.mem_singleton.mp he]
        refine ⟨record, ?_, rfl⟩
        show (log ++ [record])[q.nextNode]? = some record
        rw [← hlogged.length, List.getElem?_concat_length]
  · intro other stream hfind
    show stream.Ok q.prioLevel other
    rw [PrioritizedPacketQueue.announced, OrdMap.find?_upsert] at hfind
    split_ifs at hfind with heq
    · cases hfind
      cases hssrc : q.streams.find? record.packet.ssrc with
      | none => exact .create q.prioLevel other record.time
      | some s =>
        rw [heq]
        exact hstreams _ s hssrc
    · exact hstreams other stream hfind

def joined (q : PrioritizedPacketQueue) (ssrc : Nat) (i : Fin 5) (first : Bool) :
    Fin 5 → List Nat :=
  if first then Function.update q.streamsByPrio i (q.streamsByPrio i ++ [ssrc])
  else q.streamsByPrio

theorem joined_of_ne (q : PrioritizedPacketQueue) (ssrc : Nat) {i j : Fin 5} (first : Bool)
    (h : j ≠ i) : q.joined ssrc i first j = q.streamsByPrio j := by
  unfold joined
  split_ifs
  · rw [update_of_ne h]
  · rfl

theorem Listed.joined (h : q.Listed i) (ssrc : Nat) :
    (q.joined ssrc i (q.packetsAt ssrc i).isEmpty i).Nodup ∧ ∀ other,
      other ∈ q.joined ssrc i (q.packetsAt ssrc i).isEmpty i ↔
        other = ssrc ∨ other ∈ q.streamsByPrio i := by
  unfold PrioritizedPacketQueue.joined
  cases hpackets : q.packetsAt ssrc i with
  | nil =>
    have hnotin : ssrc ∉ q.streamsByPrio i := fun hmem => (h.2 ssrc).mp hmem hpackets
    rw [List.isEmpty_nil, if_pos rfl, update_self]
    refine ⟨List.nodup_append.mpr ⟨h.1, List.nodup_singleton ssrc, ?_⟩, fun other => ?_⟩
    · intro a ha b hb hab
      exact hnotin (List.mem_singleton.mp hb ▸ hab ▸ ha)
    · rw [List.mem_append, List.mem_singleton, or_comm]
  | cons x rest =>
    have hin : ssrc ∈ q.streamsByPrio i := (h.2 ssrc).mpr (by rw [hpackets]; exact List.cons_ne_nil _ _)
    rw [List.isEmpty_cons, if_neg Bool.false_ne_true]
    refine ⟨h.1, fun other => ⟨.inr, ?_⟩⟩
    rintro (rfl | hmem)
    · exact hin
    · exact hmem

theorem Kept.ensures_enqueue (h : Kept log active origin q 0 {p.enqueueTimeIterator})
    (hfind : (q.streams.find? p.packet.ssrc).isSome) (hprio : q.prioLevel p.packet = i)
    (hzero : q.lastUpdateTime - p.enqueueTime - q.pauseTimeSum = 0)
    (hlog : ∃ record, log[p.enqueueTimeIterator]? = some record ∧ record.packet = p.packet ∧
      p.enqueueTime = record.active + origin)
    (hnode : p.enqueueTimeIterator + 1 = q.nextNode) (hlisted : ∀ j, q.Listed j) :
    Ensures (q.enqueue i p) fun q' => Kept log active origin q' 0 0 ∧ (∀ j, q'.Listed j) ∧
      q'.lastUpdateTime = q.lastUpdateTime ∧ q'.paused = q.paused ∧
      q'.streamsByPrio i ≠ [] ∧ (∀ j, j ≠ i → q'.streamsByPrio j = q.streamsByPrio j) ∧
      q'.topActivePrioLevel = if q.topActivePrioLevel.all fun top => i < top then some i
        else q.topActivePrioLevel := by
  obtain ⟨s, hs⟩ := isSome_iff_exists.mp hfind
  have hnodup := h.nodup
  have hnodes := h.books.nodes
  rw [add_zero] at hnodes
  have hlast : ∀ x ∈ q.stored, x.enqueueTimeIterator < p.enqueueTimeIterator := by
    intro x hx
    have hmem : x.enqueueTimeIterator ∈ q.stored.map QueuedPacket.enqueueTimeIterator :=
      mem_map_of_mem _ hx
    have hne : x.enqueueTimeIterator ≠ p.enqueueTimeIterator := by
      intro heq
      have hdisjoint := (nodup_add.mp hnodup).2.2
      exact disjoint_left.mp hdisjoint hmem (heq ▸ mem_singleton_self _)
    have hin : x.enqueueTimeIterator ∈ (q.enqueueTimes.map Prod.fst : Multiset Nat) := by
      rw [hnodes]
      exact mem_add.mpr (.inl hmem)
    obtain ⟨e, he, heq⟩ := List.mem_map.mp (mem_coe.mp hin)
    have := h.books.fresh e he
    omega
  have hlevel : ∀ x ∈ s.packets i, x.enqueueTimeIterator < p.enqueueTimeIterator := by
    intro x hx
    exact hlast x (mem_stored.mpr ⟨p.packet.ssrc, i, packetsAt_of_find? hs ▸ hx⟩)
  obtain ⟨hok, hall⟩ := (h.streams _ s hs).enqueuePacket rfl hprio hlevel
  have hstored : (q.setStream p.packet.ssrc (s.enqueuePacket p i).2).stored = p ::ₘ q.stored := by
    have hset := stored_setStream (s.enqueuePacket p i).2 hs
    rw [hall, add_cons, ← cons_add] at hset
    exact add_right_cancel hset
  obtain ⟨hbooks, hlogged, hstreams⟩ := h
  rw [add_zero] at hbooks hlogged
  unfold enqueue
  rw [hs]
  refine .some ⟨⟨?_, ?_, ?_⟩, ?_, rfl, rfl, ?_, ?_, rfl⟩
  · show Books _ ((q.setStream p.packet.ssrc (s.enqueuePacket p i).2).stored + 0) 0
    rw [hstored, add_zero]
    refine { hbooks with size := ?_, types := ?_, payload := ?_, times := ?_, nodes := ?_ }
    · show q.sizePackets + 1 = _
      rw [hbooks.size, card_cons]
      push_cast
      rfl
    · intro t
      show Function.update q.sizePacketsPerMediaType p.packet.packetType _ t = _
      by_cases ht : t = p.packet.packetType
      · subst ht
        rw [update_self, hbooks.types,
          countP_cons_of_pos q.stored (show p.packet.packetType = _ from rfl)]
        push_cast
        rfl
      · rw [update_of_ne ht, hbooks.types,
          countP_cons_of_neg q.stored (show ¬ p.packet.packetType = t from Ne.symm ht)]
    · show q.sizePayload + p.packetSize = _
      rw [hbooks.payload, map_cons, sum_cons, add_comm]
    · show q.queueTimeSum = ((p ::ₘ q.stored).map fun x =>
        q.lastUpdateTime - x.enqueueTime - q.pauseTimeSum).sum
      rw [hbooks.times, map_cons, sum_cons, hzero, zero_add]
    · show (q.enqueueTimes.map Prod.fst : Multiset Nat) = _
      rw [hnodes, map_cons, add_zero, add_comm, singleton_add]
  · show Logged _ _ _ _ ((q.setStream p.packet.ssrc (s.enqueuePacket p i).2).stored + 0)
    rw [hstored, add_zero]
    refine ⟨hlogged.length, hlogged.clock, ?_, hlogged.times⟩
    intro x hx
    rcases mem_cons.mp hx with rfl | hx
    · exact hlog
    · exact hlogged.packets x hx
  · intro other stream hother
    change (q.streams.upsert p.packet.ssrc fun _ => (s.enqueuePacket p i).2).find? other = _ at hother
    show stream.Ok q.prioLevel other
    rw [OrdMap.find?_upsert] at hother
    split_ifs at hother with heq
    · cases hother
      rw [heq]
      exact hok
    · exact hstreams other stream hother
  · intro j
    have hpackets := q.packetsAt_setStream p.packet.ssrc
    show (q.joined p.packet.ssrc i (s.packets i).isEmpty j).Nodup ∧ ∀ other,
      other ∈ q.joined p.packet.ssrc i (s.packets i).isEmpty j ↔
        (q.setStream p.packet.ssrc (s.enqueuePacket p i).2).packetsAt other j ≠ []
    rw [← packetsAt_of_find? hs]
    by_cases hj : j = i
    · subst hj
      obtain ⟨hnodup, hmem⟩ := (hlisted j).joined p.packet.ssrc
      refine ⟨hnodup, fun other => ?_⟩
      rw [hmem, hpackets]
      by_cases hother : other = p.packet.ssrc
      · rw [if_pos hother]
        simp [hother, StreamQueue.enqueuePacket]
      · rw [if_neg hother, or_iff_right hother]
        exact (hlisted j).2 other
    · rw [joined_of_ne _ _ _ hj]
      refine ⟨(hlisted j).1, fun other => ?_⟩
      rw [(hlisted j).2 other, hpackets]
      by_cases hother : other = p.packet.ssrc
      · rw [if_pos hother, hother, packetsAt_of_find? hs, StreamQueue.enqueuePacket]
        dsimp only
        rw [update_of_ne hj]
      · rw [if_neg hother]
  · show q.joined p.packet.ssrc i (s.packets i).isEmpty i ≠ []
    rw [← packetsAt_of_find? hs]
    exact List.ne_nil_of_mem ((((hlisted i).joined p.packet.ssrc).2 p.packet.ssrc).mpr (.inl rfl))
  · intro j hj
    exact joined_of_ne q _ _ hj

theorem packets_nil_of_isEmpty (h : s.isEmpty = true) (i : Fin 5) : s.packets i = [] := by
  have := List.all_eq_true.mp h i (List.mem_finRange i)
  simpa using this

theorem Right.cullStreams (h : Right log active origin q) (time : Int) :
    Right log active origin (q.cullStreams time) := by
  unfold PrioritizedPacketQueue.cullStreams
  split_ifs with hlate
  · generalize hkeep : (fun ssrc => !(q.streams.find? ssrc).any fun stream =>
      stream.isEmpty && decide (stream.lastEnqueueTime + 500000 < time)) = keep
    have hempty : ∀ ssrc s, q.streams.find? ssrc = some s → keep ssrc = false →
        ∀ i, s.packets i = [] := by
      intro ssrc s hfind hdropped
      rw [← hkeep] at hdropped
      dsimp only at hdropped
      rw [hfind] at hdropped
      have hboth : s.isEmpty = true ∧ s.lastEnqueueTime + 500000 < time := by
        simpa using hdropped
      exact packets_nil_of_isEmpty hboth.1
    have hpackets : ∀ ssrc i, packetsAt { q with
        streams := q.streams.filterKeys keep
        lastCullingTime := time } ssrc i = q.packetsAt ssrc i := by
      intro ssrc i
      unfold packetsAt
      dsimp only
      rw [OrdMap.find?_filterKeys]
      cases hfind : q.streams.find? ssrc with
      | none => split_ifs <;> rfl
      | some s =>
        cases hk : keep ssrc with
        | true => rfl
        | false => exact (hempty ssrc s hfind hk i).symm
    have hstored : stored { q with
        streams := q.streams.filterKeys keep
        lastCullingTime := time } = q.stored := by
      apply q.streams.total_filterKeys
      intro ssrc s hfind hdropped
      simp [StreamQueue.all, hempty ssrc s hfind hdropped]
    refine ⟨⟨?_, ?_, ?_⟩, ?_, h.top⟩
    · rw [hstored]
      exact { h.kept.books with }
    · rw [hstored]
      exact { h.kept.logged with }
    · intro ssrc s hfind
      change (q.streams.filterKeys keep).find? ssrc = some s at hfind
      rw [OrdMap.find?_filterKeys] at hfind
      split_ifs at hfind
      exact h.kept.streams ssrc s hfind
    · intro i
      exact (h.listed i).congr rfl fun ssrc => hpackets ssrc i
  · exact h

theorem cullStreams_update (q : PrioritizedPacketQueue) (time : Int) :
    (q.cullStreams time).lastUpdateTime = q.lastUpdateTime := by
  unfold cullStreams
  split_ifs <;> rfl

theorem cullStreams_paused (q : PrioritizedPacketQueue) (time : Int) :
    (q.cullStreams time).paused = q.paused := by
  unfold cullStreams
  split_ifs <;> rfl

theorem TopRight.enqueued (h : q.TopRight) (htop : q'.topActivePrioLevel =
      if q.topActivePrioLevel.all fun top => i < top then some i else q.topActivePrioLevel)
    (hne : q'.streamsByPrio i ≠ [])
    (hothers : ∀ j, j ≠ i → q'.streamsByPrio j = q.streamsByPrio j) : q'.TopRight := by
  unfold TopRight at h ⊢
  rw [htop]
  cases hsome : q.topActivePrioLevel with
  | none =>
    rw [hsome] at h
    exact ⟨hne, fun j hj => (hothers j hj.ne).trans (h j)⟩
  | some top =>
    rw [hsome] at h
    simp only [all_some, decide_eq_true_eq]
    by_cases hlt : i < top
    · rw [if_pos hlt]
      exact ⟨hne, fun j hj => (hothers j hj.ne).trans (h.2 j (hj.trans hlt))⟩
    · rw [if_neg hlt]
      have hle := not_lt.mp hlt
      refine ⟨?_, fun j hj => (hothers j (hj.trans_le hle).ne).trans (h.2 j hj)⟩
      by_cases htopi : top = i
      · exact htopi ▸ hne
      · rw [hothers top htopi]
        exact h.1

theorem Right.ensures_push (packet : RtpPacketToSend) {time : Int}
    (h : Right log active origin q) (htime : q.lastUpdateTime ≤ time) :
    Ensures (q.push time packet) fun q' =>
      let now := active + if q.paused then 0 else time - q.lastUpdateTime
      Right (log ++ [⟨packet, time, now⟩]) now origin q' ∧ q'.lastUpdateTime = time ∧
        q'.paused = q.paused := by
  generalize hnow : (active + if q.paused then 0 else time - q.lastUpdateTime) = now
  let record : PushRecord := ⟨packet, time, now⟩
  have hkept₀ : Kept (log ++ [record]) active origin (q.announced time packet.ssrc) 0
    {q.nextNode} := h.kept.announced
  have hlisted₀ : ∀ i, (q.announced time packet.ssrc).Listed i := fun i =>
    (h.listed i).congr rfl fun ssrc => packetsAt_announced ..
  unfold push
  refine (hkept₀.ensures_purge (hlisted₀ (q.prioLevel packet))).bind fun q₁ ⟨hkept₁, hpurged⟩ => ?_
  refine (hkept₁.ensures_updateAverageQueueTime (hpurged.update.symm ▸ htime)).bind
    fun q₂ ⟨hkept₂, hupdate, hpaused, hstreams, hbyPrio, htop, hprioritize, hnode⟩ => ?_
  have hnow₂ : (active + if q₁.paused then 0 else time - q₁.lastUpdateTime) = now := by
    rw [hpurged.paused, hpurged.update]
    exact hnow
  rw [hnow₂] at hkept₂
  have hclock := hkept₂.logged.clock
  rw [hupdate] at hclock
  have hlisted₂ : ∀ i, q₂.Listed i := fun i =>
    (hpurged.listed_all hlisted₀ i).congr (by rw [hbyPrio]) fun ssrc => packetsAt_congr hstreams ssrc i
  have hpresent : (q₂.streams.find? packet.ssrc).isSome := by
    rw [hstreams]
    apply hpurged.present
    rw [announced, OrdMap.find?_upsert_self]
    rfl
  have hprio : q₂.prioLevel packet = q.prioLevel packet := by
    rw [prioLevel, hprioritize, hpurged.prioritize]
    rfl
  have hlog : (log ++ [record])[q.nextNode]? = some record := by
    rw [← h.kept.logged.length, List.getElem?_concat_length]
  refine (Kept.ensures_enqueue (p := ⟨packet, time - q₂.pauseTimeSum, q.nextNode⟩) hkept₂ hpresent
    hprio ?_ ⟨record, hlog, rfl, hclock⟩ ?_ hlisted₂).bind
    fun q₃ ⟨hkept₃, hlisted₃, hupdate₃, hpaused₃, hne, hsame, htop₃⟩ => .some ?_
  · show q₂.lastUpdateTime - (time - q₂.pauseTimeSum) - q₂.pauseTimeSum = 0
    omega
  · show q.nextNode + 1 = q₂.nextNode
    rw [hnode, hpurged.node]
    rfl
  · have hothers : ∀ j, j ≠ q.prioLevel packet → q₃.streamsByPrio j = q.streamsByPrio j := by
      intro j hj
      rw [hsame j hj, hbyPrio, hpurged.byPrio j hj]
      rfl
    have hright : Right (log ++ [record]) now origin q₃ := by
      refine ⟨hkept₃, hlisted₃, ?_⟩
      have htop₀ : q₂.topActivePrioLevel = q.topActivePrioLevel := htop.trans hpurged.top
      rw [htop₀] at htop₃
      exact h.top.enqueued htop₃ hne hothers
    refine ⟨hright.cullStreams time, ?_, ?_⟩
    · rw [cullStreams_update, hupdate₃, hupdate]
    · rw [cullStreams_paused, hpaused₃, hpaused, hpurged.paused]
      rfl

end PrioritizedPacketQueue

/-! Runs. -/

/-- A queue with the calls so far: the time of the last one, whether it is paused, the time that
passed unpaused, and the packets that were pushed. -/
structure QueueRun where
  queue : PrioritizedPacketQueue
  now : Int
  paused : Bool
  active : Int
  origin : Int
  log : List PushRecord

inductive QueueOp
  | push (time : Int) (packet : RtpPacketToSend)
  | pop
  | removePacketsForSsrc (ssrc : Nat)
  | updateAverageQueueTime (now : Int)
  | setPauseState (paused : Bool) (now : Int)

namespace QueueRun

open PrioritizedPacketQueue

variable {r : QueueRun}

def activeAt (r : QueueRun) (time : Int) : Int := r.active + if r.paused then 0 else time - r.now

def step (r : QueueRun) : QueueOp → Option QueueRun
  | .push time packet => (r.queue.push time packet).map fun queue =>
    { r with
      queue
      now := time
      active := r.activeAt time
      log := r.log ++ [⟨packet, time, r.activeAt time⟩] }
  | .pop => r.queue.pop.map fun result => { r with queue := result.2 }
  | .removePacketsForSsrc ssrc => (r.queue.removePacketsForSsrc ssrc).map fun queue =>
    { r with queue }
  | .updateAverageQueueTime now => (r.queue.updateAverageQueueTime now).map fun queue =>
    { r with queue, now, active := r.activeAt now }
  | .setPauseState paused now => (r.queue.setPauseState paused now).map fun queue =>
    { r with queue, now, active := r.activeAt now, paused }

def ordered (r : QueueRun) : QueueOp → Prop
  | .push time _ => r.now ≤ time
  | .updateAverageQueueTime now => r.now ≤ now
  | .setPauseState _ now => r.now ≤ now
  | _ => True

structure Right (r : QueueRun) : Prop where
  queue : r.queue.Right r.log r.active r.origin
  now : r.queue.lastUpdateTime = r.now
  paused : r.queue.paused = r.paused

theorem Right.activeAt (h : r.Right) (time : Int) :
    (r.active + if r.queue.paused then 0 else time - r.queue.lastUpdateTime) = r.activeAt time := by
  rw [h.now, h.paused, QueueRun.activeAt]

theorem Right.update (h : r.Right) {time : Int} (htime : r.now ≤ time) :
    Ensures (r.queue.updateAverageQueueTime time) fun queue =>
      queue.Right r.log (r.activeAt time) r.origin ∧ queue.lastUpdateTime = time ∧
        queue.paused = r.queue.paused := by
  refine (h.queue.kept.ensures_updateAverageQueueTime (h.now.trans_le htime)).mono
    fun q' ⟨hkept, hupdate, hpaused, hstreams, hbyPrio, htop, _, _⟩ =>
      ⟨⟨?_, ?_, ?_⟩, hupdate, hpaused⟩
  · rw [← h.activeAt]
    exact hkept
  · intro i
    exact (h.queue.listed i).congr (by rw [hbyPrio]) fun ssrc => packetsAt_congr hstreams ssrc i
  · have hright := h.queue.top
    unfold TopRight at hright ⊢
    rw [htop, hbyPrio]
    exact hright

theorem Right.ensures_pop (h : r.Right) :
    Ensures r.queue.pop fun result => result.2.Right r.log r.active r.origin ∧
      Frame r.queue result.2 := by
  by_cases hsize : r.queue.sizePackets = 0
  · rw [pop, if_pos hsize]
    exact .some ⟨h.queue, .refl _⟩
  · exact (h.queue.ensures_pop hsize).mono fun result hresult => ⟨hresult.1, hresult.2.1⟩

theorem Right.step (h : r.Right) {op : QueueOp} (hop : r.ordered op) :
    Ensures (r.step op) Right := by
  cases op with
  | push time packet =>
    obtain ⟨q', hq', hright, hupdate, hpaused⟩ := h.queue.ensures_push packet
      (h.now.trans_le hop)
    rw [h.activeAt] at hright
    exact ⟨_, by rw [QueueRun.step, hq']; rfl, hright, hupdate, hpaused.trans h.paused⟩
  | pop =>
    obtain ⟨result, hq', hright, hframe⟩ := h.ensures_pop
    exact ⟨_, by rw [QueueRun.step, hq']; rfl, hright, hframe.update.trans h.now,
      hframe.paused.trans h.paused⟩
  | removePacketsForSsrc ssrc =>
    obtain ⟨q', hq', hright, hframe⟩ := h.queue.ensures_removePacketsForSsrc ssrc
    exact ⟨_, by rw [QueueRun.step, hq']; rfl, hright, hframe.update.trans h.now,
      hframe.paused.trans h.paused⟩
  | updateAverageQueueTime now =>
    obtain ⟨q', hq', hright, hupdate, hpaused⟩ := h.update hop
    exact ⟨_, by rw [QueueRun.step, hq']; rfl, hright, hupdate, hpaused.trans h.paused⟩
  | setPauseState paused now =>
    obtain ⟨q', hq', hright, hupdate, -⟩ := h.update hop
    refine ⟨_, by rw [QueueRun.step, setPauseState, hq']; rfl, ?_, hupdate, rfl⟩
    exact ⟨⟨{ hright.kept.books with }, { hright.kept.logged with }, hright.kept.streams⟩,
      hright.listed, hright.top⟩

theorem Right.initial (time : Int) (prioritize : Bool) (ttl : PacketQueueTTL) :
    Right ⟨.create time prioritize ttl, time, false, 0, time, []⟩ := by
  have hstored : (create time prioritize ttl).stored = 0 := rfl
  refine ⟨⟨⟨?_, ?_, ?_⟩, ?_, ?_⟩, rfl, rfl⟩
  · rw [hstored]
    exact ⟨rfl, fun _ => rfl, rfl, rfl, rfl, List.Pairwise.nil, nofun⟩
  · rw [hstored]
    exact ⟨rfl, by simp [create], nofun, nofun⟩
  · intro ssrc stream hfind
    cases hfind
  · intro i
    exact ⟨List.nodup_nil, fun ssrc => by simp [create, packetsAt]⟩
  · intro i
    rfl

def pushTime (r : QueueRun) (p : QueuedPacket) : Int :=
  (r.log[p.enqueueTimeIterator]?.map PushRecord.time).getD 0

def waited (r : QueueRun) (p : QueuedPacket) : Int :=
  r.active - (r.log[p.enqueueTimeIterator]?.map PushRecord.active).getD 0

structure Booked (r : QueueRun) : Prop where
  size : r.queue.sizePackets = r.queue.stored.card
  types : ∀ t, r.queue.sizePacketsPerMediaType t =
    r.queue.stored.countP fun p => p.packet.packetType = t
  payload : r.queue.sizePayload = (r.queue.stored.map QueuedPacket.packetSize).sum
  pushed : ∀ p ∈ r.queue.stored,
    r.log[p.enqueueTimeIterator]?.map PushRecord.packet = some p.packet
  enqueueTimes : (r.queue.enqueueTimes : Multiset (Nat × Int)) =
    r.queue.stored.map fun p => (p.enqueueTimeIterator, r.pushTime p)
  inPushOrder : r.queue.enqueueTimes.Pairwise fun a b => a.1 < b.1
  listed : ∀ i, r.queue.Listed i
  top : r.queue.TopRight
  queueTimeSum : r.queue.queueTimeSum = (r.queue.stored.map r.waited).sum
  queueTimeSum_empty : r.queue.sizePackets = 0 → r.queue.queueTimeSum = 0

theorem Right.enqueueTimes (h : r.Right) : (r.queue.enqueueTimes : Multiset (Nat × Int)) =
      r.queue.stored.map fun p => (p.enqueueTimeIterator, r.pushTime p) := by
  have hnodes := h.queue.kept.books.nodes
  rw [add_zero, add_zero] at hnodes
  let withTime : Nat → Nat × Int := fun n => (n, (r.log[n]?.map PushRecord.time).getD 0)
  have hentry : ∀ e ∈ r.queue.enqueueTimes, withTime e.1 = e := by
    intro e he
    obtain ⟨record, hrecord, htime⟩ := h.queue.kept.logged.times e he
    simp only [withTime, hrecord, map_some, getD_some, htime]
  have hmap := congrArg (Multiset.map withTime) hnodes
  rw [Multiset.map_coe, List.map_map, Multiset.map_map] at hmap
  have hself : r.queue.enqueueTimes.map (withTime ∘ Prod.fst) = r.queue.enqueueTimes :=
    (List.map_congr_left hentry).trans (List.map_id _)
  rw [hself] at hmap
  exact hmap

theorem Right.waited_eq (h : r.Right) {p : QueuedPacket} (hp : p ∈ r.queue.stored) :
    r.waited p = r.queue.lastUpdateTime - p.enqueueTime - r.queue.pauseTimeSum := by
  obtain ⟨record, hrecord, -, htime⟩ := h.queue.kept.logged.packets p (by rwa [add_zero])
  have hclock := h.queue.kept.logged.clock
  simp only [waited, hrecord, map_some, getD_some]
  omega

theorem Right.booked (h : r.Right) : r.Booked := by
  have hbooks := h.queue.kept.books
  rw [add_zero] at hbooks
  refine ⟨hbooks.size, hbooks.types, hbooks.payload, ?_, h.enqueueTimes,
    List.pairwise_map.mp hbooks.sorted, h.queue.listed, h.queue.top, ?_, ?_⟩
  · intro p hp
    obtain ⟨record, hrecord, hpacket, -⟩ := h.queue.kept.logged.packets p (by rwa [add_zero])
    rw [hrecord, map_some, hpacket]
  · rw [hbooks.times]
    congr 1
    exact map_congr rfl fun p hp => (h.waited_eq hp).symm
  · intro hsize
    rw [hbooks.times, h.queue.kept.sizePackets_eq_zero_iff.mp hsize]
    rfl

/-- `Pop` returns the first packet of a stream at the highest priority, and nothing only when
nothing is stored. -/
def PopsLeading (r : QueueRun) : Prop :=
  (r.queue.sizePackets = 0 → r.queue.pop = some (none, r.queue)) ∧
    (r.queue.sizePackets ≠ 0 → ∃ p q', Leading r.queue p ∧
      r.queue.pop = some (some p.packet, q') ∧ p ∉ q'.stored)

theorem Right.popsLeading (h : r.Right) : r.PopsLeading := by
  refine ⟨fun hsize => if_pos hsize, fun hsize => ?_⟩
  obtain ⟨⟨packet, q'⟩, hpop, -, -, p, hleading, hpacket, hout⟩ := h.queue.ensures_pop hsize
  change packet = some p.packet at hpacket
  exact ⟨p, q', hleading, hpacket ▸ hpop, hout⟩

end QueueRun

def queueMachine : Machine QueueRun QueueOp where
  initial r := ∃ time prioritize ttl,
    r = ⟨.create time prioritize ttl, time, false, 0, time, []⟩
  enabled := QueueRun.ordered
  step := QueueRun.step

/-- In every run the books are right, the queue pops as it should, and no check fails. -/
theorem packetQueue_booked {r : QueueRun} (h : queueMachine.Reachable r) :
    r.Booked ∧ r.PopsLeading ∧ ∀ op : QueueOp, r.ordered op → (r.step op).isSome := by
  obtain ⟨hright, hstep⟩ := h.invariant (I := QueueRun.Right)
    (by
      rintro r ⟨time, prioritize, ttl, rfl⟩
      exact .initial time prioritize ttl)
    fun r op hr hop => hr.step hop
  refine ⟨hright.booked, hright.popsLeading, fun op hop => ?_⟩
  obtain ⟨r', hr', -⟩ := hstep op hop
  exact isSome_of_eq_some hr'

theorem packetQueue_booked_pushed :
    ∃ r, queueMachine.Reachable r ∧ r.queue.sizePackets = 1 ∧ r.Booked := by
  have h0 : queueMachine.Reachable
      ⟨.create 0 false ⟨none, none, some 5⟩, 0, false, 0, 0, []⟩ := .initial ⟨0, false, _, rfl⟩
  have hop : queueMachine.enabled ⟨.create 0 false ⟨none, none, some 5⟩, 0, false, 0, 0, []⟩
      (.push 3 ⟨7, .kVideo, none, 100, 0, true⟩) := show (0 : Int) ≤ 3 by decide
  have h := h0.step hop rfl
  exact ⟨_, h, rfl, (packetQueue_booked h).1⟩

end WebRtc.Pacing
