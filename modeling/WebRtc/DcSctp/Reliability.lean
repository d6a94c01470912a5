import WebRtc.DcSctp.ForwardTsn
import WebRtc.DcSctp.SendPath

/-! Messages without limits are not abandoned, as long as the counter of retransmissions stays
below the value that stands for "no limit". -/

namespace WebRtc.DcSctp

open RetransmissionQueue Option BitVec

open OutstandingData (Item Evolves Exhausted Expired)

def OutstandingData.Item.Reliable (item : Item) : Prop :=
  item.maxRetransmissions = .noLimit ∧ item.expiresAt = .plusInfinity

instance (item : Item) : Decidable item.Reliable := inferInstanceAs (Decidable (_ ∧ _))

def MessageAttributes.Reliable (partialReliability : Bool) (attributes : MessageAttributes) : Prop :=
  partialReliability = false ∨
    attributes.maxRetransmissions = .noLimit ∧ attributes.expiresAt = .plusInfinity

namespace SendState

variable {partialReliability : Bool} {reliable : OutgoingMessageId → Prop} {F : Item → Prop}
  {st st' : SendState}

structure Spares (partialReliability : Bool) (reliable : OutgoingMessageId → Prop) (st : SendState) :
    Prop where
  live : ∀ item ∈ st.outstanding.outstandingData, item.Reliable → ¬ item.isAbandoned
  outstanding : ∀ item ∈ st.outstanding.outstandingData, item.Reliable ↔ reliable item.messageId
  queued : ∀ id, ∀ item ∈ (st.queue.streams id).items,
    item.attributes.Reliable partialReliability ↔ reliable item.messageId
  outstandingFresh : ∀ item ∈ st.outstanding.outstandingData, item.messageId < st.queue.nextMessageId
  queuedFresh : ∀ id, ∀ item ∈ (st.queue.streams id).items, item.messageId < st.queue.nextMessageId

def Safe (F : Item → Prop) (st : SendState) : Prop :=
  ∀ item ∈ st.outstanding.outstandingData, item.Reliable → ¬ F item.core

theorem reliable_core {a b : Item} (h : a.core = b.core) : a.Reliable ↔ b.Reliable := by
  have hmax : a.core.maxRetransmissions = b.core.maxRetransmissions := by rw [h]
  have hexp : a.core.expiresAt = b.core.expiresAt := by rw [h]
  exact and_congr (Eq.congr hmax rfl) (Eq.congr hexp rfl)

theorem not_reliable_messageEnd {a b : Item} (h : a.core = (OutstandingData.messageEnd b).core) :
    ¬ a.Reliable := by
  rw [reliable_core h]
  rintro ⟨hmax, -⟩
  exact absurd hmax (by simp [OutstandingData.messageEnd, Item.new, Item.ack, MaxRetransmits.noLimit])

theorem Spares.shed (h : Spares partialReliability reliable st) {dropped : List QueuedMessage}
    {v : SendQueueView} (hv : SendQueueView.Sheds dropped st.queue v) :
    Spares partialReliability reliable { st with queue := v } where
  live := h.live
  outstanding := h.outstanding
  queued id item' h' := by
    obtain ⟨item, hm, hs⟩ := hv.messages id item' h'
    rw [hs.1, hs.2]
    exact h.queued id item hm
  outstandingFresh item hm := by
    rw [hv.messageId]
    exact h.outstandingFresh item hm
  queuedFresh id item' h' := by
    obtain ⟨item, hm, hs⟩ := hv.messages id item' h'
    rw [hs.1, hv.messageId]
    exact h.queuedFresh id item hm

variable {od : OutstandingData}

theorem Spares.evolve (h : Spares partialReliability reliable st) (hs : Safe F st)
    (he : Evolves F st.outstanding od) :
    Spares partialReliability reliable { st with outstanding := od } ∧
      Safe F { st with outstanding := od } := by
  have hcases : ∀ b ∈ od.outstandingData,
      (∃ a ∈ st.outstanding.outstandingData, OutstandingData.Later F st.outstanding.outstandingData a b) ∨
        ∃ x ∈ st.outstanding.outstandingData, F x.core ∧
          b.core = (OutstandingData.messageEnd x).core := by
    intro b hb
    obtain ⟨t, ht⟩ := OutstandingData.getItem_of_mem hb
    rcases he.origin ht with ⟨a, ha, hl⟩ | ⟨-, hx⟩
    · exact .inl ⟨a, OutstandingData.mem_of_getItem ha, hl⟩
    · exact .inr hx
  refine ⟨⟨fun b hb hr hab => ?_, fun b hb => ?_, h.queued, fun b hb => ?_, h.queuedFresh⟩,
    fun b hb hr => ?_⟩
  · rcases hcases b hb with ⟨a, ha, hl⟩ | ⟨x, -, -, hcore⟩
    · have hra := (reliable_core hl.core).mp hr
      rcases hl.abandoned hab with haa | ⟨x, hx, hsame, hf⟩
      · exact h.live a ha hra haa
      · have hrx : x.Reliable := by
          rw [h.outstanding x hx, hsame.2]
          exact (h.outstanding a ha).mp hra
        exact hs x hx hrx hf
    · exact not_reliable_messageEnd hcore hr
  · rcases hcases b hb with ⟨a, ha, hl⟩ | ⟨x, hx, hf, hcore⟩
    · rw [reliable_core hl.core, OutstandingData.messageId_eq_of_core hl.core]
      exact h.outstanding a ha
    · have hid : b.messageId = x.messageId :=
        (OutstandingData.messageId_eq_of_core hcore).trans rfl
      rw [hid, ← h.outstanding x hx]
      exact iff_of_false (not_reliable_messageEnd hcore) fun hr => hs x hx hr hf
  · rcases hcases b hb with ⟨a, ha, hl⟩ | ⟨x, hx, -, hcore⟩
    · rw [OutstandingData.messageId_eq_of_core hl.core]
      exact h.outstandingFresh a ha
    · have hid : b.messageId = x.messageId :=
        (OutstandingData.messageId_eq_of_core hcore).trans rfl
      rw [hid]
      exact h.outstandingFresh x hx
  · rcases hcases b hb with ⟨a, ha, hl⟩ | ⟨x, -, -, hcore⟩
    · rw [hl.core]
      exact hs a ha ((reliable_core hl.core).mp hr)
    · exact absurd hr (not_reliable_messageEnd hcore)

theorem Spares.of_subset (h : Spares partialReliability reliable st)
    (log : List RetransmissionQueue.Event)
    (hsub : ∀ b ∈ od.outstandingData, ∃ a ∈ st.outstanding.outstandingData,
      (b.Reliable ↔ a.Reliable) ∧ b.messageId = a.messageId ∧ (b.isAbandoned → a.isAbandoned)) :
    Spares partialReliability reliable ⟨od, st.queue, log⟩ where
  live b hb hr hab := by
    obtain ⟨a, ha, hra, -, hab'⟩ := hsub b hb
    exact h.live a ha (hra.mp hr) (hab' hab)
  outstanding b hb := by
    obtain ⟨a, ha, hra, hid, -⟩ := hsub b hb
    rw [hra, hid]
    exact h.outstanding a ha
  queued := h.queued
  outstandingFresh b hb := by
    obtain ⟨a, ha, -, hid, -⟩ := hsub b hb
    rw [hid]
    exact h.outstandingFresh a ha
  queuedFresh := h.queuedFresh

theorem mem_resends {od od' : OutstandingData} (h : OutstandingData.Resends od od') {b : Item}
    (hb : b ∈ od'.outstandingData) :
    ∃ a ∈ od.outstandingData, b = a ∨ b = a.markAsRetransmitted := by
  obtain ⟨t, ht⟩ := OutstandingData.getItem_of_mem hb
  cases ha : od.getItem t with
  | none =>
    rw [h.none t ha] at ht
    cases ht
  | some a =>
    refine ⟨a, OutstandingData.mem_of_getItem ha, ?_⟩
    rcases h.some t a ha with hb' | ⟨-, hb'⟩
    · exact .inl (Option.some.inj (ht.symm.trans hb'))
    · exact .inr (Option.some.inj (ht.symm.trans hb'))

variable {chunk : SendQueue.DataToSend}

theorem reliable_newItem {attributes : MessageAttributes}
    (hm : chunk.maxRetransmissions = attributes.maxRetransmissions)
    (he : chunk.expiresAt = attributes.expiresAt) (now : Timestamp) :
    (newItem partialReliability now chunk).Reliable ↔ attributes.Reliable partialReliability := by
  cases partialReliability <;>
    simp [newItem, Item.new, Item.Reliable, MessageAttributes.Reliable, hm, he]

section

variable (h : Spares partialReliability reliable st)
include h

theorem Spares.send {sent : List QueuedMessage} {v : SendQueueView}
    (hs : SendQueueView.Sends sent chunk st.queue v) (now : Timestamp)
    (log : List RetransmissionQueue.Event) : Spares partialReliability reliable
      ⟨st.outstanding.pushBack (newItem partialReliability now chunk), v, log⟩ := by
  obtain ⟨id, origin, horigin, hid, hmax, hexp⟩ := hs.origin
  have hmem : ∀ b ∈ (st.outstanding.pushBack (newItem partialReliability now chunk)).outstandingData,
      b ∈ st.outstanding.outstandingData ∨ b = newItem partialReliability now chunk := by
    intro b hb
    simpa [OutstandingData.pushBack] using hb
  refine ⟨fun b hb hr => ?_, fun b hb => ?_, fun j item' h' => ?_, fun b hb => ?_, fun j item' h' => ?_⟩
  · rcases hmem b hb with hb | rfl
    · exact h.live b hb hr
    · simp [newItem, Item.new, Item.isAbandoned]
  · rcases hmem b hb with hb | rfl
    · exact h.outstanding b hb
    · rw [reliable_newItem hmax hexp now, h.queued id origin horigin, ← hid]
      rfl
  · obtain ⟨item, hm, hsame⟩ := hs.messages j item' h'
    rw [hsame.1, hsame.2]
    exact h.queued j item hm
  · show b.messageId < v.nextMessageId
    rw [hs.messageId]
    rcases hmem b hb with hb | rfl
    · exact h.outstandingFresh b hb
    · show chunk.messageId < _
      rw [hid]
      exact h.queuedFresh id origin horigin
  · obtain ⟨item, hm, hsame⟩ := hs.messages j item' h'
    show item'.messageId < v.nextMessageId
    rw [hsame.1, hs.messageId]
    exact h.queuedFresh j item hm

theorem Spares.step (hs : Safe F st)
    (hnew : ∀ now chunk, (newItem partialReliability now chunk).Reliable →
      ¬ F (newItem partialReliability now chunk)) (hstep : Step partialReliability F st st') :
    Spares partialReliability reliable st' ∧ Safe F st' := by
  cases hstep with
  | move he hv =>
    obtain ⟨h', hs'⟩ := h.evolve hs he
    exact ⟨h'.shed hv, hs'⟩
  | @resend od od' v log hF hr =>
    refine ⟨h.of_subset log fun b hb => ?_, fun b hb hrel hf => ?_⟩
    · obtain ⟨a, ha, rfl | rfl⟩ := mem_resends hr hb
      · exact ⟨b, ha, .rfl, rfl, id⟩
      · exact ⟨a, ha, .rfl, rfl, fun hab => absurd hab (by simp [Item.markAsRetransmitted,
          Item.isAbandoned])⟩
    · obtain ⟨a, ha, rfl | rfl⟩ := mem_resends hr hb
      · exact hs b ha hrel hf
      · exact hs a ha hrel (hF a hf)
  | ack hi hi' hacked =>
    have hmem : ∀ b ∈ _, b ∈ _ := fun b hb => hacked.data ▸ List.mem_append_right _ hb
    exact ⟨h.of_subset _ fun b hb => ⟨b, hmem b hb, .rfl, rfl, id⟩, fun b hb => hs b (hmem b hb)⟩
  | @send od od' v v' v'' log log' sent dropped now chunk hsends he hv hl =>
    have hsafe : Safe F ⟨od.pushBack (newItem partialReliability now chunk), v', log'⟩ := by
      intro b hb hr
      rcases List.mem_append.mp hb with hb | hb
      · exact hs b hb hr
      · rw [List.mem_singleton.mp hb] at hr ⊢
        exact hnew now chunk hr
    obtain ⟨h', hs'⟩ := (h.send hsends now log').evolve hsafe he
    exact ⟨h'.shed hv, hs'⟩

theorem Spares.steps (hs : Safe F st)
    (hnew : ∀ now chunk, (newItem partialReliability now chunk).Reliable →
      ¬ F (newItem partialReliability now chunk))
    (hsteps : Relation.ReflTransGen (Step partialReliability F) st st') :
    Spares partialReliability reliable st' := by
  have hall : Spares partialReliability reliable st' ∧ Safe F st' := by
    induction hsteps with
    | refl => exact ⟨h, hs⟩
    | tail _ hstep ih => exact ih.1.step ih.2 hnew hstep
  exact hall.1

end

theorem toNat_nextId {n : OutgoingMessageId} (hn : n ≠ BitVec.allOnes 32) :
    (n + 1).toNat = n.toNat + 1 := by
  have hne : n.toNat ≠ 2 ^ 32 - 1 := fun he => hn (eq_of_toNat_eq (by simpa using he))
  have hlt := n.isLt
  rw [toNat_add, show (1 : OutgoingMessageId).toNat = 1 from rfl]
  omega

theorem Spares.enqueue (h : Spares partialReliability reliable st)
    (hn : st.queue.nextMessageId ≠ BitVec.allOnes 32) (message : DcSctpMessage)
    (attributes : MessageAttributes) :
    Spares partialReliability
      (fun id => if id = st.queue.nextMessageId then attributes.Reliable partialReliability
        else reliable id)
      { st with queue := st.queue.enqueue message attributes } where
  live := h.live
  outstanding item hm := by
    rw [if_neg (ne_of_lt (h.outstandingFresh item hm))]
    exact h.outstanding item hm
  queued id item hm := by
    rcases SendQueueView.messages_enqueue _ _ _ hm with hm | ⟨hid, hattr⟩
    · rw [if_neg (ne_of_lt (h.queuedFresh id item hm))]
      exact h.queued id item hm
    · rw [if_pos hid, hattr]
  outstandingFresh item hm := by
    have hlt := lt_def.mp (h.outstandingFresh item hm)
    refine lt_def.mpr ?_
    rw [show (st.queue.enqueue message attributes).nextMessageId = st.queue.nextMessageId + 1 from rfl,
      toNat_nextId hn]
    omega
  queuedFresh id item hm := by
    have hle : item.messageId.toNat ≤ st.queue.nextMessageId.toNat := by
      rcases SendQueueView.messages_enqueue _ _ _ hm with hm | ⟨hid, -⟩
      · exact (lt_def.mp (h.queuedFresh id item hm)).le
      · rw [hid]
    refine lt_def.mpr ?_
    rw [show (st.queue.enqueue message attributes).nextMessageId = st.queue.nextMessageId + 1 from rfl,
      toNat_nextId hn]
    omega

end SendState

namespace SendPath

variable {τ : Type} [VirtualTime τ]

/-- Message ids are not used up, reliable chunks were sent fewer than 65535 times when they are
nacked, and the time is finite. -/
def CountsRetransmissions (s : SendPath τ) : Op → Prop
  | .sendQueue (.add ..) => s.queue.sendQueue.ctx.currentMessageId ≠ BitVec.allOnes 32
  | .handleSack .. | .handleT3RtxTimerExpiry =>
    ∀ item ∈ s.queue.outstandingData.outstandingData, item.Reliable →
      item.numRetransmissions < MaxRetransmits.noLimit
  | .getChunksToSend now _ | .shouldSendForwardTsn now => now ≠ .plusInfinity
  | _ => True

structure SparesReliable (s : SendPath τ) : Prop where
  keyed : s.queue.sendQueue.Keyed
  spares : ∃ reliable, s.queue.sendState.Spares s.queue.partialReliability reliable

theorem not_expired {now : Timestamp} (hn : now ≠ .plusInfinity) {item : Item}
    (he : item.expiresAt = .plusInfinity) : ¬ Expired now item.core := by
  cases now with
  | plusInfinity => exact absurd rfl hn
  | micros us => simp [Expired, Item.hasExpired, Item.core, he, Timestamp.le]

theorem not_exhausted {item : Item} (hr : item.Reliable)
    (hn : item.numRetransmissions < MaxRetransmits.noLimit) : ¬ Exhausted item.core := by
  rw [← hr.1] at hn
  exact not_not.mpr hn

theorem new_sparesReliable (options : CongestionOptions) (myInitialTsn : TSN) (aRwnd : Nat)
    (partialReliability interleaving : Bool) (bufferSize mtu : Nat) (defaultPriority : StreamPriority)
    (threshold : Nat) :
    SparesReliable (τ := τ) ⟨.new options myInitialTsn aRwnd partialReliability interleaving
      (.new bufferSize mtu defaultPriority threshold), []⟩ := by
  have hitems : ∀ id, ((RRSendQueue.new bufferSize mtu defaultPriority threshold :
      RRSendQueue τ).view.streams id).items = [] := by
    intro id
    simp [RRSendQueue.view, RRSendQueue.new, RRSendQueue.getOrCreateStreamInfo, OutgoingStream.view,
      OutgoingStream.new]
  refine ⟨fun id s hs => ?_, fun _ => True, ?_, ?_, fun id item hm => ?_, ?_, fun id item hm => ?_⟩
  · simp [RetransmissionQueue.new, RRSendQueue.new] at hs
  · simp [sendState, RetransmissionQueue.new, OutstandingData.new]
  · simp [sendState, RetransmissionQueue.new, OutstandingData.new]
  · have hnil : item ∈ [] := hitems id ▸ hm
    cases hnil
  · simp [sendState, RetransmissionQueue.new, OutstandingData.new]
  · have hnil : item ∈ [] := hitems id ▸ hm
    cases hnil

theorem SparesReliable.step {s s' : SendPath τ} {op : Op} (h : s.SparesReliable) (he : s.enabled op)
    (hc : s.CountsRetransmissions op) (hs : s.step op = some s') : s'.SparesReliable := by
  obtain ⟨reliable, hsp⟩ := h.spares
  rcases step_cases h.keyed he hs with ⟨now, message, options, rfl, hk, hp, -, hst⟩ | ⟨-, hadv⟩
  · have henq := hsp.enqueue hc message (RRSendQueue.attributesOf now options)
    exact ⟨hk, _, by rw [hst, hp]; exact henq⟩
  · refine ⟨hadv.keyed, reliable, ?_⟩
    rw [hadv.partialReliability]
    refine hsp.steps (fun item hm hr hf => ?_) (fun now chunk hr hf => ?_) hadv.steps
    · cases op with
      | handleSack now sack => exact not_exhausted hr (hc item hm hr) hf
      | handleT3RtxTimerExpiry => exact not_exhausted hr (hc item hm hr) hf
      | getChunksToSend now bytes => exact not_expired hc hr.2 hf
      | shouldSendForwardTsn now => exact not_expired hc hr.2 hf
      | sendQueue op => exact hf
      | getChunksForFastRetransmit bytes => exact hf
      | beginResetStreams => exact hf
    · cases op with
      | handleSack now sack => exact not_exhausted hr (show (0 : BitVec 16) < _ by decide) hf
      | handleT3RtxTimerExpiry => exact not_exhausted hr (show (0 : BitVec 16) < _ by decide) hf
      | getChunksToSend now bytes => exact not_expired hc hr.2 hf
      | shouldSendForwardTsn now => exact not_expired hc hr.2 hf
      | sendQueue op => exact hf
      | getChunksForFastRetransmit bytes => exact hf
      | beginResetStreams => exact hf

/-- In every run that counts its retransmissions, no chunk of a reliable message is abandoned, and
no FORWARD-TSN or I-FORWARD-TSN reaches it. -/
theorem reachable_not_abandoned {s : SendPath τ}
    (h : (machine.restrict CountsRetransmissions).Reachable s) {tsn : Int} {item : Item}
    (hi : s.queue.outstandingData.getItem tsn = some item) (hr : item.Reliable) :
    ¬ item.isAbandoned ∧ (s.queue.outstandingData.forward OutstandingData.skipSsn ∅).1 < tsn ∧
      (s.queue.outstandingData.forward OutstandingData.skipMid ∅).1 < tsn := by
  have hinv : s.SparesReliable := by
    refine h.preserved ?_ fun s op s' hs he hstep => hs.step he.1 he.2 hstep
    rintro s ⟨options, tsn, aRwnd, pr, il, bufferSize, mtu, priority, threshold, rfl⟩
    exact new_sparesReliable ..
  obtain ⟨reliable, hsp⟩ := hinv.spares
  have hlive := hsp.live item (OutstandingData.mem_of_getItem hi) hr
  have hlt : s.queue.outstandingData.newCumulativeTsn < tsn := by
    by_contra hle
    have hmem := OutstandingData.mem_skippedItems_of_le hi (not_lt.mp hle)
    exact hlive (OutstandingData.isAbandoned_of_mem_skippedFrom hmem)
  rw [OutstandingData.forward_eq, OutstandingData.forward_eq]
  exact ⟨hlive, hlt, hlt⟩

instance (s : SendPath τ) (op : Op) : Decidable (s.CountsRetransmissions op) :=
  match op with
  | .sendQueue (.add ..) => inferInstanceAs (Decidable (_ ≠ _))
  | .handleSack .. | .handleT3RtxTimerExpiry => inferInstanceAs (Decidable (∀ item ∈ _, _))
  | .getChunksToSend .. | .shouldSendForwardTsn _ => inferInstanceAs (Decidable (_ ≠ _))
  | .getChunksForFastRetransmit _ | .beginResetStreams | .sendQueue (.produce ..)
  | .sendQueue (.discard ..) | .sendQueue (.prepareResetStream _)
  | .sendQueue .getStreamsReadyToBeReset | .sendQueue .commitResetStreams
  | .sendQueue .rollbackResetStreams | .sendQueue .reset | .sendQueue (.setStreamPriority ..)
  | .sendQueue (.setBufferedAmountLowThreshold ..) | .sendQueue (.setMessageInterleaving _) =>
    instDecidableTrue

instance (s : SendPath τ) (op : Op) :
    Decidable ((machine.restrict CountsRetransmissions).enabled s op) :=
  inferInstanceAs (Decidable (s.enabled op ∧ s.CountsRetransmissions op))

def loneItem (n : Nat) : Item :=
  { Item.new 0 ⟨1, 0, 0, 0, 53, [1], true, true, false⟩ (.micros 0) .noLimit .plusInfinity 0 with
    numRetransmissions := BitVec.ofNat 16 n }

def lostItem (n : Nat) : Item :=
  { loneItem n with lifecycle := .kToBeRetransmitted, ackState := .kNacked, nackCount := 1 }

def inFlight (n : Nat) : OutstandingData := ⟨16, 9, [loneItem n], 20, 1, ∅, ∅, ∅⟩

def lost (n : Nat) : OutstandingData := ⟨16, 9, [lostItem n], 0, 0, ∅, (∅ : OrdSet Int).insert 10, ∅⟩

def sendByte : List Op :=
  [.sendQueue (.add (.micros 0) ⟨1, 53, [1]⟩ ⟨false, none, none, 0⟩), .getChunksToSend (.micros 0) 20]

theorem reachable_not_abandoned_timeout :
    ∃ s : SendPath ℚ, (machine.restrict CountsRetransmissions).Reachable s ∧
      s.queue.outstandingData.getItem 10 = some (lostItem 0) ∧ ¬ (lostItem 0).isAbandoned ∧
      (s.queue.outstandingData.forward OutstandingData.skipSsn ∅).1 < 10 := by
  have h0 : (machine.restrict CountsRetransmissions).Reachable associated :=
    .initial ⟨_, _, _, _, _, _, _, _, _, rfl⟩
  have hrun : ((machine.restrict CountsRetransmissions).run associated
      (sendByte ++ [.handleT3RtxTimerExpiry])).map (fun s => s.queue.outstandingData) =
        some (lost 0) := by
    decide +kernel
  obtain ⟨s, hs, hod⟩ := map_eq_some_iff.mp hrun
  have hitem : s.queue.outstandingData.getItem 10 = some (lostItem 0) := by
    rw [hod]
    rfl
  have hall := reachable_not_abandoned (h0.run hs) hitem ⟨rfl, rfl⟩
  exact ⟨s, h0.run hs, hitem, hall.1, hall.2.1⟩

theorem reachable_step {s s' : SendPath τ} {op : Op} (h : machine.Reachable s)
    (hs : s.step op = some s') (he : s.enabled op) : machine.Reachable s' := h.step he hs

section Exhaustion

variable {σ : Type} {n : Nat}

theorem nack_loneItem (hn : n < 65535) : (loneItem n).nack true = (lostItem n, .kRetransmit) := by
  have hlt : BitVec.ofNat 16 n < MaxRetransmits.noLimit := by
    rw [lt_def, toNat_ofNat, show MaxRetransmits.noLimit.toNat = 65535 from rfl]
    omega
  simp [Item.nack, lostItem, loneItem, Item.new, Item.shouldBeRetransmitted, Item.isAbandoned, hlt]

theorem removeUnacked_inFlight (n : Nat) : (inFlight n).removeUnacked (loneItem n) =
    some { inFlight n with unackedBytes := 0, unackedItems := 0 } := by
  simp [OutstandingData.removeUnacked, loneItem, Item.new, Item.isOutstanding, checkedSub, inFlight,
    OutstandingData.getSerializedChunkSize, roundUpTo4, Data.size]

theorem nackAll_inFlight (discard : StreamID → OutgoingMessageId → σ → Bool × σ) (n : Nat) (q : σ) :
    OutstandingData.nackAll discard (inFlight n, q) =
      (OutstandingData.nackItem discard true false (inFlight n, q) 10).map (·.2) := by
  have htsns : (inFlight n).tsns.filter
      (fun tsn => ((inFlight n).getItem tsn).any fun item => !item.isAcked) = [10] := rfl
  rw [OutstandingData.nackAll, htsns, List.foldlM_cons]
  cases OutstandingData.nackItem discard true false (inFlight n, q) 10 <;> rfl

variable [SendQueue σ] {rq : RetransmissionQueue σ}

theorem timeout_inFlight (hod : rq.outstandingData = inFlight n) (hn : n < 65535) :
    ∃ rq', rq.handleT3RtxTimerExpiry = some rq' ∧ rq'.outstandingData = lost n ∧
      rq'.options = rq.options ∧ rq'.cwnd = rq.options.mtu := by
  have hget : (inFlight n).getItem 10 = some (loneItem n) := rfl
  have hnack : OutstandingData.nackAll SendQueue.discard (rq.outstandingData, rq.sendQueue) =
      some (lost n, rq.sendQueue) := by
    rw [hod, nackAll_inFlight]
    simp only [OutstandingData.nackItem, hget, removeUnacked_inFlight, nack_loneItem hn,
      bind_eq_bind, bind_some]
    rfl
  rw [handleT3RtxTimerExpiry, hnack]
  exact ⟨_, rfl, rfl, rfl, rfl⟩

theorem getChunksToBeRetransmitted_lost (n : Nat) :
    (lost n).getChunksToBeRetransmitted 20 = some ([(10, (loneItem n).data)], inFlight (n + 1)) := by
  have hnum : BitVec.ofNat 16 n + 1 = BitVec.ofNat 16 (n + 1) := (ofNat_add n 1).symm
  have hitem : (lostItem n).markAsRetransmitted = loneItem (n + 1) := by
    simp only [Item.markAsRetransmitted, lostItem, loneItem, Item.new, hnum]
  have hsize : (lost n).getSerializedChunkSize (lostItem n).data = 20 := by
    simp [lost, lostItem, loneItem, Item.new, OutstandingData.getSerializedChunkSize, roundUpTo4,
      Data.size]
  have hget : (lost n).getItem 10 = some (lostItem n) := rfl
  have hresend : (lost n).retransmit false 10 (lostItem n) = inFlight (n + 1) := by
    simp only [OutstandingData.retransmit, OutstandingData.setItem, hitem, hsize]
    rfl
  have hlist : (lost n).toBeRetransmitted.toList = [10] := rfl
  have hfast : (lost n).hasDataToBeFastRetransmitted = false := rfl
  have hguard : (lostItem n).shouldBeRetransmitted ∧ ¬ (lostItem n).isOutstanding ∧
      ¬ (lostItem n).isAbandoned ∧ ¬ (lostItem n).isAcked :=
    ⟨rfl, Bool.false_ne_true, Bool.false_ne_true, Bool.false_ne_true⟩
  simp only [OutstandingData.getChunksToBeRetransmitted, hfast, hlist, OutstandingData.extractLoop,
    hget, bind_eq_bind, bind_some, hguard, hsize, hresend]
  rfl

theorem resend_lost (hod : rq.outstandingData = lost n) (hcwnd : rq.cwnd = 1200) :
    ∃ r, rq.getChunksToSend (.micros 0) 20 = some r ∧ r.2.outstandingData = inFlight (n + 1) ∧
      r.2.options = rq.options := by
  have hmax : roundDownTo4 (min rq.maxBytesToSend 20) = 20 := by
    simp [maxBytesToSend, unackedBytes, hod, hcwnd, lost, roundDownTo4]
  have hget : rq.outstandingData.getChunksToBeRetransmitted 20 = _ :=
    hod ▸ getChunksToBeRetransmitted_lost n
  have hsize : rq.getSerializedChunkSize (loneItem n).data = 20 := by
    simp [getSerializedChunkSize, dataChunkHeaderSize, hod,
      lost, loneItem, Item.new, roundUpTo4, Data.size]
  simp only [getChunksToSend, hmax, hget, hsize, bind_eq_bind,
    bind_some, List.map_cons, List.map_nil]
  exact ⟨_, rfl, rfl, rfl⟩

def abandonedItem : Item :=
  { loneItem 65535 with ackState := .kNacked, nackCount := 1, lifecycle := .kAbandoned }

theorem timeout_exhausted (hod : rq.outstandingData = inFlight 65535) :
    ∃ rq', rq.handleT3RtxTimerExpiry = some rq' ∧
      rq'.outstandingData.getItem 10 = some abandonedItem := by
  have hget : (inFlight 65535).getItem 10 = some (loneItem 65535) := rfl
  have hnack : (loneItem 65535).nack true = (abandonedItem, .kAbandon) := by decide
  have hall : OutstandingData.nackAll SendQueue.discard (rq.outstandingData, rq.sendQueue) =
      some (OutstandingData.abandonAllFor SendQueue.discard abandonedItem
        (⟨16, 9, [abandonedItem], 0, 0, ∅, ∅, ∅⟩, rq.sendQueue)) := by
    rw [hod, nackAll_inFlight]
    simp only [OutstandingData.nackItem, hget, removeUnacked_inFlight, hnack, bind_eq_bind,
      bind_some]
    rfl
  rw [handleT3RtxTimerExpiry, hall]
  refine ⟨_, rfl, ?_⟩
  show (OutstandingData.abandonAllFor SendQueue.discard abandonedItem
    (⟨16, 9, [abandonedItem], 0, 0, ∅, ∅, ∅⟩, rq.sendQueue)).1.getItem 10 = some abandonedItem
  simp only [OutstandingData.abandonAllFor]
  cases (SendQueue.discard abandonedItem.data.streamId abandonedItem.messageId rq.sendQueue).1 <;> rfl

end Exhaustion

theorem reachable_inFlight {n : Nat} (hn : n ≤ 65535) :
    ∃ s : SendPath ℚ, machine.Reachable s ∧ s.queue.outstandingData = inFlight n ∧
      s.queue.options.mtu = 1200 := by
  induction n with
  | zero =>
    have h0 : machine.Reachable associated := .initial ⟨_, _, _, _, _, _, _, _, _, rfl⟩
    have hrun : (machine.run associated sendByte).map
        (fun s => (s.queue.outstandingData, s.queue.options.mtu)) = some (inFlight 0, 1200) := by
      decide +kernel
    obtain ⟨s, hs, hstate⟩ := map_eq_some_iff.mp hrun
    rw [Prod.mk.injEq] at hstate
    exact ⟨s, h0.run hs, hstate⟩
  | succ n ih =>
    obtain ⟨s, hs, hod, hmtu⟩ := ih (by omega)
    obtain ⟨rq₁, hrq₁, hod₁, hopt₁, hcwnd₁⟩ := timeout_inFlight hod (by omega)
    have hs₁ : machine.Reachable (⟨rq₁, s.ids⟩ : SendPath ℚ) := by
      have hstep : s.step .handleT3RtxTimerExpiry = some ⟨rq₁, s.ids⟩ := by simp [step, hrq₁]
      exact reachable_step hs hstep trivial
    obtain ⟨r, hr, hod₂, hopt₂⟩ := resend_lost hod₁ (hcwnd₁.trans hmtu)
    have hs₂ : machine.Reachable (⟨r.2, s.ids⟩ : SendPath ℚ) := by
      have hstep : SendPath.step ⟨rq₁, s.ids⟩ (.getChunksToSend (.micros 0) 20) =
          some ⟨r.2, s.ids⟩ := by simp [step, hr]
      exact reachable_step hs₁ hstep trivial
    exact ⟨_, hs₂, hod₂, by rw [hopt₂, hopt₁, hmtu]⟩

/-- A chunk that is sent again 65535 times without being acked is abandoned at the next timeout,
although its message has no limit. -/
theorem reachable_abandoned : ∃ (s : SendPath ℚ) (item : Item), machine.Reachable s ∧
      s.queue.outstandingData.getItem 10 = some item ∧ item.Reliable ∧ item.isAbandoned := by
  obtain ⟨s, hs, hod, -⟩ := reachable_inFlight le_rfl
  obtain ⟨rq, hrq, hget⟩ := timeout_exhausted hod
  have hstep : s.step .handleT3RtxTimerExpiry = some ⟨rq, s.ids⟩ := by simp [step, hrq]
  exact ⟨_, abandonedItem, reachable_step hs hstep trivial, hget, ⟨rfl, rfl⟩, rfl⟩

end SendPath

end WebRtc.DcSctp
