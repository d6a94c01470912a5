import WebRtc.DcSctp.SendPath

/-! Reports about the lifecycle of messages. The id of a message is held by the send queue until
its last fragment is sent, then by the outstanding item of that fragment; whoever gives it up
reports its end. -/

namespace WebRtc.DcSctp

open List Option

open OutstandingData (Item Evolves Resends Acked)

def SendQueue.Event.expires (x : LifecycleId) : SendQueue.Event → Bool
  | .onLifecycleMessageExpired y _ => y = x
  | .onLifecycleEnd _ | .onBufferedAmountLow _ | .onTotalBufferedAmountLow => false

def RetransmissionQueue.Event.settles (x : LifecycleId) : RetransmissionQueue.Event → Bool
  | .onLifecycleMessageDelivered y | .onLifecycleMessageExpired y _ => y = x
  | .onNewRtt _ | .onLifecycleMessageFullySent _ | .onLifecycleEnd _
  | .onClearRetransmissionCounter => false

theorem count_end_report (x : LifecycleId) (hx : x ≠ 0) (dropped : List QueuedMessage) :
    (dropped.flatMap QueuedMessage.report).count (.onLifecycleEnd x) =
      dropped.countP (QueuedMessage.hasId x) := by
  induction dropped with
  | nil => rfl
  | cons item rest ih =>
    rw [flatMap_cons, count_append, countP_cons, ih]
    by_cases h0 : item.attributes.lifecycleId = 0
    · have hne : ¬ (0 : LifecycleId) = x := Ne.symm hx
      simp only [QueuedMessage.report, QueuedMessage.hasId, h0, if_true, count_nil, hne,
        decide_false, Bool.false_eq_true, if_false]
      omega
    · rw [QueuedMessage.report, if_neg h0]
      by_cases he : item.attributes.lifecycleId = x
      · simp [QueuedMessage.hasId, he]
        omega
      · simp [QueuedMessage.hasId, he]

theorem countP_expires_report (x : LifecycleId) (dropped : List QueuedMessage) :
    (dropped.flatMap QueuedMessage.report).countP (SendQueue.Event.expires x) =
      (dropped.flatMap QueuedMessage.report).count (.onLifecycleEnd x) := by
  induction dropped with
  | nil => rfl
  | cons item rest ih =>
    rw [flatMap_cons, count_append, countP_append, ih]
    simp only [QueuedMessage.report]
    split_ifs
    · rfl
    · by_cases he : item.attributes.lifecycleId = x <;>
        simp [SendQueue.Event.expires, he]

variable {x : LifecycleId}

namespace SendState

theorem count_end_ackReports (x : LifecycleId) (acked abandoned : List LifecycleId) :
    (ackReports acked abandoned).count (.onLifecycleEnd x) = acked.count x + abandoned.count x := by
  rw [ackReports, count_append]
  congr 1
  · induction acked with
    | nil => rfl
    | cons y rest ih => by_cases hy : y = x <;> simp [hy, ih]
  · induction abandoned with
    | nil => rfl
    | cons y rest ih => by_cases hy : y = x <;> simp [hy, ih]

theorem countP_settles_ackReports (x : LifecycleId) (acked abandoned : List LifecycleId) :
    (ackReports acked abandoned).countP (RetransmissionQueue.Event.settles x) =
      acked.count x + abandoned.count x := by
  rw [ackReports, countP_append]
  congr 1
  · induction acked with
    | nil => rfl
    | cons y rest ih =>
      by_cases hy : y = x <;> simp [hy, ih, RetransmissionQueue.Event.settles]
  · induction abandoned with
    | nil => rfl
    | cons y rest ih =>
      by_cases hy : y = x <;> simp [hy, ih, RetransmissionQueue.Event.settles]

theorem delivered_mem_ackReports {acked abandoned : List LifecycleId} :
    .onLifecycleMessageDelivered x ∈ ackReports acked abandoned ↔ x ∈ acked := by
  simp [ackReports]

end SendState

namespace OutstandingData

variable {od od' : OutstandingData} {F : Item → Prop}

def lifecycleIds (od : OutstandingData) : List LifecycleId := od.outstandingData.map Item.lifecycleId

theorem lifecycleId_eq_of_core {a b : Item} (h : a.core = b.core) : a.lifecycleId = b.lifecycleId := by
  have hid : a.core.lifecycleId = b.core.lifecycleId := by rw [h]
  exact hid

theorem getItem_add (od : OutstandingData) (i : Nat) :
    od.getItem (od.lastCumulativeTsnAck + 1 + i) = od.outstandingData[i]? := by
  apply Option.ext
  intro x
  rw [getItem_eq_some]
  constructor
  · rintro ⟨j, hj, hx⟩
    have hij : i = j := by omega
    exact hij ▸ hx
  · exact fun hx => ⟨i, rfl, hx⟩

theorem map_eq_append_replicate {α β : Type} {f : α → β} {z : β} {l l' : List α}
    (hold : ∀ (i : Nat) a, l[i]? = some a → ∃ b, l'[i]? = some b ∧ f b = f a)
    (hnew : ∀ (i : Nat) b, l'[i]? = some b → l[i]? = none → f b = z) :
    ∃ n, l'.map f = l.map f ++ List.replicate n z := by
  induction l generalizing l' with
  | nil =>
    refine ⟨l'.length, ?_⟩
    rw [map_nil, nil_append, eq_replicate_iff]
    refine ⟨length_map _, fun y hy => ?_⟩
    obtain ⟨b, hb, rfl⟩ := mem_map.mp hy
    obtain ⟨i, hi⟩ := mem_iff_getElem?.mp hb
    exact hnew i b hi rfl
  | cons a rest ih =>
    obtain ⟨b, hb, hf⟩ := hold 0 a rfl
    cases l' with
    | nil => cases hb
    | cons b' rest' =>
      cases hb
      obtain ⟨n, hn⟩ := ih (fun i a' ha' => hold (i + 1) a' ha')
        (fun i b' hb' hnone => hnew (i + 1) b' hb' hnone)
      exact ⟨n, by rw [map_cons, hn, hf, map_cons, cons_append]⟩

theorem Evolves.lifecycleIds (h : Evolves F od od') :
    ∃ n, od'.lifecycleIds = od.lifecycleIds ++ List.replicate n 0 := by
  refine map_eq_append_replicate (fun i a ha => ?_) fun i b hb hnone => ?_
  · rw [← od.getItem_add] at ha
    obtain ⟨b, hb, hl⟩ := h.later _ a ha
    rw [← h.last, od'.getItem_add] at hb
    exact ⟨b, hb, lifecycleId_eq_of_core hl.core⟩
  · rw [← od'.getItem_add, h.last] at hb
    rw [← od.getItem_add] at hnone
    obtain ⟨x, -, -, hc⟩ := h.placeholder _ b hb hnone
    exact lifecycleId_eq_of_core hc

theorem Resends.lifecycleIds (h : Resends od od') : od'.lifecycleIds = od.lifecycleIds := by
  have hlen : ∀ i : Nat, od.outstandingData[i]? = .none → od'.outstandingData[i]? = .none := by
    intro i hi
    rw [← od'.getItem_add, h.last]
    exact h.none _ (od.getItem_add i ▸ hi)
  apply ext_getElem?
  intro i
  simp only [OutstandingData.lifecycleIds, List.getElem?_map]
  cases hi : od.outstandingData[i]? with
  | none => rw [hlen i hi]
  | some a =>
    rw [← od.getItem_add] at hi
    rw [← od'.getItem_add, h.last]
    rcases h.some _ a hi with hb | ⟨-, hb⟩
    · rw [hb]
    · rw [hb]
      rfl

theorem Acked.lifecycleIds {info : AckInfo} {popped : List Item} {r : OutstandingData × AckInfo}
    (h : Acked od info popped r) (hx : x ≠ 0) :
    od.lifecycleIds.count x + info.ackedLifecycleIds.count x + info.abandonedLifecycleIds.count x =
      r.1.lifecycleIds.count x + r.2.ackedLifecycleIds.count x +
        r.2.abandonedLifecycleIds.count x := by
  have hpopped : (popped.map Item.lifecycleId).count x =
      ((popped.filter fun y => y.lifecycleId ≠ 0 ∧ ¬ y.isAbandoned).map Item.lifecycleId).count x +
      ((popped.filter fun y => y.lifecycleId ≠ 0 ∧ y.isAbandoned).map Item.lifecycleId).count x := by
    have hx' : x ≠ 0#64 := hx
    clear h
    induction popped with
    | nil => rfl
    | cons item rest ih =>
      rw [map_cons, count_cons, ih]
      by_cases he : item.lifecycleId = x
      · by_cases ha : item.isAbandoned <;> simp [he, hx', ha] <;> omega
      · by_cases h0 : item.lifecycleId = 0#64
        · simp [h0, Ne.symm hx']
        · by_cases ha : item.isAbandoned <;> simp [he, h0, ha]
  simp only [OutstandingData.lifecycleIds]
  rw [h.data, h.acked, h.abandoned, map_append, count_append, count_append, count_append, hpopped]
  omega

end OutstandingData

variable {now : Timestamp}

namespace SendState

/-- Every id of `ids` is queued, outstanding or ended, as often as it occurs there. -/
structure Accounted (ids : List LifecycleId) (st : SendState) : Prop where
  account : ∀ x ≠ 0, st.queue.queued x + st.outstanding.lifecycleIds.count x +
    st.queue.lifecycle.count (.onLifecycleEnd x) + st.log.count (.onLifecycleEnd x) = ids.count x
  queueReports : ∀ x, st.queue.lifecycle.countP (SendQueue.Event.expires x) =
    st.queue.lifecycle.count (.onLifecycleEnd x)
  logReports : ∀ x, st.log.countP (RetransmissionQueue.Event.settles x) =
    st.log.count (.onLifecycleEnd x)
  last : ∀ item ∈ st.outstanding.outstandingData, item.lifecycleId ≠ 0 → item.data.isEnd ∧
    (item.isAbandoned ∨ .onLifecycleMessageFullySent item.lifecycleId ∈ st.log)
  order : ∀ before x after, st.log = before ++ .onLifecycleMessageDelivered x :: after →
    .onLifecycleMessageFullySent x ∈ before

variable {ids : List LifecycleId} {st st' : SendState} {partialReliability : Bool} {F : Item → Prop}

theorem count_replicate_zero (n : Nat) (hx : x ≠ 0) :
    (List.replicate n (0 : LifecycleId)).count x = 0 :=
  count_eq_zero.mpr fun hm => hx (eq_of_mem_replicate hm)

theorem Accounted.shed (h : Accounted ids st) {v : SendQueueView} {dropped : List QueuedMessage}
    (hs : SendQueueView.Sheds dropped st.queue v) : Accounted ids { st with queue := v } where
  account x hx := by
    have ha := h.account x hx
    have hq := hs.queued x
    have hr := count_end_report x hx dropped
    simp only [hs.lifecycle, count_append]
    omega
  queueReports x := by
    have hq := h.queueReports x
    have hr := countP_expires_report x dropped
    simp only [hs.lifecycle, count_append, countP_append]
    omega
  logReports := h.logReports
  last := h.last
  order := h.order

variable {od : OutstandingData}

theorem Accounted.evolve (h : Accounted ids st)
    (he : Evolves F st.outstanding od) : Accounted ids { st with outstanding := od } where
  account x hx := by
    obtain ⟨n, hn⟩ := he.lifecycleIds
    have hz := count_replicate_zero n hx
    have ha := h.account x hx
    simp only [hn, count_append, hz]
    omega
  queueReports := h.queueReports
  logReports := h.logReports
  last item' hm hid := by
    obtain ⟨t, ht⟩ := OutstandingData.getItem_of_mem hm
    rcases he.origin ht with ⟨a, ha, hl⟩ | ⟨-, x, -, -, hc⟩
    · have hida := OutstandingData.lifecycleId_eq_of_core hl.core
      rw [hida] at hid ⊢
      rw [OutstandingData.data_eq_of_core hl.core]
      obtain ⟨hend, hsent⟩ := h.last a (OutstandingData.mem_of_getItem ha) hid
      exact ⟨hend, hsent.imp_left hl.keeps⟩
    · exact absurd (OutstandingData.lifecycleId_eq_of_core hc) hid
  order := h.order

theorem Accounted.resend (h : Accounted ids st)
    (hr : Resends st.outstanding od) : Accounted ids { st with outstanding := od } where
  account x hx := by
    simp only [hr.lifecycleIds]
    exact h.account x hx
  queueReports := h.queueReports
  logReports := h.logReports
  last item' hm hid := by
    obtain ⟨t, ht⟩ := OutstandingData.getItem_of_mem hm
    cases ha : st.outstanding.getItem t with
    | none =>
      rw [hr.none t ha] at ht
      cases ht
    | some a =>
      have hlast := h.last a (OutstandingData.mem_of_getItem ha)
      rcases hr.some t a ha with hb | ⟨hs, hb⟩
      · cases hb.symm.trans ht
        exact hlast hid
      · cases hb.symm.trans ht
        -- only chunks that are not abandoned are sent again
        have hna : a.isAbandoned = false := by
          simp only [Item.shouldBeRetransmitted, decide_eq_true_eq] at hs
          simp [Item.isAbandoned, hs]
        obtain ⟨hend, hsent⟩ := hlast hid
        rw [hna] at hsent
        exact ⟨hend, .inr (hsent.resolve_left Bool.false_ne_true)⟩
  order := h.order

theorem order_append {log reports : List RetransmissionQueue.Event}
    (h : ∀ before x after, log = before ++ .onLifecycleMessageDelivered x :: after →
      .onLifecycleMessageFullySent x ∈ before)
    (hr : ∀ x, .onLifecycleMessageDelivered x ∈ reports → .onLifecycleMessageFullySent x ∈ log)
    {before after : List RetransmissionQueue.Event}
    (he : log ++ reports = before ++ .onLifecycleMessageDelivered x :: after) :
    .onLifecycleMessageFullySent x ∈ before := by
  rcases append_eq_append_iff.mp he with ⟨c, hb, hc⟩ | ⟨c, hl, hc⟩
  · rw [hb]
    exact mem_append_left _ (hr x (by rw [hc]; simp))
  · cases c with
    | nil =>
      rw [append_nil] at hl
      rw [← hl]
      exact hr x (by rw [← nil_append reports, ← hc]; simp)
    | cons e c =>
      cases hc
      exact h before x c hl

theorem Accounted.ack (h : Accounted ids st) {popped : List Item}
    {info info' : OutstandingData.AckInfo} (hi : info.ackedLifecycleIds = [])
    (hi' : info.abandonedLifecycleIds = []) (ha : Acked st.outstanding info popped (od, info')) :
    Accounted ids ⟨od, st.queue,
      st.log ++ ackReports info'.ackedLifecycleIds info'.abandonedLifecycleIds⟩ where
  account x hx := by
    have hc := ha.lifecycleIds hx
    have hacc := h.account x hx
    rw [hi, hi'] at hc
    simp only [count_append, count_end_ackReports]
    simp only [count_nil] at hc
    omega
  queueReports := h.queueReports
  logReports x := by
    have hl := h.logReports x
    simp only [count_append, countP_append, count_end_ackReports, countP_settles_ackReports]
    omega
  last item hm hid := by
    obtain ⟨hend, hsent⟩ := h.last item (by rw [ha.data]; exact mem_append_right _ hm) hid
    exact ⟨hend, hsent.imp_right (mem_append_left _)⟩
  order before x after he := by
    refine order_append h.order (fun y hy => ?_) he
    rw [delivered_mem_ackReports, ha.acked, hi, nil_append] at hy
    obtain ⟨item, hm, rfl⟩ := mem_map.mp hy
    obtain ⟨hm, hp⟩ := mem_filter.mp hm
    obtain ⟨hid, hna⟩ := of_decide_eq_true hp
    obtain ⟨-, hsent⟩ := h.last item (by rw [ha.data]; exact mem_append_left _ hm) hid
    exact hsent.resolve_left hna

def sendReport (chunk : SendQueue.DataToSend) : List RetransmissionQueue.Event :=
  if chunk.lifecycleId = 0 then [] else [.onLifecycleMessageFullySent chunk.lifecycleId]

theorem count_end_sendReport (chunk : SendQueue.DataToSend) (x : LifecycleId) :
    (sendReport chunk).count (.onLifecycleEnd x) = 0 ∧
      (sendReport chunk).countP (RetransmissionQueue.Event.settles x) = 0 := by
  simp only [sendReport]
  split_ifs <;> exact ⟨rfl, rfl⟩

section

variable (h : Accounted ids st)
include h

theorem Accounted.send {v : SendQueueView}
    {log : List RetransmissionQueue.Event} {sent : List QueuedMessage}
    {chunk : SendQueue.DataToSend} (hs : SendQueueView.Sends sent chunk st.queue v)
    (he : Evolves F (st.outstanding.pushBack (newItem partialReliability now chunk)) od)
    (hl : (∃ b, od.getItem st.outstanding.nextTsn = some b ∧ b.isAbandoned) ∧ log = st.log ∨
      log = st.log ++ sendReport chunk) : Accounted ids ⟨od, v, log⟩ := by
  obtain ⟨reports, rfl, hreports⟩ : ∃ reports, log = st.log ++ reports ∧
      (reports = [] ∨ reports = sendReport chunk) := by
    rcases hl with ⟨-, rfl⟩ | rfl
    · exact ⟨[], (append_nil _).symm, .inl rfl⟩
    · exact ⟨_, rfl, .inr rfl⟩
  have hcount : ∀ x, reports.count (.onLifecycleEnd x) = 0 ∧
      reports.countP (RetransmissionQueue.Event.settles x) = 0 := by
    intro x
    rcases hreports with rfl | rfl
    · exact ⟨rfl, rfl⟩
    · exact count_end_sendReport chunk x
  refine ⟨fun x hx => ?_, fun x => ?_, fun x => ?_, fun item' hm hid => ?_, fun before x after hb => ?_⟩
  · obtain ⟨n, hn⟩ := he.lifecycleIds
    have hids : (st.outstanding.pushBack (newItem partialReliability now chunk)).lifecycleIds =
        st.outstanding.lifecycleIds ++ [chunk.lifecycleId] := map_append ..
    have hz := count_replicate_zero n hx
    have ha := h.account x hx
    have hq := hs.queued x hx
    have hr := count_end_report x hx sent
    simp only [hn, hids, hs.lifecycle, count_append, hz, (hcount x).1, count_singleton, beq_iff_eq]
    omega
  · have hq := h.queueReports x
    have hr := countP_expires_report x sent
    simp only [hs.lifecycle, count_append, countP_append]
    omega
  · have hr := h.logReports x
    simp only [count_append, countP_append, (hcount x).1, (hcount x).2]
    omega
  · obtain ⟨t, ht⟩ := OutstandingData.getItem_of_mem hm
    rcases he.origin ht with ⟨a, ha, hlater⟩ | ⟨-, x, -, -, hc⟩
    · have hida := OutstandingData.lifecycleId_eq_of_core hlater.core
      rw [hida] at hid ⊢
      rw [OutstandingData.data_eq_of_core hlater.core]
      rw [OutstandingData.getItem_pushBack] at ha
      by_cases htn : t = st.outstanding.nextTsn
      · rw [if_pos htn] at ha
        cases ha
        refine ⟨hs.isEnd hid, ?_⟩
        rcases hl with ⟨⟨b, hb, hab⟩, -⟩ | hl
        · rw [← htn] at hb
          cases hb.symm.trans ht
          exact .inl hab
        · have hrep := append_cancel_left hl
          have hc : chunk.lifecycleId ≠ 0 := hid
          rw [hrep, sendReport, if_neg hc]
          exact .inr (mem_append_right _ (mem_singleton.mpr rfl))
      · rw [if_neg htn] at ha
        obtain ⟨hend, hsent⟩ := h.last a (OutstandingData.mem_of_getItem ha) hid
        exact ⟨hend, hsent.imp hlater.keeps (mem_append_left _)⟩
    · exact absurd (OutstandingData.lifecycleId_eq_of_core hc) hid
  · refine order_append h.order (fun y hy => ?_) hb
    rcases hreports with rfl | rfl
    · cases hy
    · simp only [sendReport] at hy
      split_ifs at hy
      · cases hy
      · simp at hy

theorem Accounted.step (hs : Step partialReliability F st st') : Accounted ids st' := by
  cases hs with
  | move he hv => exact (h.evolve he).shed hv
  | resend _ hr => exact h.resend hr
  | ack hi hi' ha => exact h.ack hi hi' ha
  | send now chunk hs he hv hl => exact (h.send hs he hl).shed hv

theorem Accounted.steps
    (hs : Relation.ReflTransGen (Step partialReliability F) st st') : Accounted ids st' := by
  induction hs with
  | refl => exact h
  | tail _ hstep ih => exact ih.step hstep

theorem Accounted.enqueue (message : DcSctpMessage) (attributes : MessageAttributes) :
    Accounted (attributes.lifecycleId :: ids)
      { st with queue := st.queue.enqueue message attributes } where
  account x hx := by
    have ha := h.account x hx
    have hq := SendQueueView.queued_enqueue st.queue message attributes x
    have hl : (st.queue.enqueue message attributes).lifecycle = st.queue.lifecycle := rfl
    simp only [hl, count_cons, beq_iff_eq]
    omega
  queueReports := h.queueReports
  logReports := h.logReports
  last := h.last
  order := h.order

end

end SendState

namespace RetransmissionQueue

open SendState

variable {σ : Type} [SendQueue σ]

variable (rq : RetransmissionQueue σ)

theorem delivered_sendNewChunk (now : Timestamp) (chunk : SendQueue.DataToSend) (x : LifecycleId) :
    (rq.sendNewChunk now chunk).2.log.count (.onLifecycleMessageDelivered x) =
      rq.log.count (.onLifecycleMessageDelivered x) := by
  simp only [sendNewChunk]
  split
  · rfl
  · by_cases h0 : chunk.lifecycleId = 0
    · rw [if_pos h0]
      rfl
    · rw [if_neg h0]
      show ((rq.events ++ [_]).filter Event.isLifecycle).count _ = _
      rw [filter_append, count_append]
      rfl

theorem delivered_sendNewChunks (now : Timestamp) (rounds maxBytes : Nat) (x : LifecycleId) :
    (rq.sendNewChunks now rounds maxBytes).2.log.count (.onLifecycleMessageDelivered x) =
      rq.log.count (.onLifecycleMessageDelivered x) := by
  induction rounds generalizing rq maxBytes with
  | zero => rfl
  | succ rounds ih =>
    simp only [sendNewChunks]
    split_ifs
    · generalize SendQueue.produce now (maxBytes - rq.dataChunkHeaderSize) rq.sendQueue = r
      obtain ⟨chunk, q⟩ := r
      cases chunk with
      | none => rfl
      | some chunk =>
        refine (ih _ _).trans ?_
        exact delivered_sendNewChunk { rq with sendQueue := q } now chunk x
    · rfl

theorem delivered_getChunksToSend {rq : RetransmissionQueue σ} {bytes : Nat}
    {r : List (TSN × Data) × RetransmissionQueue σ} (h : rq.getChunksToSend now bytes = some r)
    (x : LifecycleId) : r.2.log.count (.onLifecycleMessageDelivered x) =
      rq.log.count (.onLifecycleMessageDelivered x) := by
  obtain ⟨-, -, h⟩ := bind_eq_some_iff.mp h
  obtain ⟨⟨retransmitted, od⟩, -, h⟩ := bind_eq_some_iff.mp h
  cases h
  rw [(sameFlow_startT3RtxIfSent _ _).log, delivered_sendNewChunks,
    (sameFlow_countRetransmitted _ _ _).log]
  rfl

theorem delivered_handleSack {τ : Type} [VirtualTime τ] {rq : RetransmissionQueue (RRSendQueue τ)}
    {sack : SackChunk} {r : Bool × RetransmissionQueue (RRSendQueue τ)}
    (h : rq.handleSack now sack = some r) (hlt : rq.log.count (.onLifecycleMessageDelivered x) <
      r.2.log.count (.onLifecycleMessageDelivered x)) :
    ∃ tsn item, rq.outstandingData.getItem tsn = some item ∧ item.lifecycleId = x ∧ x ≠ 0 ∧
      ¬ item.isAbandoned ∧ tsn ≤ r.2.outstandingData.lastCumulativeTsnAck := by
  rcases handleSack_cases h with heq | ⟨popped, od, info, info', hacked, hi, -, hmoves, hlog, -⟩
  · rw [heq] at hlt
    exact absurd hlt (lt_irrefl _)
  · have hx : x ∈ info'.ackedLifecycleIds := by
      rw [hlog, count_append] at hlt
      have hpos : 0 < (ackReports info'.ackedLifecycleIds info'.abandonedLifecycleIds).count
          (.onLifecycleMessageDelivered x) := by omega
      exact delivered_mem_ackReports.mp (count_pos_iff.mp hpos)
    rw [hacked.acked, hi, nil_append] at hx
    obtain ⟨item, hm, rfl⟩ := mem_map.mp hx
    obtain ⟨hm, hp⟩ := mem_filter.mp hm
    obtain ⟨hid, hna⟩ := of_decide_eq_true hp
    obtain ⟨i, hget⟩ := mem_iff_getElem?.mp hm
    have hlt := (List.getElem?_eq_some_iff.mp hget).1
    refine ⟨rq.outstandingData.lastCumulativeTsnAck + 1 + i, item, ?_, rfl, hid, hna, ?_⟩
    · rw [OutstandingData.getItem_add, hacked.data, List.getElem?_append_left hlt, hget]
    · rw [hmoves.evolves.last, hacked.last]
      omega

end RetransmissionQueue

open QueuedMessage RRSendQueue RetransmissionQueue

namespace SendPath

variable {τ : Type} [VirtualTime τ]

def DistinctIds (s : SendPath τ) : Op → Prop
  | .sendQueue (.add _ _ options) => options.lifecycleId = 0 ∨ options.lifecycleId ∉ s.ids
  | _ => True

structure KeepsLifecycles (s : SendPath τ) : Prop where
  keyed : s.queue.sendQueue.Keyed
  distinct : ∀ x ≠ 0, s.ids.count x ≤ 1
  accounted : s.queue.sendState.Accounted s.ids

theorem new_keepsLifecycles (options : CongestionOptions) (myInitialTsn : TSN) (aRwnd : Nat)
    (partialReliability interleaving : Bool) (bufferSize mtu : Nat) (defaultPriority : StreamPriority)
    (threshold : Nat) :
    KeepsLifecycles (τ := τ) ⟨.new options myInitialTsn aRwnd partialReliability interleaving
      (.new bufferSize mtu defaultPriority threshold), []⟩ := by
  have hqueued : ∀ x, (RRSendQueue.new bufferSize mtu defaultPriority threshold :
      RRSendQueue τ).view.queued x = 0 := by
    intro x
    refine Finset.sum_eq_zero fun id _ => ?_
    simp [view, RRSendQueue.new, getOrCreateStreamInfo, OutgoingStream.view, OutgoingStream.new]
  refine ⟨fun id s hs => ?_, fun x _ => Nat.zero_le _, fun x _ => ?_, fun x => rfl, fun x => rfl,
    fun item hm => ?_, fun before x after he => ?_⟩
  · simp [RetransmissionQueue.new, RRSendQueue.new] at hs
  · have hq := hqueued x
    show (RRSendQueue.new bufferSize mtu defaultPriority threshold : RRSendQueue τ).view.queued x +
      0 + 0 + 0 = 0
    omega
  · cases hm
  · have hnil : ([] : List RetransmissionQueue.Event) = _ := he
    simp at hnil

theorem KeepsLifecycles.step {s s' : SendPath τ} {op : Op} (h : s.KeepsLifecycles)
    (he : s.enabled op) (hd : s.DistinctIds op) (hs : s.step op = some s') :
    s'.KeepsLifecycles := by
  rcases step_cases h.keyed he hs with ⟨now, message, options, rfl, hk, -, hids, hst⟩ | ⟨hids, hadv⟩
  · refine ⟨hk, fun x hx => ?_, ?_⟩
    · have hc := h.distinct x hx
      rw [hids, count_cons]
      by_cases heq : options.lifecycleId = x
      · have hn : x ∉ s.ids := heq ▸ hd.resolve_left (heq ▸ hx)
        rw [count_eq_zero.mpr hn]
        split_ifs <;> decide
      · rw [if_neg (by simpa using heq)]
        exact hc
    · rw [hids, hst]
      exact h.accounted.enqueue message (attributesOf now options)
  · refine ⟨hadv.keyed, ?_, ?_⟩
    · rw [hids]
      exact h.distinct
    · rw [hids]
      exact h.accounted.steps hadv.steps

theorem delivered_step {s s' : SendPath τ} {op : Op} (hs : s.step op = some s')
    (hlt : s.queue.log.count (.onLifecycleMessageDelivered x) <
      s'.queue.log.count (.onLifecycleMessageDelivered x)) :
    ∃ tsn item, s.queue.outstandingData.getItem tsn = some item ∧ item.lifecycleId = x ∧ x ≠ 0 ∧
      ¬ item.isAbandoned ∧ tsn ≤ s'.queue.outstandingData.lastCumulativeTsnAck := by
  cases op with
  | sendQueue op =>
    cases hs
    exact absurd hlt (lt_irrefl _)
  | handleSack now sack =>
    obtain ⟨r, hr, hs⟩ := bind_eq_some_iff.mp hs
    cases hs
    exact delivered_handleSack hr hlt
  | handleT3RtxTimerExpiry =>
    obtain ⟨r, hr, hs⟩ := bind_eq_some_iff.mp hs
    obtain ⟨r₁, -, hr⟩ := bind_eq_some_iff.mp hr
    cases hs
    cases hr
    exact absurd hlt (lt_irrefl _)
  | getChunksForFastRetransmit bytes =>
    obtain ⟨r, hr, hs⟩ := bind_eq_some_iff.mp hs
    obtain ⟨-, -, hr⟩ := bind_eq_some_iff.mp hr
    obtain ⟨r₁, -, hr⟩ := bind_eq_some_iff.mp hr
    obtain ⟨-, -, hr⟩ := bind_eq_some_iff.mp hr
    cases hs
    cases hr
    exact absurd hlt (lt_irrefl _)
  | getChunksToSend now bytes =>
    obtain ⟨r, hr, hs⟩ := bind_eq_some_iff.mp hs
    cases hs
    exact absurd hlt (delivered_getChunksToSend hr x).le.not_gt
  | shouldSendForwardTsn now =>
    cases hs
    simp only [shouldSendForwardTsn] at hlt
    split_ifs at hlt <;> exact absurd hlt (lt_irrefl _)
  | beginResetStreams =>
    cases hs
    exact absurd hlt (lt_irrefl _)

theorem countP_expires_lifecycle (q : RRSendQueue τ) (x : LifecycleId) :
    q.view.lifecycle.countP (SendQueue.Event.expires x) =
      q.ctx.events.countP (SendQueue.Event.expires x) := by
  simp only [view, countP_filter]
  refine countP_congr fun e _ => ?_
  cases e <;> simp [SendQueue.Event.expires, SendQueue.Event.isLifecycle]

theorem countP_settles_log (rq : RetransmissionQueue (RRSendQueue τ)) (x : LifecycleId) :
    rq.log.countP (RetransmissionQueue.Event.settles x) =
      rq.events.countP (RetransmissionQueue.Event.settles x) := by
  simp only [log, countP_filter]
  refine countP_congr fun e _ => ?_
  cases e <;> simp [RetransmissionQueue.Event.settles, RetransmissionQueue.Event.isLifecycle]

/-- In every run with distinct lifecycle ids, the end of a message is reported at most once, at
most one of delivery and expiry is reported, and delivery only after the message was fully sent
and only when its last fragment is acked cumulatively without having been abandoned. -/
theorem reachable_lifecycle {s : SendPath τ} (h : (machine.restrict DistinctIds).Reachable s)
    {x : LifecycleId} (hx : x ≠ 0) : s.queue.sendQueue.ctx.events.count (.onLifecycleEnd x) +
        s.queue.events.count (.onLifecycleEnd x) ≤ 1 ∧
      s.queue.sendQueue.ctx.events.countP (SendQueue.Event.expires x) +
        s.queue.events.countP (RetransmissionQueue.Event.settles x) ≤ 1 ∧
      (∀ before after, s.queue.events = before ++ .onLifecycleMessageDelivered x :: after →
        .onLifecycleMessageFullySent x ∈ before) ∧ ∀ op s', s.step op = some s' →
        s.queue.events.count (.onLifecycleMessageDelivered x) <
          s'.queue.events.count (.onLifecycleMessageDelivered x) →
        ∃ tsn item, s.queue.outstandingData.getItem tsn = some item ∧ item.lifecycleId = x ∧
          item.data.isEnd ∧ ¬ item.isAbandoned ∧
          tsn ≤ s'.queue.outstandingData.lastCumulativeTsnAck := by
  have hinv : s.KeepsLifecycles := by
    refine h.preserved ?_ fun s op s' hs he hstep => hs.step he.1 he.2 hstep
    rintro s ⟨options, tsn, aRwnd, pr, il, bufferSize, mtu, priority, threshold, rfl⟩
    exact new_keepsLifecycles ..
  have hacc := hinv.accounted.account x hx
  have hone := hinv.distinct x hx
  have hq := hinv.accounted.queueReports x
  have hl := hinv.accounted.logReports x
  have hendq : s.queue.sendState.queue.lifecycle.count (.onLifecycleEnd x) =
      s.queue.sendQueue.ctx.events.count (.onLifecycleEnd x) := count_filter rfl
  have hendl : s.queue.sendState.log.count (.onLifecycleEnd x) =
      s.queue.events.count (.onLifecycleEnd x) := count_filter rfl
  refine ⟨by omega, ?_, fun before after he => ?_, fun op s' hs hlt => ?_⟩
  · have hexp : s.queue.sendState.queue.lifecycle.countP (SendQueue.Event.expires x) = _ :=
      countP_expires_lifecycle s.queue.sendQueue x
    have hset : s.queue.sendState.log.countP (RetransmissionQueue.Event.settles x) = _ :=
      countP_settles_log s.queue x
    omega
  · have hsent := hinv.accounted.order (before.filter RetransmissionQueue.Event.isLifecycle) x
      (after.filter RetransmissionQueue.Event.isLifecycle) (by
        show s.queue.events.filter _ = _
        rw [he, filter_append]
        rfl)
    exact mem_of_mem_filter hsent
  · have hlt' : s.queue.log.count (.onLifecycleMessageDelivered x) <
        s'.queue.log.count (.onLifecycleMessageDelivered x) := by
      have hc : ∀ rq : RetransmissionQueue (RRSendQueue τ),
          rq.log.count (.onLifecycleMessageDelivered x) =
            rq.events.count (.onLifecycleMessageDelivered x) := fun rq => count_filter rfl
      rw [hc, hc]
      exact hlt
    obtain ⟨tsn, item, hget, rfl, -, hna, hle⟩ := delivered_step hs hlt'
    have hend := (hinv.accounted.last item (OutstandingData.mem_of_getItem hget) hx).1
    exact ⟨tsn, item, hget, rfl, hend, hna, hle⟩

instance (s : SendPath τ) (op : Op) : Decidable (s.DistinctIds op) :=
  match op with
  | .sendQueue (.add ..) => inferInstanceAs (Decidable (_ ∨ _))
  | .handleSack .. | .handleT3RtxTimerExpiry | .getChunksToSend .. | .shouldSendForwardTsn _
  | .getChunksForFastRetransmit _ | .beginResetStreams | .sendQueue (.produce ..)
  | .sendQueue (.discard ..) | .sendQueue (.prepareResetStream _)
  | .sendQueue .getStreamsReadyToBeReset | .sendQueue .commitResetStreams
  | .sendQueue .rollbackResetStreams | .sendQueue .reset | .sendQueue (.setStreamPriority ..)
  | .sendQueue (.setBufferedAmountLowThreshold ..) | .sendQueue (.setMessageInterleaving _) =>
    instDecidableTrue

instance (s : SendPath τ) (op : Op) : Decidable ((machine.restrict DistinctIds).enabled s op) :=
  inferInstanceAs (Decidable (s.enabled op ∧ s.DistinctIds op))

theorem reachable_lifecycle_delivered :
    ∃ s : SendPath ℚ, (machine.restrict DistinctIds).Reachable s ∧
      s.queue.events.countP (RetransmissionQueue.Event.settles 7) = 1 ∧
      s.queue.sendQueue.ctx.events.countP (SendQueue.Event.expires 7) = 0 ∧
      s.queue.sendQueue.ctx.events.count (.onLifecycleEnd 7) +
        s.queue.events.count (.onLifecycleEnd 7) ≤ 1 := by
  have h0 : (machine.restrict DistinctIds).Reachable associated :=
    .initial ⟨_, _, _, _, _, _, _, _, _, rfl⟩
  have hrun : ((machine.restrict DistinctIds).run associated
      [.sendQueue (.add (.micros 0) ⟨1, 53, [1]⟩ ⟨false, none, none, 7⟩),
        .getChunksToSend (.micros 0) 20, .handleSack (.micros 1) ⟨10, 1000, [], []⟩]).map
      (fun s => s.queue.events.countP (RetransmissionQueue.Event.settles 7)) = some 1 := by
    decide +kernel
  obtain ⟨s, hs, hone⟩ := map_eq_some_iff.mp hrun
  obtain ⟨hend, hsettled, -⟩ := reachable_lifecycle (h0.run hs) (show (7 : LifecycleId) ≠ 0 by decide)
  exact ⟨s, h0.run hs, hone, by omega, hend⟩

end SendPath

end WebRtc.DcSctp
