import WebRtc.DcSctp.OutstandingItems
import WebRtc.DcSctp.RetransmissionConsistency
import WebRtc.DcSctp.SendQueueLedger
import WebRtc.DcSctp.SendQueueRuns

/-! The send path: messages are queued, sent and resent, until they are acked or given up. Every
call of the retransmission queue is a chain of small steps on the outstanding items, the queued
messages and the reports about them. -/

namespace WebRtc.DcSctp

open RRSendQueue Option

open OutstandingData (Item Evolves Moves Resends Acked Exhausted Expired)

structure SendState where
  outstanding : OutstandingData
  queue : SendQueueView
  log : List RetransmissionQueue.Event

namespace SendState

def ackReports (acked abandoned : List LifecycleId) : List RetransmissionQueue.Event :=
  (acked.flatMap fun x => [.onLifecycleMessageDelivered x, .onLifecycleEnd x]) ++
    abandoned.flatMap fun x => [.onLifecycleMessageExpired x true, .onLifecycleEnd x]

def newItem (partialReliability : Bool) (now : Timestamp) (chunk : SendQueue.DataToSend) : Item :=
  .new chunk.messageId chunk.data now
    (if partialReliability then chunk.maxRetransmissions else .noLimit)
    (if partialReliability then chunk.expiresAt else .plusInfinity) chunk.lifecycleId

/-- Items fail for the reason `F`. -/
inductive Step (partialReliability : Bool) (F : Item → Prop) : SendState → SendState → Prop
  | move {od od' : OutstandingData} {v v' : SendQueueView} {log : List RetransmissionQueue.Event}
      {dropped : List QueuedMessage} (he : Evolves F od od') (hv : SendQueueView.Sheds dropped v v') :
      Step partialReliability F ⟨od, v, log⟩ ⟨od', v', log⟩
  | resend {od od' : OutstandingData} {v : SendQueueView} {log : List RetransmissionQueue.Event}
      (hF : ∀ x : Item, F x.markAsRetransmitted.core → F x.core) (h : Resends od od') : Step partialReliability F ⟨od, v, log⟩ ⟨od', v, log⟩
  | ack {od od' : OutstandingData} {v : SendQueueView} {log : List RetransmissionQueue.Event}
      {popped : List Item} {info info' : OutstandingData.AckInfo} (hi : info.ackedLifecycleIds = [])
      (hi' : info.abandonedLifecycleIds = []) (h : Acked od info popped (od', info')) :
      Step partialReliability F ⟨od, v, log⟩
        ⟨od', v, log ++ ackReports info'.ackedLifecycleIds info'.abandonedLifecycleIds⟩
  | send {od od' : OutstandingData} {v v' v'' : SendQueueView}
      {log log' : List RetransmissionQueue.Event} {sent dropped : List QueuedMessage} (now : Timestamp)
      (chunk : SendQueue.DataToSend) (hs : SendQueueView.Sends sent chunk v v')
      (he : Evolves F (od.pushBack (newItem partialReliability now chunk)) od')
      (hv : SendQueueView.Sheds dropped v' v'')
      (hl : (∃ b, od'.getItem od.nextTsn = some b ∧ b.isAbandoned) ∧ log' = log ∨
        log' = log ++ if chunk.lifecycleId = 0 then []
          else [.onLifecycleMessageFullySent chunk.lifecycleId]) :
      Step partialReliability F ⟨od, v, log⟩ ⟨od', v'', log'⟩

end SendState

namespace RetransmissionQueue

open SendState

variable {τ : Type} [VirtualTime τ] {rq rq' rq'' : RetransmissionQueue (RRSendQueue τ)}
  {F : Item → Prop}

def sendState (rq : RetransmissionQueue (RRSendQueue τ)) : SendState :=
  ⟨rq.outstandingData, rq.sendQueue.view, rq.log⟩

structure Advances (F : Item → Prop) (rq rq' : RetransmissionQueue (RRSendQueue τ)) : Prop where
  keyed : rq'.sendQueue.Keyed
  partialReliability : rq'.partialReliability = rq.partialReliability
  steps : Relation.ReflTransGen (Step rq.partialReliability F) rq.sendState rq'.sendState

theorem Advances.refl (h : rq.sendQueue.Keyed) : Advances F rq rq := ⟨h, rfl, .refl⟩

theorem Advances.trans (h : Advances F rq rq') (h' : Advances F rq' rq'') : Advances F rq rq'' :=
  ⟨h'.keyed, h'.partialReliability.trans h.partialReliability,
    h.steps.trans (h.partialReliability ▸ h'.steps)⟩

theorem Advances.single (hk : rq'.sendQueue.Keyed)
    (hp : rq'.partialReliability = rq.partialReliability)
    (hs : Step rq.partialReliability F rq.sendState rq'.sendState) : Advances F rq rq' :=
  ⟨hk, hp, .single hs⟩

variable {q q' : RRSendQueue τ}

theorem sheds_discards (h : q.Keyed) (hd : OutstandingData.Discards SendQueue.discard q q') :
    q'.Keyed ∧ ∃ dropped, SendQueueView.Sheds dropped q.view q'.view := by
  induction hd with
  | refl q => exact ⟨h, [], .refl _⟩
  | @step q q' id messageId _ ih =>
    have hview := view_discard h id messageId
    have hk : (q.discard id messageId).2.Keyed := h.putStream _
    obtain ⟨hk', dropped, hs⟩ := ih hk
    refine ⟨hk', ?_⟩
    cases hd : (q.view.streams id).discard messageId with
    | none =>
      simp only [hd] at hview
      exact ⟨dropped, hview.2 ▸ hs⟩
    | some r =>
      simp only [hd] at hview
      exact ⟨[r.1] ++ dropped, (SendQueueView.sheds_discard hd).trans (hview.2 ▸ hs)⟩

theorem advances_moves {od od' : OutstandingData} (h : q.Keyed)
    (hm : Moves SendQueue.discard F (od, q) (od', q')) (partialReliability : Bool)
    (log : List RetransmissionQueue.Event) :
    q'.Keyed ∧ Step partialReliability F ⟨od, q.view, log⟩ ⟨od', q'.view, log⟩ := by
  obtain ⟨hk, dropped, hs⟩ := sheds_discards h hm.discards
  exact ⟨hk, .move hm.evolves hs⟩

theorem SameFlow.advances (h : SameFlow rq rq') (hk : rq.sendQueue.Keyed) : Advances F rq rq' := by
  have hs : rq'.sendState = rq.sendState := by
    simp only [sendState, h.outstandingData, h.sendQueue, h.log]
  exact ⟨h.sendQueue ▸ hk, h.partialReliability, hs ▸ .refl⟩

theorem advances_handleT3RtxTimerExpiry (hk : rq.sendQueue.Keyed)
    (h : rq.handleT3RtxTimerExpiry = some rq') : Advances Exhausted rq rq' := by
  obtain ⟨⟨od, q⟩, hn, h⟩ := bind_eq_some_iff.mp h
  cases h
  obtain ⟨hk', hs⟩ := advances_moves hk (OutstandingData.moves_nackAll hn) rq.partialReliability rq.log
  exact .single hk' rfl hs

theorem log_notifyAcked (rq : RetransmissionQueue (RRSendQueue τ)) (info : OutstandingData.AckInfo) :
    (rq.notifyAcked info).log =
      rq.log ++ ackReports info.ackedLifecycleIds info.abandonedLifecycleIds := by
  have hall : ∀ e ∈ ackReports info.ackedLifecycleIds info.abandonedLifecycleIds,
      Event.isLifecycle e = true := by
    intro e he
    simp only [ackReports, List.mem_append, List.mem_flatMap, List.mem_cons, List.not_mem_nil,
      or_false] at he
    rcases he with ⟨x, -, rfl | rfl⟩ | ⟨x, -, rfl | rfl⟩ <;> rfl
  simp only [notifyAcked, notify, log, List.filter_append]
  congr 1
  have hfilter := List.filter_eq_self.mpr hall
  simpa only [ackReports, List.filter_append] using hfilter

variable {now : Timestamp}

theorem handleSack_cases {sack : SackChunk}
    {r : Bool × RetransmissionQueue (RRSendQueue τ)} (h : rq.handleSack now sack = some r) :
    r.2 = rq ∨ ∃ popped od info info',
      Acked rq.outstandingData info popped (od, info') ∧ info.ackedLifecycleIds = [] ∧
      info.abandonedLifecycleIds = [] ∧ Moves SendQueue.discard Exhausted (od, rq.sendQueue)
        (r.2.outstandingData, r.2.sendQueue) ∧
      r.2.log = rq.log ++ ackReports info'.ackedLifecycleIds info'.abandonedLifecycleIds ∧
      r.2.partialReliability = rq.partialReliability := by
  simp only [handleSack] at h
  split_ifs at h
  · set rq₀ : RetransmissionQueue (RRSendQueue τ) :=
      { rq with tsnUnwrapper := (rq.tsnUnwrapper.unwrap sack.cumulativeTsnAck).2 }
    have hprep := sameFlow_prepareForSack rq₀ now
      (rq.tsnUnwrapper.unwrap sack.cumulativeTsnAck).1 sack.gapAckBlocks
    generalize rq₀.prepareForSack now _ _ = rq₁ at h hprep
    obtain ⟨⟨info, od, q⟩, hsack, h⟩ := bind_eq_some_iff.mp h
    cases h
    obtain ⟨popped, od₁, hacked, hmoves⟩ := OutstandingData.moves_handleSack hsack
    have hflow := controlCongestion_flow
      ({ rq₁ with outstandingData := od, sendQueue := q }.notifyAcked info)
      rq.outstandingData.lastCumulativeTsnAck
      (rq.tsnUnwrapper.unwrap sack.cumulativeTsnAck).1 rq.unackedBytes sack.aRwnd info
    have hlog : (({ rq₁ with outstandingData := od, sendQueue := q }.notifyAcked info)
        |>.updateReceiverWindow sack.aRwnd).log =
          rq.log ++ ackReports info.ackedLifecycleIds info.abandonedLifecycleIds := by
      refine (log_notifyAcked _ info).trans (congrArg (· ++ _) ?_)
      exact hprep.log
    rw [hprep.outstandingData] at hacked
    rw [hprep.sendQueue] at hmoves
    refine .inr ⟨popped, od₁, _, info, hacked, rfl, rfl, ?_, hflow.log.trans hlog,
      hflow.partialReliability.trans hprep.partialReliability⟩
    simp only [hflow.outstandingData, hflow.sendQueue]
    exact hmoves
  · cases h
    exact .inl rfl

theorem advances_handleSack (hk : rq.sendQueue.Keyed) {sack : SackChunk}
    {r : Bool × RetransmissionQueue (RRSendQueue τ)} (h : rq.handleSack now sack = some r) :
    Advances Exhausted rq r.2 := by
  rcases handleSack_cases h with heq | ⟨popped, od, info, info', hacked, hi, hi', hmoves, hlog, hp⟩
  · rw [heq]
    exact .refl hk
  · obtain ⟨hk', hmove⟩ := advances_moves hk hmoves rq.partialReliability r.2.log
    rw [hlog] at hmove
    have hlast : r.2.sendState = ⟨r.2.outstandingData, r.2.sendQueue.view,
        rq.log ++ ackReports info'.ackedLifecycleIds info'.abandonedLifecycleIds⟩ := by
      rw [sendState, hlog]
    exact ⟨hk', hp, .head (.ack hi hi' hacked) (hlast ▸ .single hmove)⟩

theorem advances_shouldSendForwardTsn (hk : rq.sendQueue.Keyed) (now : Timestamp) :
    Advances (Expired now) rq (rq.shouldSendForwardTsn now).2 := by
  simp only [shouldSendForwardTsn]
  split_ifs
  · obtain ⟨hk', hs⟩ := advances_moves hk
      (OutstandingData.moves_expireLoop (rq.outstandingData.tsns) (rq.outstandingData, rq.sendQueue))
      rq.partialReliability rq.log
    exact .single hk' rfl hs
  · exact .refl hk

variable {r : List (TSN × Data) × RetransmissionQueue (RRSendQueue τ)}

section

variable (hk : rq.sendQueue.Keyed)
include hk

theorem advances_getChunksForFastRetransmit {bytes : Nat}
    (hF : ∀ x : Item, F x.markAsRetransmitted.core → F x.core)
    (h : rq.getChunksForFastRetransmit bytes = some r) : Advances F rq r.2 := by
  obtain ⟨-, -, h⟩ := bind_eq_some_iff.mp h
  obtain ⟨⟨toBeSent, od⟩, hget, h⟩ := bind_eq_some_iff.mp h
  obtain ⟨-, -, h⟩ := bind_eq_some_iff.mp h
  cases h
  obtain ⟨⟨sent, od₁⟩, hloop, hget⟩ := bind_eq_some_iff.mp hget
  cases hget
  have hr := OutstandingData.resends_extractLoop hloop
  exact .single hk rfl (.resend hF (hr.trans (OutstandingData.SameItems.resends ⟨rfl, rfl, rfl⟩)))

theorem advances_beginResetStreams : Advances F rq rq.beginResetStreams.2 := by
  obtain ⟨hk', hv⟩ := view_getStreamsReadyToBeReset hk
  have hs : SendQueueView.Sheds [] rq.sendQueue.view rq.beginResetStreams.2.sendQueue.view := by
    refine Eq.mpr (congrArg _ hv) ?_
    exact SendQueueView.sheds_changeStreams _ _ (fun m item' h' => ⟨item', h', rfl, rfl⟩)
      fun m x => rfl
  exact .single hk' rfl (.move (.of_sameItems ⟨rfl, rfl, rfl⟩) hs)

theorem advances_sendNewChunk {maxSize : Nat} {chunk : SendQueue.DataToSend} {q : RRSendQueue τ}
    (hp : rq.sendQueue.produce now maxSize = (some chunk, q)) :
    Advances (Expired now) rq ({ rq with sendQueue := q }.sendNewChunk now chunk).2 := by
  obtain ⟨hkq, -, hproduce⟩ := view_produce hk now maxSize
  rw [hp] at hkq hproduce
  obtain ⟨id, hproduce, -⟩ := hproduce
  obtain ⟨sent, hsends⟩ := SendQueueView.Produces.sends hproduce
  generalize hlimit :
    (if rq.partialReliability then chunk.maxRetransmissions else MaxRetransmits.noLimit) = limit
  generalize hexpiry :
    (if rq.partialReliability then chunk.expiresAt else Timestamp.plusInfinity) = expiry
  have hitem : newItem rq.partialReliability now chunk =
      .new chunk.messageId chunk.data now limit expiry chunk.lifecycleId := by
    rw [newItem, hlimit, hexpiry]
  have hmoves : Moves SendQueue.discard (Expired now)
      (rq.outstandingData.pushBack (newItem rq.partialReliability now chunk), q)
      (OutstandingData.insert SendQueue.discard chunk.messageId chunk.data now limit expiry
        chunk.lifecycleId (rq.outstandingData, q)).2 := by
    rw [hitem]
    exact OutstandingData.moves_insert _ _ _ _ _ _ (rq.outstandingData, q)
  have habandoned : (OutstandingData.insert SendQueue.discard chunk.messageId chunk.data now limit
      expiry chunk.lifecycleId (rq.outstandingData, q)).1 = none → _ :=
    OutstandingData.isAbandoned_insert
  simp only [sendNewChunk, hlimit, hexpiry]
  generalize OutstandingData.insert SendQueue.discard chunk.messageId chunk.data now limit expiry
    chunk.lifecycleId (rq.outstandingData, q) = r at hmoves habandoned ⊢
  obtain ⟨tsn, od, q'⟩ := r
  obtain ⟨hk', dropped, hs⟩ := sheds_discards hkq hmoves.discards
  cases tsn with
  | none =>
    refine .single hk' rfl (.send now chunk hsends hmoves.evolves hs (.inl ⟨habandoned rfl, ?_⟩))
    rfl
  | some tsn =>
    by_cases h0 : chunk.lifecycleId = 0
    · simp only [h0, if_true]
      refine .single hk' rfl (.send now chunk hsends hmoves.evolves hs (.inr ?_))
      simp [h0, log]
    · simp only [h0, if_false]
      refine .single hk' rfl (.send now chunk hsends hmoves.evolves hs (.inr ?_))
      rw [if_neg h0]
      exact List.filter_append _ _

theorem advances_sendNewChunks (now : Timestamp) (rounds maxBytes : Nat) :
    Advances (Expired now) rq (rq.sendNewChunks now rounds maxBytes).2 := by
  induction rounds generalizing rq maxBytes with
  | zero => exact .refl hk
  | succ rounds ih =>
    simp only [sendNewChunks]
    split_ifs
    · generalize hp : SendQueue.produce now (maxBytes - rq.dataChunkHeaderSize) rq.sendQueue = r
      obtain ⟨data, q⟩ := r
      cases data with
      | none =>
        obtain ⟨hkq, -, hproduce⟩ :=
          view_produce hk now (maxBytes - rq.dataChunkHeaderSize)
        have hp' : rq.sendQueue.produce now (maxBytes - rq.dataChunkHeaderSize) = (none, q) := hp
        rw [hp'] at hkq hproduce
        obtain ⟨dropped, hs⟩ := SendQueueView.Expires.sheds hproduce.1
        exact .single hkq rfl (.move (.refl _) hs)
      | some chunk =>
        have hadv := advances_sendNewChunk hk hp
        exact hadv.trans (ih hadv.keyed _)
    · exact .refl hk

theorem advances_getChunksToSend {bytes : Nat}
    (h : rq.getChunksToSend now bytes = some r) : Advances (Expired now) rq r.2 := by
  obtain ⟨-, -, h⟩ := bind_eq_some_iff.mp h
  obtain ⟨⟨retransmitted, od⟩, hget, h⟩ := bind_eq_some_iff.mp h
  obtain ⟨-, -, hget⟩ := bind_eq_some_iff.mp hget
  have hresend : Advances (Expired now) rq { rq with outstandingData := od } :=
    .single hk rfl (.resend (fun _ h => h) (OutstandingData.resends_extractLoop hget))
  cases h
  have hcount := (sameFlow_countRetransmitted { rq with outstandingData := od } retransmitted
    (toSizeT (accumulateInt (retransmitted.map fun c => rq.getSerializedChunkSize c.2)))).advances
    (F := Expired now) hk
  have hsend := advances_sendNewChunks hcount.keyed now
    (toSizeT (roundDownTo4 (min rq.maxBytesToSend bytes) -
      toSizeT (accumulateInt (retransmitted.map fun c => rq.getSerializedChunkSize c.2))))
    (toSizeT (roundDownTo4 (min rq.maxBytesToSend bytes) -
      toSizeT (accumulateInt (retransmitted.map fun c => rq.getSerializedChunkSize c.2))))
  have hall := (hresend.trans hcount).trans hsend
  exact hall.trans ((sameFlow_startT3RtxIfSent _ _).advances hall.keyed)

end

end RetransmissionQueue

open RetransmissionQueue

structure SendPath (τ : Type) [VirtualTime τ] where
  queue : RetransmissionQueue (RRSendQueue τ)
  ids : List LifecycleId

namespace SendPath

variable {τ : Type} [VirtualTime τ]

inductive Op where
  | sendQueue (op : RRSendQueue.Op)
  | handleSack (now : Timestamp) (sack : SackChunk)
  | handleT3RtxTimerExpiry
  | getChunksForFastRetransmit (bytesInPacket : Nat)
  | getChunksToSend (now : Timestamp) (bytesRemainingInPacket : Nat)
  | shouldSendForwardTsn (now : Timestamp)
  | beginResetStreams

def isDirect : RRSendQueue.Op → Bool
  | .add .. | .prepareResetStream _ | .commitResetStreams | .rollbackResetStreams
  | .setStreamPriority .. | .setBufferedAmountLowThreshold .. | .setMessageInterleaving _ => true
  | .produce .. | .discard .. | .getStreamsReadyToBeReset | .reset => false

def newIds : RRSendQueue.Op → List LifecycleId
  | .add _ _ options => [options.lifecycleId]
  | _ => []

def enabled (s : SendPath τ) : Op → Prop
  | .sendQueue op => isDirect op = true ∧ s.queue.sendQueue.Precondition op
  | _ => True

def step (s : SendPath τ) : Op → Option (SendPath τ)
  | .sendQueue op => some
    { queue := { s.queue with sendQueue := s.queue.sendQueue.exec op }, ids := newIds op ++ s.ids }
  | .handleSack now sack => do
    let (_, queue) ← s.queue.handleSack now sack
    some { s with queue }
  | .handleT3RtxTimerExpiry => do
    let queue ← s.queue.handleT3RtxTimerExpiry
    some { s with queue }
  | .getChunksForFastRetransmit bytesInPacket => do
    let (_, queue) ← s.queue.getChunksForFastRetransmit bytesInPacket
    some { s with queue }
  | .getChunksToSend now bytesRemainingInPacket => do
    let (_, queue) ← s.queue.getChunksToSend now bytesRemainingInPacket
    some { s with queue }
  | .shouldSendForwardTsn now => some { s with queue := (s.queue.shouldSendForwardTsn now).2 }
  | .beginResetStreams => some { s with queue := s.queue.beginResetStreams.2 }

def machine : Machine (SendPath τ) Op where
  initial s := ∃ options myInitialTsn aRwnd partialReliability interleaving bufferSize mtu
    defaultPriority threshold,
    s = ⟨.new options myInitialTsn aRwnd partialReliability interleaving
      (.new bufferSize mtu defaultPriority threshold), []⟩
  enabled := enabled
  step := step

instance (s : SendPath τ) (op : Op) : Decidable (s.enabled op) :=
  match op with
  | .sendQueue _ => inferInstanceAs (Decidable (_ ∧ _))
  | .handleSack .. | .handleT3RtxTimerExpiry | .getChunksForFastRetransmit _ | .getChunksToSend ..
  | .shouldSendForwardTsn _ | .beginResetStreams => instDecidableTrue

instance (s : SendPath τ) (op : Op) : Decidable (machine.enabled s op) :=
  inferInstanceAs (Decidable (s.enabled op))

def associated : SendPath ℚ :=
  ⟨.new ⟨1200, 10, 4, 6, 1080⟩ 10 1000 true false (.new 1000 1200 256 0), []⟩

def Op.reason : Op → Item → Prop
  | .handleSack .. | .handleT3RtxTimerExpiry => Exhausted
  | .getChunksToSend now _ | .shouldSendForwardTsn now => Expired now
  | .sendQueue _ | .getChunksForFastRetransmit _ | .beginResetStreams => fun _ => False

theorem sheds_direct {q : RRSendQueue τ} (hk : q.Keyed) {op : RRSendQueue.Op}
    (hd : isDirect op = true) : (∃ now message options, op = .add now message options) ∨
      (q.exec op).Keyed ∧ newIds op = [] ∧
        ∃ dropped, SendQueueView.Sheds dropped q.view (q.exec op).view := by
  cases op with
  | add now message options => exact .inl ⟨now, message, options, rfl⟩
  | prepareResetStream id =>
    refine .inr ⟨hk.updateStream _ _, rfl, (q.view.streams id).unsent, ?_⟩
    rw [exec, view_prepareResetStream hk]
    exact SendQueueView.sheds_pause q.view id
  | commitResetStreams =>
    obtain ⟨hk', hv⟩ := view_commitResetStreams hk
    refine .inr ⟨hk', rfl, [], ?_⟩
    rw [exec, hv]
    exact SendQueueView.sheds_reset q.view
  | rollbackResetStreams =>
    obtain ⟨hk', hv⟩ := view_rollbackResetStreams hk
    refine .inr ⟨hk', rfl, [], ?_⟩
    rw [exec, hv]
    exact SendQueueView.sheds_changeStreams _ _ (fun m item' h' => ⟨item', h', rfl, rfl⟩) fun m x => rfl
  | setStreamPriority id priority =>
    refine .inr ⟨hk.updateStream _ _, rfl, [], ?_⟩
    rw [exec, view_setStreamPriority hk]
    exact .refl _
  | setBufferedAmountLowThreshold id bytes =>
    refine .inr ⟨hk.updateStream _ _, rfl, [], ?_⟩
    rw [exec, view_setBufferedAmountLowThreshold hk]
    exact .refl _
  | setMessageInterleaving enabled => exact .inr ⟨hk, rfl, [], .refl q.view⟩
  | produce now maxSize => cases hd
  | discard id messageId => cases hd
  | getStreamsReadyToBeReset => cases hd
  | reset => cases hd

theorem step_cases {s s' : SendPath τ} {op : Op} (hk : s.queue.sendQueue.Keyed)
    (he : s.enabled op) (h : s.step op = some s') :
    (∃ now message options, op = .sendQueue (.add now message options) ∧
      s'.queue.sendQueue.Keyed ∧ s'.queue.partialReliability = s.queue.partialReliability ∧
      s'.ids = options.lifecycleId :: s.ids ∧ s'.queue.sendState =
        { s.queue.sendState with queue :=
            s.queue.sendState.queue.enqueue message (attributesOf now options) }) ∨
    s'.ids = s.ids ∧ RetransmissionQueue.Advances op.reason s.queue s'.queue := by
  cases op with
  | sendQueue op =>
    cases h
    rcases sheds_direct hk he.1 with ⟨now, message, options, rfl⟩ | ⟨hk', hids, dropped, hs⟩
    · refine .inl ⟨now, message, options, rfl, hk.add now message options, rfl, rfl, ?_⟩
      simp only [sendState, exec, view_add hk]
      rfl
    · exact .inr ⟨by simp [hids], .single hk' rfl (.move (.refl _) hs)⟩
  | handleSack now sack =>
    obtain ⟨r, hr, h⟩ := bind_eq_some_iff.mp h
    cases h
    exact .inr ⟨rfl, advances_handleSack hk hr⟩
  | handleT3RtxTimerExpiry =>
    obtain ⟨r, hr, h⟩ := bind_eq_some_iff.mp h
    cases h
    exact .inr ⟨rfl, advances_handleT3RtxTimerExpiry hk hr⟩
  | getChunksForFastRetransmit bytes =>
    obtain ⟨r, hr, h⟩ := bind_eq_some_iff.mp h
    cases h
    exact .inr ⟨rfl, advances_getChunksForFastRetransmit hk (fun _ h => h) hr⟩
  | getChunksToSend now bytes =>
    obtain ⟨r, hr, h⟩ := bind_eq_some_iff.mp h
    cases h
    exact .inr ⟨rfl, advances_getChunksToSend hk hr⟩
  | shouldSendForwardTsn now =>
    cases h
    exact .inr ⟨rfl, advances_shouldSendForwardTsn hk now⟩
  | beginResetStreams =>
    cases h
    exact .inr ⟨rfl, advances_beginResetStreams hk⟩

end SendPath

end WebRtc.DcSctp
