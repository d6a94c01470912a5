import WebRtc.DcSctp.OutstandingConsistency
import WebRtc.DcSctp.RetransmissionQueue

/-! The operations of the retransmission queue keep its outstanding data consistent, and no check
fails in them. -/

namespace WebRtc.DcSctp.RetransmissionQueue

open OutstandingData

variable {σ : Type}

structure Settled (rq : RetransmissionQueue σ) : Prop where
  consistent : rq.outstandingData.Consistent
  noFast : NoFast rq.outstandingData
  header : 0 < rq.dataChunkHeaderSize

theorem Settled.of_keeps {rq rq' : RetransmissionQueue σ} (h : rq.Settled)
    (hk : Keeps rq.outstandingData rq'.outstandingData) : rq'.Settled := by
  refine ⟨hk.consistent, hk.noFast h.noFast, ?_⟩
  rw [dataChunkHeaderSize, hk.ext.header]
  exact h.header

section Congestion

variable (rq : RetransmissionQueue σ)

def Event.isLifecycle : Event → Bool
  | .onLifecycleMessageDelivered _ | .onLifecycleMessageExpired .. | .onLifecycleMessageFullySent _
  | .onLifecycleEnd _ => true
  | .onNewRtt _ | .onClearRetransmissionCounter => false

def log (rq : RetransmissionQueue σ) : List Event := rq.events.filter Event.isLifecycle

structure SameFlow (rq rq' : RetransmissionQueue σ) : Prop where
  options : rq'.options = rq.options
  partialReliability : rq'.partialReliability = rq.partialReliability
  outstandingData : rq'.outstandingData = rq.outstandingData
  sendQueue : rq'.sendQueue = rq.sendQueue
  log : rq'.log = rq.log
  rwnd : rq'.rwnd = rq.rwnd
  rwndWrapped : rq'.rwndWrapped = rq.rwndWrapped

theorem SameFlow.refl (rq : RetransmissionQueue σ) : SameFlow rq rq :=
  ⟨rfl, rfl, rfl, rfl, rfl, rfl, rfl⟩

theorem SameFlow.trans {rq rq' rq'' : RetransmissionQueue σ} (h : SameFlow rq rq')
    (h' : SameFlow rq' rq'') : SameFlow rq rq'' where
  options := h'.options.trans h.options
  partialReliability := h'.partialReliability.trans h.partialReliability
  outstandingData := h'.outstandingData.trans h.outstandingData
  sendQueue := h'.sendQueue.trans h.sendQueue
  log := h'.log.trans h.log
  rwnd := h'.rwnd.trans h.rwnd
  rwndWrapped := h'.rwndWrapped.trans h.rwndWrapped

theorem SameFlow.ite {rq rq' : RetransmissionQueue σ} {p : Prop} [Decidable p]
    (h : SameFlow rq rq') : SameFlow rq (if p then rq' else rq) := by
  split_ifs
  · exact h
  · exact .refl rq

theorem sameFlow_notify (event : Event) (h : event.isLifecycle = false) :
    SameFlow rq (rq.notify [event]) :=
  ⟨rfl, rfl, rfl, rfl, by simp [RetransmissionQueue.log, notify, h], rfl, rfl⟩

theorem sameFlow_prepareForSack (now : Timestamp) (cum : Int) (blocks : List GapAckBlock) :
    SameFlow rq (rq.prepareForSack now cum blocks) := by
  have hrtt : SameFlow rq (rq.updateRTT now cum) := by
    simp only [updateRTT]
    split
    · exact .refl rq
    · exact sameFlow_notify rq _ rfl
  refine (hrtt.ite (p := blocks.isEmpty = true)).trans ?_
  exact .ite ⟨rfl, rfl, rfl, rfl, rfl, rfl, rfl⟩

theorem sameFlow_handleIncreasedCumulativeTsnAck (unackedBytes totalBytesAcked : Nat) :
    SameFlow rq (rq.handleIncreasedCumulativeTsnAck unackedBytes totalBytesAcked) := by
  simp only [handleIncreasedCumulativeTsnAck]
  split
  · exact .ite ⟨rfl, rfl, rfl, rfl, rfl, rfl, rfl⟩
  · split_ifs <;> exact ⟨rfl, rfl, rfl, rfl, rfl, rfl, rfl⟩

theorem sameFlow_handlePacketLoss : SameFlow rq rq.handlePacketLoss := by
  simp only [handlePacketLoss]
  split_ifs <;> exact ⟨rfl, rfl, rfl, rfl, rfl, rfl, rfl⟩

theorem updateReceiverWindow_rwnd (aRwnd : BitVec 32) :
    (rq.updateReceiverWindow aRwnd).rwnd = aRwnd.toNat - rq.unackedBytes := by
  simp only [updateReceiverWindow]
  split_ifs <;> omega

theorem controlCongestion_flow (oldLast cum : Int) (oldUnacked : Nat) (aRwnd : BitVec 32)
    (ackInfo : AckInfo) : SameFlow (rq.updateReceiverWindow aRwnd)
      (rq.controlCongestion oldLast cum oldUnacked aRwnd ackInfo) := by
  simp only [controlCongestion]
  have hstop : SameFlow (rq.updateReceiverWindow aRwnd) (rq.updateReceiverWindow aRwnd).stopT3Rtx :=
    ⟨rfl, rfl, rfl, rfl, rfl, rfl, rfl⟩
  have hack := hstop.trans
    (sameFlow_handleIncreasedCumulativeTsnAck _ oldUnacked ackInfo.bytesAcked)
  refine (hack.ite (p := oldLast < cum)).trans
    (((sameFlow_handlePacketLoss _).ite (p := ackInfo.hasPacketLoss = true)).trans
      (.trans ((sameFlow_notify _ .onClearRetransmissionCounter rfl).ite (p := 0 < ackInfo.bytesAcked)) ?_))
  simp only [startT3RtxTimerIfOutstandingData]
  split_ifs <;> exact ⟨rfl, rfl, rfl, rfl, rfl, rfl, rfl⟩

theorem sameFlow_countRetransmitted (retransmitted : List (TSN × Data))
    (bytes : Nat) : SameFlow rq (rq.countRetransmitted retransmitted bytes) := by
  simp only [countRetransmitted]
  split_ifs <;> exact ⟨rfl, rfl, rfl, rfl, rfl, rfl, rfl⟩

theorem sameFlow_startT3RtxIfSent (toBeSent : List (TSN × Data)) :
    SameFlow rq (rq.startT3RtxIfSent toBeSent) := by
  simp only [startT3RtxIfSent]
  split_ifs <;> exact ⟨rfl, rfl, rfl, rfl, rfl, rfl, rfl⟩

end Congestion

theorem getChunksForFastRetransmit_settled {rq : RetransmissionQueue σ}
    (hc : rq.outstandingData.Consistent) (hh : 0 < rq.dataChunkHeaderSize) {bytes : Nat}
    {r : List (TSN × Data) × RetransmissionQueue σ}
    (hr : rq.getChunksForFastRetransmit bytes = some r) :
    r.2.Settled ∧ r.2.rwnd = rq.rwnd ∧ r.2.rwndWrapped = rq.rwndWrapped := by
  simp only [getChunksForFastRetransmit] at hr
  obtain ⟨-, -, hr⟩ := Option.bind_eq_some_iff.mp hr
  obtain ⟨⟨toBeSent, outstandingData⟩, hget, hr⟩ := Option.bind_eq_some_iff.mp hr
  obtain ⟨-, -, hr⟩ := Option.bind_eq_some_iff.mp hr
  cases hr
  obtain ⟨hc', hext, hfast⟩ := (hc.getChunksToBeFastRetransmitted bytes).of_eq_some hget
  refine ⟨⟨hc', hfast, ?_⟩, rfl, rfl⟩
  rw [dataChunkHeaderSize, hext.header]
  exact hh

section Operations

variable [SendQueue σ] {rq : RetransmissionQueue σ}

/-- A valid SACK leaves the advertised window less what is in flight. Without gap blocks it only
removes the chunks up to the cumulative ack. -/
structure AfterSack (sack : SackChunk) (rq rq' : RetransmissionQueue σ) : Prop where
  consistent : rq'.outstandingData.Consistent
  header : rq'.dataChunkHeaderSize = rq.dataChunkHeaderSize
  rwnd : rq'.rwnd = sack.aRwnd.toNat - rq'.unackedBytes
  rwndWrapped : rq'.rwndWrapped = rq.rwndWrapped
  drop : sack.gapAckBlocks = [] → rq'.outstandingData.outstandingData =
    rq.outstandingData.outstandingData.drop
      (rq.tsnUnwrapper.peekUnwrap sack.cumulativeTsnAck -
        rq.outstandingData.lastCumulativeTsnAck).toNat

theorem Settled.handleSack (h : rq.Settled) (now : Timestamp) (sack : SackChunk) :
    Ensures (rq.handleSack now sack) fun r => r = (false, rq) ∨ r.1 = true ∧ AfterSack sack rq r.2 := by
  by_cases hv : rq.isSackValid sack = true
  · simp only [RetransmissionQueue.handleSack, if_pos hv]
    set rq₀ : RetransmissionQueue σ :=
      { rq with tsnUnwrapper := (rq.tsnUnwrapper.unwrap sack.cumulativeTsnAck).2 }
    have hprep := sameFlow_prepareForSack rq₀ now
      (rq.tsnUnwrapper.unwrap sack.cumulativeTsnAck).1 sack.gapAckBlocks
    generalize rq₀.prepareForSack now _ _ = rq₁ at hprep ⊢
    rw [hprep.outstandingData]
    refine (h.consistent.handleSack SendQueue.discard h.noFast hv _ _).bind ?_
    rintro ⟨ackInfo, outstandingData, sendQueue⟩ ⟨hc, hlast, hheader, hdrop⟩
    have hflow := controlCongestion_flow
      ({ rq₁ with outstandingData, sendQueue }.notifyAcked ackInfo)
      rq.outstandingData.lastCumulativeTsnAck
      (rq.tsnUnwrapper.unwrap sack.cumulativeTsnAck).1 rq.unackedBytes sack.aRwnd ackInfo
    refine .some (.inr ⟨rfl, ?_, ?_, ?_, ?_, ?_⟩)
    · rw [hflow.outstandingData]
      exact hc
    · rw [dataChunkHeaderSize, hflow.outstandingData]
      exact hheader
    · rw [hflow.rwnd, unackedBytes, hflow.outstandingData]
      exact updateReceiverWindow_rwnd _ _
    · rw [hflow.rwndWrapped]
      exact hprep.rwndWrapped
    · intro hb
      rw [hflow.outstandingData]
      exact hdrop hb
  · simp only [RetransmissionQueue.handleSack, if_neg hv]
    exact .some (.inl rfl)

theorem Settled.handleT3RtxTimerExpiry (h : rq.Settled) :
    Ensures rq.handleT3RtxTimerExpiry fun rq' => rq'.Settled ∧ rq'.rwnd = rq.rwnd ∧
      rq'.rwndWrapped = rq.rwndWrapped := by
  refine (h.consistent.nackAll SendQueue.discard rq.sendQueue).bind ?_
  rintro ⟨outstandingData, sendQueue⟩ hk
  exact .some ⟨h.of_keeps hk, rfl, rfl⟩

theorem shouldSendForwardTsn_flow (hc : rq.outstandingData.Consistent) (now : Timestamp) :
    Keeps rq.outstandingData (rq.shouldSendForwardTsn now).2.outstandingData ∧
      (rq.shouldSendForwardTsn now).2.rwnd = rq.rwnd ∧
      (rq.shouldSendForwardTsn now).2.rwndWrapped = rq.rwndWrapped := by
  simp only [shouldSendForwardTsn]
  split_ifs
  · exact ⟨hc.expireLoop SendQueue.discard, rfl, rfl⟩
  · exact ⟨.refl hc, rfl, rfl⟩

theorem Settled.beginResetStreams (h : rq.Settled) : rq.beginResetStreams.2.Settled := by
  have hc := h.consistent
  exact ⟨⟨hc.bytes, hc.items, hc.retransmit, hc.disjoint, hc.nacked⟩, h.noFast, h.header⟩

theorem sendNewChunk_spec (rq : RetransmissionQueue σ) (hc : rq.outstandingData.Consistent)
    (now : Timestamp) (chunk : SendQueue.DataToSend) :
    Keeps rq.outstandingData (rq.sendNewChunk now chunk).2.outstandingData ∧
      (rq.sendNewChunk now chunk).2.rwnd = toSizeT (rq.rwnd - rq.getSerializedChunkSize chunk.data) ∧
      (rq.sendNewChunk now chunk).2.rwndWrapped =
        (rq.rwndWrapped || rq.rwnd < rq.getSerializedChunkSize chunk.data) ∧
      (rq.sendNewChunk now chunk).2.rtxBytesCount = rq.rtxBytesCount ∧
      ((rq.sendNewChunk now chunk).1 = [] ∨
        ∃ tsn, (rq.sendNewChunk now chunk).1 = [(tsn, chunk.data)]) := by
  have hk := hc.insert SendQueue.discard chunk.messageId chunk.data now
    (if rq.partialReliability then chunk.maxRetransmissions else .noLimit)
    (if rq.partialReliability then chunk.expiresAt else .plusInfinity) chunk.lifecycleId rq.sendQueue
  simp only [sendNewChunk]
  generalize OutstandingData.insert SendQueue.discard chunk.messageId chunk.data now _ _ _
    (rq.outstandingData, rq.sendQueue) = r at hk ⊢
  obtain ⟨tsn, outstandingData, sendQueue⟩ := r
  cases tsn with
  | none => exact ⟨hk, rfl, rfl, rfl, .inl rfl⟩
  | some tsn =>
    refine ⟨?_, ?_, ?_, ?_, .inr ⟨_, rfl⟩⟩
    all_goals simp only
    all_goals split_ifs
    all_goals first | exact hk | rfl

theorem sendNewChunks_keeps (now : Timestamp) (rounds maxBytes : Nat)
    (hc : rq.outstandingData.Consistent) :
    Keeps rq.outstandingData (rq.sendNewChunks now rounds maxBytes).2.outstandingData := by
  induction rounds generalizing rq maxBytes with
  | zero => exact .refl hc
  | succ rounds ih =>
    simp only [sendNewChunks]
    split_ifs
    · split
      · exact .refl hc
      · rename_i chunk sendQueue _
        have hk := (sendNewChunk_spec { rq with sendQueue } hc now chunk).1
        exact hk.trans (ih _ hk.consistent)
    · exact .refl hc

theorem sendNewChunks_succ_rounds (now : Timestamp) {rounds maxBytes : Nat}
    (hc : rq.outstandingData.Consistent) (hh : 0 < rq.dataChunkHeaderSize)
    (hle : maxBytes ≤ rounds) :
    rq.sendNewChunks now (rounds + 1) maxBytes = rq.sendNewChunks now rounds maxBytes := by
  induction rounds generalizing rq maxBytes with
  | zero => simp only [sendNewChunks, if_neg (show ¬ rq.dataChunkHeaderSize < maxBytes by omega)]
  | succ rounds ih =>
    by_cases hb : rq.dataChunkHeaderSize < maxBytes
    · rw [sendNewChunks, if_pos hb, sendNewChunks, if_pos hb]
      cases SendQueue.produce now (maxBytes - rq.dataChunkHeaderSize) rq.sendQueue with
      | mk data sendQueue =>
        cases data with
        | none => rfl
        | some chunk =>
          have hk := (sendNewChunk_spec { rq with sendQueue } hc now chunk).1
          have hpos : rq.dataChunkHeaderSize ≤ rq.getSerializedChunkSize chunk.data := by
            simp only [getSerializedChunkSize, roundUpTo4]
            omega
          have hh' : 0 < (sendNewChunk now chunk { rq with sendQueue }).2.dataChunkHeaderSize := by
            rw [dataChunkHeaderSize, hk.ext.header]
            exact hh
          simp only [ih hk.consistent hh'
            (show maxBytes - rq.getSerializedChunkSize chunk.data ≤ rounds by omega)]
    · rw [sendNewChunks, if_neg hb, sendNewChunks, if_neg hb]

theorem Settled.getChunksToSend (h : rq.Settled) (now : Timestamp) {bytes : Nat}
    (hb : bytes % 4 = 0) : Ensures (rq.getChunksToSend now bytes) fun r =>
      Keeps rq.outstandingData r.2.outstandingData := by
  refine Ensures.guard_bind hb ?_
  refine (h.consistent.getChunksToBeRetransmitted h.noFast _).bind ?_
  rintro ⟨retransmitted, outstandingData⟩ ⟨hk, -⟩
  refine .some ?_
  rw [(sameFlow_startT3RtxIfSent _ _).outstandingData]
  have hcount := sameFlow_countRetransmitted { rq with outstandingData } retransmitted
    (toSizeT (accumulateInt (retransmitted.map fun c => rq.getSerializedChunkSize c.2)))
  have hk' : Keeps rq.outstandingData (countRetransmitted retransmitted
      (toSizeT (accumulateInt (retransmitted.map fun c => rq.getSerializedChunkSize c.2)))
      { rq with outstandingData }).outstandingData := by
    rw [hcount.outstandingData]
    exact hk
  exact hk'.trans (sendNewChunks_keeps now _ _ hk'.consistent)

end Operations

end WebRtc.DcSctp.RetransmissionQueue
