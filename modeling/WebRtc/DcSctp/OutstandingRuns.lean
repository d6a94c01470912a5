import WebRtc.DcSctp.OutstandingConsistency

/-! Runs of the outstanding data, in the order in which the socket calls its operations. The
send queue that answers whether it discarded anything is arbitrary. -/

namespace WebRtc.DcSctp.OutstandingData

inductive Op where
  | insert (messageId : OutgoingMessageId) (data : Data) (timeSent : Timestamp)
      (maxRetransmissions : MaxRetransmits) (expiresAt : Timestamp) (lifecycleId : LifecycleId)
  | handleSack (cumulativeTsnAck : Int) (sack : SackChunk) (isInFastRecovery : Bool)
  | getChunksToBeFastRetransmitted (maxSize : Nat)
  | getChunksToBeRetransmitted (maxSize : Nat)
  | nackAll
  | expireOutstandingChunks (now : Timestamp)
  | beginResetStreams

structure Driver (σ : Type) where
  data : OutstandingData
  queue : σ
  mustFastRetransmit : Bool

variable {σ : Type} (discard : StreamID → OutgoingMessageId → σ → Bool × σ)

def Driver.step (s : Driver σ) : Op → Option (Driver σ)
  | .insert messageId data timeSent maxRetransmissions expiresAt lifecycleId =>
    let r := insert discard messageId data timeSent maxRetransmissions expiresAt lifecycleId
      (s.data, s.queue)
    some { s with data := r.2.1, queue := r.2.2 }
  | .handleSack cumulativeTsnAck sack isInFastRecovery => do
    let (_, data, queue) ← handleSack discard cumulativeTsnAck (ChunkValidators.clean sack).gapAckBlocks
      isInFastRecovery (s.data, s.queue)
    some { data, queue, mustFastRetransmit := data.hasDataToBeFastRetransmitted }
  | .getChunksToBeFastRetransmitted maxSize => do
    let (_, data) ← s.data.getChunksToBeFastRetransmitted maxSize
    some { s with data, mustFastRetransmit := false }
  | .getChunksToBeRetransmitted maxSize => do
    let (_, data) ← s.data.getChunksToBeRetransmitted maxSize
    some { s with data }
  | .nackAll => do
    let (data, queue) ← nackAll discard (s.data, s.queue)
    some { s with data, queue }
  | .expireOutstandingChunks now =>
    let r := expireOutstandingChunks discard now (s.data, s.queue)
    some { s with data := r.1, queue := r.2 }
  | .beginResetStreams => some { s with data := s.data.beginResetStreams }

def Driver.enabled (s : Driver σ) : Op → Prop
  | .getChunksToBeFastRetransmitted _ => True
  | .handleSack cumulativeTsnAck sack _ => s.mustFastRetransmit = false ∧
    s.data.isSackValid cumulativeTsnAck (ChunkValidators.clean sack).gapAckBlocks
  | _ => s.mustFastRetransmit = false

instance (s : Driver σ) (op : Op) : Decidable (s.enabled op) :=
  match op with
  | .getChunksToBeFastRetransmitted _ => inferInstanceAs (Decidable True)
  | .handleSack _ _ _ => inferInstanceAs (Decidable (_ ∧ _))
  | .insert .. => inferInstanceAs (Decidable (_ = _))
  | .getChunksToBeRetransmitted _ => inferInstanceAs (Decidable (_ = _))
  | .nackAll => inferInstanceAs (Decidable (_ = _))
  | .expireOutstandingChunks _ => inferInstanceAs (Decidable (_ = _))
  | .beginResetStreams => inferInstanceAs (Decidable (_ = _))

def machine : Machine (Driver σ) Op where
  initial s := ∃ dataChunkHeaderSize lastCumulativeTsnAck,
    s.data = new dataChunkHeaderSize lastCumulativeTsnAck ∧ s.mustFastRetransmit = false
  enabled := Driver.enabled
  step := Driver.step discard

instance (s : Driver σ) (op : Op) : Decidable ((machine discard).enabled s op) :=
  inferInstanceAs (Decidable (s.enabled op))

structure Driver.Inv (s : Driver σ) : Prop where
  consistent : Consistent s.data
  noFast : s.mustFastRetransmit = false → NoFast s.data

theorem Driver.Inv.of_keeps {s : Driver σ} (h : s.Inv) {data : OutstandingData} {queue : σ}
    (hk : Keeps s.data data) : Driver.Inv { s with data, queue } :=
  ⟨hk.consistent, fun hm => hk.noFast (h.noFast hm)⟩

theorem Driver.Inv.step {s : Driver σ} (h : s.Inv) {op : Op} (he : s.enabled op) :
    Ensures (s.step discard op) Driver.Inv := by
  have hc := h.consistent
  cases op with
  | insert messageId data timeSent maxRetransmissions expiresAt lifecycleId =>
    exact .some (h.of_keeps (hc.insert discard messageId data timeSent maxRetransmissions expiresAt
      lifecycleId s.queue))
  | handleSack cum sack isInFastRecovery =>
    refine (hc.handleSack discard (h.noFast he.1) he.2 isInFastRecovery s.queue).bind ?_
    rintro ⟨ackInfo, data, queue⟩ ⟨hc', -⟩
    exact .some ⟨hc', noFast_iff.mp⟩
  | getChunksToBeFastRetransmitted maxSize =>
    refine (hc.getChunksToBeFastRetransmitted maxSize).bind ?_
    rintro ⟨result, data⟩ ⟨hc', -, hfast⟩
    exact .some ⟨hc', fun _ => hfast⟩
  | getChunksToBeRetransmitted maxSize =>
    refine (hc.getChunksToBeRetransmitted (h.noFast he) maxSize).bind ?_
    rintro ⟨result, data⟩ ⟨hk, -⟩
    exact .some (h.of_keeps hk)
  | nackAll =>
    refine (hc.nackAll discard s.queue).bind ?_
    rintro ⟨data, queue⟩ hk
    exact .some (h.of_keeps hk)
  | expireOutstandingChunks now => exact .some (h.of_keeps (hc.expireLoop discard))
  | beginResetStreams =>
    exact .some ⟨⟨hc.bytes, hc.items, hc.retransmit, hc.disjoint, hc.nacked⟩, h.noFast⟩

theorem Consistent.not_of_mem {od : OutstandingData} (hc : Consistent od) {tsn : Int}
    (hm : tsn ∈ od.toBeRetransmitted ∨ tsn ∈ od.toBeFastRetransmitted) :
    ∃ item, od.getItem tsn = some item ∧ item.isNacked ∧ ¬ item.isAbandoned := by
  obtain ⟨item, hget, hr⟩ := (hc.retransmit tsn).mp hm
  refine ⟨item, hget, hc.nacked item (mem_of_getItem hget) hr, ?_⟩
  simp only [Item.shouldBeRetransmitted, decide_eq_true_eq] at hr
  simp [Item.isAbandoned, hr]

end WebRtc.DcSctp.OutstandingData
