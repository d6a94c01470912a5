import WebRtc.DcSctp.RRSendQueue
import WebRtc.DcSctp.RetransmissionConsistency

/-! What the retransmission queue sends against the window of the receiver. -/

namespace WebRtc.DcSctp.RetransmissionQueue

variable {σ : Type}

variable (n : Nat)

theorem roundDownTo4_le : roundDownTo4 n ≤ n := by
  simp only [roundDownTo4]
  omega

theorem roundDownTo4_mod : roundDownTo4 n % 4 = 0 := by
  simp only [roundDownTo4]
  omega

theorem roundUpTo4_mod : roundUpTo4 n % 4 = 0 := by
  simp only [roundUpTo4]
  omega

theorem roundUpTo4_le {n m : Nat} (h : n ≤ m) (hm : m % 4 = 0) : roundUpTo4 n ≤ m := by
  simp only [roundUpTo4]
  omega

def serializedBytes (rq : RetransmissionQueue σ) (chunks : List (TSN × Data)) : Nat :=
  (chunks.map fun c => rq.getSerializedChunkSize c.2).sum

variable (rq : RetransmissionQueue σ)

theorem serializedBytes_mod (chunks : List (TSN × Data)) : rq.serializedBytes chunks % 4 = 0 := by
  induction chunks with
  | nil => rfl
  | cons c rest ih =>
    have hc := roundUpTo4_mod (rq.dataChunkHeaderSize + c.2.size)
    simp only [serializedBytes, List.map_cons, List.sum_cons, getSerializedChunkSize] at ih ⊢
    omega

theorem serializedBytes_append (l l' : List (TSN × Data)) :
    rq.serializedBytes (l ++ l') = rq.serializedBytes l + rq.serializedBytes l' := by
  simp only [serializedBytes, List.map_append, List.sum_append]

theorem serializedBytes_congr {rq rq' : RetransmissionQueue σ}
    (h : rq'.dataChunkHeaderSize = rq.dataChunkHeaderSize) (l : List (TSN × Data)) :
    rq'.serializedBytes l = rq.serializedBytes l := by
  simp only [serializedBytes, getSerializedChunkSize, h]

structure Charged (rq : RetransmissionQueue σ) (sent : List (TSN × Data))
    (rq' : RetransmissionQueue σ) : Prop where
  rwnd : rq.serializedBytes sent + rq'.rwnd ≤ rq.rwnd
  rwndWrapped : rq'.rwndWrapped = rq.rwndWrapped
  rtxBytesCount : rq'.rtxBytesCount = rq.rtxBytesCount

theorem Charged.refl : Charged rq [] rq :=
  ⟨(Nat.zero_add _).le, rfl, rfl⟩

theorem Charged.trans {rq rq' rq'' : RetransmissionQueue σ} {sent sent' : List (TSN × Data)}
    (hh : rq'.dataChunkHeaderSize = rq.dataChunkHeaderSize) (h : Charged rq sent rq')
    (h' : Charged rq' sent' rq'') : Charged rq (sent ++ sent') rq'' := by
  refine ⟨?_, h'.rwndWrapped.trans h.rwndWrapped, h'.rtxBytesCount.trans h.rtxBytesCount⟩
  have hr := h.rwnd
  have hr' := h'.rwnd
  rw [serializedBytes_congr hh] at hr'
  rw [serializedBytes_append]
  omega

theorem startT3RtxIfSent_rtxBytesCount (toBeSent : List (TSN × Data)) :
    (rq.startT3RtxIfSent toBeSent).rtxBytesCount = rq.rtxBytesCount := by
  simp only [startT3RtxIfSent]
  split_ifs <;> rfl

def newlySentBytes (rq : RetransmissionQueue σ) (toBeSent : List (TSN × Data))
    (rq' : RetransmissionQueue σ) : Nat :=
  rq.serializedBytes toBeSent - (rq'.rtxBytesCount - rq.rtxBytesCount)

/-- The budget of a call is covered by the window: data is in flight, so that the window limits
it, or the congestion window and the room in the packet do. -/
def FitsWindow (rq : RetransmissionQueue σ) (bytesRemainingInPacket : Nat) : Prop :=
  rq.unackedBytes ≠ 0 ∨ roundDownTo4 (min rq.cwnd bytesRemainingInPacket) ≤ rq.rwnd

variable {rq : RetransmissionQueue σ}

theorem FitsWindow.budget_le {bytes : Nat} (h : rq.FitsWindow bytes) :
    roundDownTo4 (min rq.maxBytesToSend bytes) ≤ rq.rwnd := by
  simp only [maxBytesToSend]
  by_cases hu : rq.unackedBytes = 0
  · rcases h with hne | hle
    · exact absurd hu hne
    · have he : (if rq.cwnd ≤ rq.unackedBytes then 0 else rq.cwnd - rq.unackedBytes) = rq.cwnd := by
        split_ifs <;> omega
      rw [if_pos hu, he]
      exact hle
  · rw [if_neg hu]
    exact (roundDownTo4_le _).trans ((min_le_left _ _).trans (min_le_left _ _))

inductive Op (σ : Type) where
  | handleSack (now : Timestamp) (sack : SackChunk)
  | handleT3RtxTimerExpiry
  | getChunksForFastRetransmit (bytesInPacket : Nat)
  | getChunksToSend (now : Timestamp) (bytesRemainingInPacket : Nat)
  | shouldSendForwardTsn (now : Timestamp)
  | beginResetStreams
  | changeSendQueue (sendQueue : σ)

structure Run (σ : Type) where
  queue : RetransmissionQueue σ
  window : Nat
  newlySent : Nat

def Run.enabled (s : Run σ) : Op σ → Prop
  | .getChunksForFastRetransmit _ => True
  | _ => s.queue.outstandingData.hasDataToBeFastRetransmitted = false

instance (s : Run σ) (op : Op σ) : Decidable (s.enabled op) :=
  match op with
  | .getChunksForFastRetransmit _ => instDecidableTrue
  | .handleSack .. | .handleT3RtxTimerExpiry | .getChunksToSend .. | .shouldSendForwardTsn _
  | .beginResetStreams | .changeSendQueue _ => inferInstanceAs (Decidable (_ = _))

/-- Packets are below 2 GiB, and calls of `GetChunksToSend` fit the window. -/
def Run.CallsFitWindow (s : Run σ) : Op σ → Prop
  | .getChunksToSend _ bytes => bytes < 2 ^ 31 ∧ s.queue.FitsWindow bytes
  | _ => True

instance (rq : RetransmissionQueue σ) (bytes : Nat) : Decidable (rq.FitsWindow bytes) :=
  inferInstanceAs (Decidable (_ ∨ _))

instance (s : Run σ) (op : Op σ) : Decidable (s.CallsFitWindow op) :=
  match op with
  | .getChunksToSend _ bytes => inferInstanceAs (Decidable (bytes < 2 ^ 31 ∧ s.queue.FitsWindow bytes))
  | .handleSack .. | .handleT3RtxTimerExpiry | .getChunksForFastRetransmit _
  | .shouldSendForwardTsn _ | .beginResetStreams | .changeSendQueue _ => instDecidableTrue

structure Run.Inv (s : Run σ) : Prop where
  consistent : s.queue.outstandingData.Consistent
  header : 0 < s.queue.dataChunkHeaderSize
  window : s.window < 2 ^ 32
  paid : s.queue.rwnd + s.newlySent ≤ s.window
  rwndWrapped : s.queue.rwndWrapped = false

theorem Run.Inv.settled {s : Run σ} (h : s.Inv)
    (hf : s.queue.outstandingData.hasDataToBeFastRetransmitted = false) : s.queue.Settled :=
  ⟨h.consistent, OutstandingData.noFast_iff.mp hf, h.header⟩

theorem Run.Inv.of_settled {s : Run σ} (h : s.Inv) {queue : RetransmissionQueue σ}
    (hs : queue.Settled) (hr : queue.rwnd = s.queue.rwnd)
    (hw : queue.rwndWrapped = s.queue.rwndWrapped) : Run.Inv { s with queue } :=
  ⟨hs.consistent, hs.header, h.window, by rw [hr]; exact h.paid, hw.trans h.rwndWrapped⟩

theorem new_settled (options : CongestionOptions) (myInitialTsn : TSN) (aRwnd : Nat)
    (partialReliability interleaving : Bool) (sendQueue : σ) :
    (new options myInitialTsn aRwnd partialReliability interleaving sendQueue).Settled := by
  refine ⟨OutstandingData.new_consistent _ _, by simp [new, OutstandingData.new,
    OutstandingData.NoFast], ?_⟩
  simp only [dataChunkHeaderSize, new, OutstandingData.new]
  split_ifs <;> omega

variable [SendQueue σ]

theorem charged_sendNewChunk (hc : rq.outstandingData.Consistent)
    (now : Timestamp) {chunk : SendQueue.DataToSend}
    (hs : rq.getSerializedChunkSize chunk.data ≤ rq.rwnd) (hw : rq.rwnd < 2 ^ 64) :
    Charged rq (rq.sendNewChunk now chunk).1 (rq.sendNewChunk now chunk).2 ∧
      (rq.sendNewChunk now chunk).2.rwnd = rq.rwnd - rq.getSerializedChunkSize chunk.data := by
  obtain ⟨-, hrwnd, hwrapped, hrtx, hsent⟩ := sendNewChunk_spec rq hc now chunk
  have hsub : (rq.sendNewChunk now chunk).2.rwnd =
      rq.rwnd - rq.getSerializedChunkSize chunk.data := by
    rw [hrwnd, ← Nat.cast_sub hs, toSizeT_natCast (by omega)]
  refine ⟨⟨?_, ?_, hrtx⟩, hsub⟩
  · rw [hsub]
    rcases hsent with he | ⟨tsn, he⟩
    · rw [he]
      simp [serializedBytes]
    · rw [he]
      simp only [serializedBytes, List.map_cons, List.map_nil, List.sum_cons, List.sum_nil]
      omega
  · rw [hwrapped, decide_eq_false (by omega), Bool.or_false]

theorem charged_sendNewChunks (now : Timestamp) (rounds : Nat)
    {maxBytes : Nat} (hc : rq.outstandingData.Consistent) (hm : maxBytes % 4 = 0)
    (hle : maxBytes ≤ rq.rwnd) (hw : rq.rwnd < 2 ^ 64) :
    Charged rq (rq.sendNewChunks now rounds maxBytes).1
      (rq.sendNewChunks now rounds maxBytes).2 := by
  induction rounds generalizing rq maxBytes with
  | zero => exact .refl rq
  | succ rounds ih =>
    by_cases hh : rq.dataChunkHeaderSize < maxBytes
    · simp only [sendNewChunks, if_pos hh]
      have hsize := @SendQueue.size_le σ _ now (maxBytes - rq.dataChunkHeaderSize) rq.sendQueue
      generalize SendQueue.produce now (maxBytes - rq.dataChunkHeaderSize) rq.sendQueue = r
        at hsize ⊢
      obtain ⟨data, sendQueue⟩ := r
      cases data with
      | none => exact ⟨(Nat.zero_add _).le, rfl, rfl⟩
      | some chunk =>
        have hs := hsize (rfl : some chunk = some chunk)
        have hfit : rq.getSerializedChunkSize chunk.data ≤ maxBytes :=
          roundUpTo4_le (by omega) hm
        have hmod := roundUpTo4_mod (rq.dataChunkHeaderSize + chunk.data.size)
        set rq₁ : RetransmissionQueue σ := { rq with sendQueue }
        have hc₁ : rq₁.outstandingData.Consistent := hc
        have hfit₁ : rq₁.getSerializedChunkSize chunk.data ≤ rq₁.rwnd := hfit.trans hle
        obtain ⟨hcharged, hrwnd⟩ := charged_sendNewChunk hc₁ now hfit₁ hw
        have hk := (sendNewChunk_spec rq₁ hc₁ now chunk).1
        have hrest : Charged (rq₁.sendNewChunk now chunk).2 _ _ := ih hk.consistent
          (show (maxBytes - rq.getSerializedChunkSize chunk.data) % 4 = 0 by
            simp only [getSerializedChunkSize] at hfit ⊢
            omega)
          (by rw [hrwnd]; exact Nat.sub_le_sub_right hle _)
          (by rw [hrwnd]; exact lt_of_le_of_lt (Nat.sub_le _ _) hw)
        have hcharged' : Charged rq (rq₁.sendNewChunk now chunk).1 (rq₁.sendNewChunk now chunk).2 :=
          ⟨hcharged.rwnd, hcharged.rwndWrapped, hcharged.rtxBytesCount⟩
        exact hcharged'.trans hk.ext.header hrest
    · simp only [sendNewChunks, if_neg hh]
      exact .refl rq

theorem getChunksToSend_charged (h : rq.Settled) {now : Timestamp}
    {bytes : Nat} {r : List (TSN × Data) × RetransmissionQueue σ}
    (hr : rq.getChunksToSend now bytes = some r) (hb : bytes < 2 ^ 31) (hfit : rq.FitsWindow bytes)
    (hw : rq.rwnd < 2 ^ 64) :
    r.2.rwndWrapped = rq.rwndWrapped ∧ newlySentBytes rq r.1 r.2 + r.2.rwnd ≤ rq.rwnd := by
  simp only [getChunksToSend] at hr
  obtain ⟨-, -, hr⟩ := Option.bind_eq_some_iff.mp hr
  obtain ⟨⟨retransmitted, outstandingData⟩, hget, hr⟩ := Option.bind_eq_some_iff.mp hr
  obtain ⟨hk, hsum⟩ := (h.consistent.getChunksToBeRetransmitted h.noFast _).of_eq_some hget
  have hbudget := hfit.budget_le
  have hmod := roundDownTo4_mod (min rq.maxBytesToSend bytes)
  have hmax : roundDownTo4 (min rq.maxBytesToSend bytes) ≤ bytes :=
    (roundDownTo4_le _).trans (min_le_right _ _)
  have hbytes : toSizeT (accumulateInt (retransmitted.map fun c =>
      rq.getSerializedChunkSize c.2)) = rq.serializedBytes retransmitted :=
    toSizeT_accumulateInt (lt_of_le_of_lt (hsum.trans hmax) hb)
  have hsum' : rq.serializedBytes retransmitted ≤ roundDownTo4 (min rq.maxBytesToSend bytes) := hsum
  have hmod' := rq.serializedBytes_mod retransmitted
  rw [hbytes, ← Nat.cast_sub hsum', toSizeT_natCast (by omega)] at hr
  set rq₁ : RetransmissionQueue σ := { rq with outstandingData }.countRetransmitted retransmitted
    (rq.serializedBytes retransmitted) with hrq₁
  have hflow : SameFlow { rq with outstandingData } rq₁ := sameFlow_countRetransmitted _ _ _
  have hrtx : rq₁.rtxBytesCount = rq.rtxBytesCount + rq.serializedBytes retransmitted := by
    simp only [hrq₁, countRetransmitted]
    split_ifs with he
    · rw [List.isEmpty_iff] at he
      subst he
      rfl
    · rfl
  have hrwnd : rq₁.rwnd = rq.rwnd := hflow.rwnd
  have hc₁ : rq₁.outstandingData.Consistent := by
    rw [hflow.outstandingData]
    exact hk.consistent
  have hheader : rq₁.dataChunkHeaderSize = rq.dataChunkHeaderSize := by
    rw [dataChunkHeaderSize, hflow.outstandingData]
    exact hk.ext.header
  have hcharged := charged_sendNewChunks now
    (roundDownTo4 (min rq.maxBytesToSend bytes) - rq.serializedBytes retransmitted) hc₁
    (show (roundDownTo4 (min rq.maxBytesToSend bytes) - rq.serializedBytes retransmitted) % 4 = 0 by
      omega)
    (by omega) (by omega)
  have hr' : some (retransmitted ++ (rq₁.sendNewChunks now _ _).1,
      (rq₁.sendNewChunks now _ _).2.startT3RtxIfSent
        (retransmitted ++ (rq₁.sendNewChunks now _ _).1)) = some r := hr
  generalize rq₁.sendNewChunks now _ _ = sent at hr' hcharged
  cases hr'
  have hlast := sameFlow_startT3RtxIfSent sent.2 (retransmitted ++ sent.1)
  refine ⟨?_, ?_⟩
  · rw [hlast.rwndWrapped, hcharged.rwndWrapped, hflow.rwndWrapped]
  · have hcount := startT3RtxIfSent_rtxBytesCount sent.2 (retransmitted ++ sent.1)
    have hpaid := hcharged.rwnd
    have hrtx' := hcharged.rtxBytesCount
    rw [serializedBytes_congr hheader] at hpaid
    simp only [newlySentBytes, hcount, hlast.rwnd, serializedBytes_append]
    omega

/-- The socket cleans a SACK before it passes it on. The application may change the send queue
between any two calls. -/
def Run.step (s : Run σ) : Op σ → Option (Run σ)
  | .handleSack now sack => do
    let (valid, queue) ← s.queue.handleSack now (ChunkValidators.clean sack)
    some (if valid then ⟨queue, queue.rwnd, 0⟩ else s)
  | .handleT3RtxTimerExpiry => do
    let queue ← s.queue.handleT3RtxTimerExpiry
    some { s with queue }
  | .getChunksForFastRetransmit bytesInPacket => do
    let (_, queue) ← s.queue.getChunksForFastRetransmit bytesInPacket
    some { s with queue }
  | .getChunksToSend now bytesRemainingInPacket => do
    let (toBeSent, queue) ← s.queue.getChunksToSend now bytesRemainingInPacket
    some { s with queue, newlySent := s.newlySent + newlySentBytes s.queue toBeSent queue }
  | .shouldSendForwardTsn now => some { s with queue := (s.queue.shouldSendForwardTsn now).2 }
  | .beginResetStreams => some { s with queue := s.queue.beginResetStreams.2 }
  | .changeSendQueue sendQueue => some { s with queue := { s.queue with sendQueue } }

def machine : Machine (Run σ) (Op σ) where
  initial s := ∃ options myInitialTsn, ∃ aRwnd : BitVec 32, ∃ partialReliability interleaving sendQueue,
    s = ⟨new options myInitialTsn aRwnd.toNat partialReliability interleaving sendQueue,
      aRwnd.toNat, 0⟩
  enabled := Run.enabled
  step := Run.step

instance (s : Run σ) (op : Op σ) : Decidable (machine.enabled s op) :=
  inferInstanceAs (Decidable (s.enabled op))

theorem Run.Inv.step {s s' : Run σ} (h : s.Inv) {op : Op σ} (he : s.enabled op)
    (hc : s.CallsFitWindow op) (hs : s.step op = some s') : s'.Inv := by
  cases op with
  | handleSack now sack =>
    obtain ⟨⟨valid, queue⟩, hsack, hs⟩ := Option.bind_eq_some_iff.mp hs
    cases hs
    have hspec := ((h.settled he).handleSack now (ChunkValidators.clean sack)).of_eq_some hsack
    rcases hspec with heq | ⟨hvalid, hafter⟩
    · cases heq
      exact h
    · cases hvalid
      have hlt := (ChunkValidators.clean sack).aRwnd.isLt
      have hrwnd : queue.rwnd = _ - queue.unackedBytes := hafter.rwnd
      exact ⟨hafter.consistent, hafter.header ▸ h.header,
        show queue.rwnd < 2 ^ 32 by omega, le_rfl, hafter.rwndWrapped.trans h.rwndWrapped⟩
  | handleT3RtxTimerExpiry =>
    obtain ⟨queue, hq, hs⟩ := Option.bind_eq_some_iff.mp hs
    cases hs
    obtain ⟨hset, hr, hw⟩ := (h.settled he).handleT3RtxTimerExpiry.of_eq_some hq
    exact h.of_settled hset hr hw
  | getChunksForFastRetransmit bytes =>
    obtain ⟨r, hq, hs⟩ := Option.bind_eq_some_iff.mp hs
    cases hs
    obtain ⟨hset, hr, hw⟩ := getChunksForFastRetransmit_settled h.consistent h.header hq
    exact h.of_settled hset hr hw
  | getChunksToSend now bytes =>
    obtain ⟨⟨toBeSent, queue⟩, hq, hs⟩ := Option.bind_eq_some_iff.mp hs
    cases hs
    have hset := h.settled he
    have hpaid := h.paid
    have hwindow := h.window
    have hb : bytes % 4 = 0 := by
      by_contra hb
      simp [RetransmissionQueue.getChunksToSend, guard, hb] at hq
    have hk := (hset.getChunksToSend now hb).of_eq_some hq
    obtain ⟨hw, hcharged⟩ := getChunksToSend_charged hset hq hc.1 hc.2 (by omega)
    have hset' : queue.Settled := hset.of_keeps hk
    refine ⟨hset'.consistent, hset'.header, hwindow, ?_, hw.trans h.rwndWrapped⟩
    simp only at hcharged ⊢
    omega
  | shouldSendForwardTsn now =>
    cases hs
    obtain ⟨hk, hr, hw⟩ := shouldSendForwardTsn_flow h.consistent now
    exact h.of_settled ((h.settled he).of_keeps hk) hr hw
  | beginResetStreams =>
    cases hs
    exact h.of_settled (h.settled he).beginResetStreams rfl rfl
  | changeSendQueue sendQueue =>
    cases hs
    have hset := h.settled he
    exact h.of_settled ⟨hset.consistent, hset.noFast, hset.header⟩ rfl rfl

/-- In every run whose calls of `GetChunksToSend` fit the window, the window never wraps, and what
is newly sent between two SACKs stays within the window of the earlier one. -/
theorem reachable_newlySent_le {s : Run σ} (h : (machine.restrict Run.CallsFitWindow).Reachable s) :
    s.queue.rwndWrapped = false ∧ s.queue.rwnd + s.newlySent ≤ s.window := by
  have hi : s.Inv := by
    refine h.preserved ?_ ?_
    · rintro s ⟨options, tsn, aRwnd, pr, il, sendQueue, rfl⟩
      have hset := new_settled options tsn aRwnd.toNat pr il sendQueue
      exact ⟨hset.consistent, hset.header, aRwnd.isLt, le_rfl, rfl⟩
    · exact fun s op s' hi he hs => hi.step he.1 he.2 hs
  exact ⟨hi.rwndWrapped, hi.paid⟩

instance (s : Run σ) (op : Op σ) :
    Decidable ((machine.restrict Run.CallsFitWindow).enabled s op) :=
  inferInstanceAs (Decidable (s.enabled op ∧ s.CallsFitWindow op))

def twoMessages : RRSendQueue ℚ :=
  ((RRSendQueue.new 1000 1200 256 0).add (.micros 0) ⟨1, 53, [1, 2, 3, 4]⟩ ⟨false, none, none, 0⟩).add
    (.micros 0) ⟨1, 53, [5, 6, 7, 8]⟩ ⟨false, none, none, 0⟩

def associated (aRwnd : Nat) : Run (RRSendQueue ℚ) :=
  ⟨new ⟨1200, 10, 4, 6, 1080⟩ 10 aRwnd true false twoMessages, aRwnd, 0⟩

theorem reachable_newlySent_le_one_chunk :
    ∃ s : Run (RRSendQueue ℚ), (machine.restrict Run.CallsFitWindow).Reachable s ∧
      s.newlySent = 20 ∧ s.queue.rwnd + s.newlySent ≤ s.window := by
  have h0 : (machine.restrict Run.CallsFitWindow).Reachable (associated 100) :=
    .initial ⟨_, _, 100, _, _, _, rfl⟩
  have hrun : ((machine.restrict Run.CallsFitWindow).run (associated 100)
      [.getChunksToSend (.micros 1) 20]).map (fun s => s.newlySent) = some 20 := by
    decide +kernel
  obtain ⟨s, hs, hsent⟩ := Option.map_eq_some_iff.mp hrun
  exact ⟨s, h0.run hs, hsent, (reachable_newlySent_le (h0.run hs)).2⟩

/-- With a closed window and nothing in flight a first packet is sent and the window wraps, so
that the second packet is sent as well. -/
theorem rwnd_wraps : ∃ s : Run (RRSendQueue ℚ), machine.Reachable s ∧ s.queue.rwndWrapped = true ∧
      s.queue.rwnd = 2 ^ 64 - 40 ∧ s.window = 0 ∧ s.newlySent = 40 := by
  have h0 : machine.Reachable (associated 0) := .initial ⟨_, _, 0, _, _, _, rfl⟩
  have hrun : (machine.run (associated 0)
      [.getChunksToSend (.micros 1) 20, .getChunksToSend (.micros 2) 20]).map
      (fun s => (s.queue.rwndWrapped, s.queue.rwnd, s.window, s.newlySent)) =
        some (true, 2 ^ 64 - 40, 0, 40) := by
    decide +kernel
  obtain ⟨s, hs, hstate⟩ := Option.map_eq_some_iff.mp hrun
  simp only [Prod.mk.injEq] at hstate
  exact ⟨s, h0.run hs, hstate⟩

end WebRtc.DcSctp.RetransmissionQueue
