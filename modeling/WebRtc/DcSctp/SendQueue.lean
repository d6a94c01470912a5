import WebRtc.DcSctp.Types

/-! The interface of a send queue (`tx/send_queue`), as far as the retransmission queue uses it. -/

namespace WebRtc.DcSctp

structure SendQueue.DataToSend where
  messageId : OutgoingMessageId
  data : Data
  maxRetransmissions : MaxRetransmits
  expiresAt : Timestamp
  lifecycleId : LifecycleId
  deriving DecidableEq, Repr

class SendQueue (σ : Type) where
  produce : Timestamp → Nat → σ → Option SendQueue.DataToSend × σ
  discard : StreamID → OutgoingMessageId → σ → Bool × σ
  getStreamsReadyToBeReset : σ → List StreamID × σ
  /-- At most the requested number of payload bytes is produced. -/
  size_le : ∀ {now maxSize queue chunk}, (produce now maxSize queue).1 = some chunk →
    chunk.data.size ≤ maxSize

end WebRtc.DcSctp
