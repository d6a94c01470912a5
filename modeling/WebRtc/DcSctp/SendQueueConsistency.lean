import WebRtc.Lib.Checked
import WebRtc.DcSctp.RRSendQueue

/-! The scheduler's active streams and the queued messages stay in step. An operation on one stream
is described by what it keeps, given a frame that stands for the other streams. -/

namespace WebRtc.DcSctp

open List

variable {τ : Type} [VirtualTime τ]

structure QueuedMessage.Wf (streamId : StreamID) (item : QueuedMessage) : Prop where
  streamId_eq : item.message.streamId = streamId
  size : item.remainingOffset + item.remainingSize = item.message.payload.length
  remaining : 0 < item.remainingSize
  mid : item.mid.isSome ↔ 0 < item.remainingOffset

structure OutgoingStream.Wf (s : OutgoingStream τ) : Prop where
  buffered : s.bufferedAmount.value = (s.items.map QueuedMessage.remainingSize).sum
  items : ∀ item ∈ s.items, item.Wf s.streamId
  later : ∀ item ∈ s.items.tail, item.remainingOffset = 0
  paused : s.pauseState = .kPaused ∨ s.pauseState = .kResetting →
    ∀ item ∈ s.items, item.remainingOffset = 0
  pending : s.pauseState = .kPending → s.hasPartiallySentMessage
  time : 0 ≤ s.currentVirtualTime

structure Frame (τ : Type) [VirtualTime τ] where
  bytes : Nat
  active : τ → StreamID → Prop

structure Linked (F : Frame τ) (c : SendQueueContext τ × OutgoingStream τ) : Prop where
  total : c.1.totalBufferedAmount.value = c.2.bufferedAmount.value + F.bytes
  active : ∀ t id, toLex (t, id) ∈ c.1.scheduler.activeStreams ↔
    (id = c.2.streamId ∧ t = c.2.nextFinishTime ∧ t ≠ 0) ∨ (id ≠ c.2.streamId ∧ F.active t id)
  time : 0 ≤ c.1.scheduler.virtualTime
  payload : c.1.scheduler.enableMessageInterleaving = true → 0 < c.1.scheduler.maxPayloadBytes
  checks : c.1.checksHold = true

structure Good (id : StreamID) (F : Frame τ) (c : SendQueueContext τ × OutgoingStream τ) : Prop where
  id_eq : c.2.streamId = id
  wf : c.2.Wf
  linked : Linked F c
  active : c.2.nextFinishTime ≠ 0 ↔ 0 < c.2.bytesToSendInNextMessage

def KeepsSending (c c' : SendQueueContext τ × OutgoingStream τ) : Prop :=
  c'.1.scheduler.currentlySendingAMessage = true →
    c.1.scheduler.currentlySendingAMessage = true ∧
    c'.1.scheduler.currentStream = c.1.scheduler.currentStream ∧
    (c.2.hasPartiallySentMessage = true → c'.2.hasPartiallySentMessage = true)

variable {c c' : SendQueueContext τ × OutgoingStream τ}

theorem KeepsSending.of_scheduler
    (hs : c'.1.scheduler.currentlySendingAMessage = c.1.scheduler.currentlySendingAMessage)
    (hc : c'.1.scheduler.currentStream = c.1.scheduler.currentStream)
    (hp : c.2.hasPartiallySentMessage = true → c'.2.hasPartiallySentMessage = true) :
    KeepsSending c c' :=
  fun h => ⟨hs ▸ h, hc, hp⟩

variable {item : QueuedMessage} {rest : List QueuedMessage}

variable {s : OutgoingStream τ}

namespace OutgoingStream

theorem bytesToSend_of_paused
    (h : s.pauseState = .kPaused ∨ s.pauseState = .kResetting) : s.bytesToSendInNextMessage = 0 :=
  if_pos h

theorem bytesToSend_of_items_nil (h : s.items = []) : s.bytesToSendInNextMessage = 0 := by
  simp only [bytesToSendInNextMessage, h, ite_self]

theorem bytesToSend_of_cons
    (h : ¬ (s.pauseState = .kPaused ∨ s.pauseState = .kResetting)) {front : QueuedMessage}
    (hi : s.items = front :: rest) : s.bytesToSendInNextMessage = front.remainingSize := by
  simp only [bytesToSendInNextMessage, if_neg h, hi]

theorem Wf.bytesToSend_pos_iff (hwf : s.Wf) : 0 < s.bytesToSendInNextMessage ↔
      ¬ (s.pauseState = .kPaused ∨ s.pauseState = .kResetting) ∧ s.items ≠ [] := by
  by_cases hp : s.pauseState = .kPaused ∨ s.pauseState = .kResetting
  · simp [bytesToSend_of_paused hp, hp]
  · cases hi : s.items with
    | nil => simp [bytesToSend_of_items_nil hi]
    | cons front rest =>
      have hr := (hwf.items front (by simp [hi])).remaining
      simp [bytesToSend_of_cons hp hi, hp, hr]

theorem Wf.partial_not_paused (hwf : s.Wf) (h : s.hasPartiallySentMessage = true) :
    ¬ (s.pauseState = .kPaused ∨ s.pauseState = .kResetting) ∧ s.items ≠ [] := by
  cases hi : s.items with
  | nil => simp [hasPartiallySentMessage, hi] at h
  | cons front rest =>
    refine ⟨fun hp => ?_, by simp⟩
    have hm : front.mid.isSome = true := by simpa only [hasPartiallySentMessage, hi] using h
    have hpos := (hwf.items front (by simp [hi])).mid.mp hm
    have hz := hwf.paused hp front (by simp [hi])
    omega

theorem Wf.front_le_buffered (hwf : s.Wf)
    (h : item ∈ s.items) : item.remainingSize ≤ s.bufferedAmount.value := by
  rw [hwf.buffered]
  exact le_sum_of_mem (mem_map.mpr ⟨item, h, rfl⟩)

theorem calculateFinishTime_pos {scheduler : StreamScheduler τ} {bytes : Nat}
    (ht : 0 ≤ s.currentVirtualTime) (hb : scheduler.enableMessageInterleaving = true → 0 < bytes) :
    0 < s.calculateFinishTime scheduler bytes := by
  simp only [calculateFinishTime]
  split_ifs with h
  · exact VirtualTime.addWeighted_pos _ _ _ ht (hb h)
  · exact VirtualTime.addOne_pos _ ht

end OutgoingStream

namespace Linked

variable {F : Frame τ} {ctx : SendQueueContext τ} {s : OutgoingStream τ}

section

variable (h : Linked F (ctx, s))
include h

theorem of_stream {s' : OutgoingStream τ} (hid : s'.streamId = s.streamId)
    (hb : s'.bufferedAmount.value = s.bufferedAmount.value)
    (ht : s'.nextFinishTime = s.nextFinishTime) : Linked F (ctx, s') where
  total := h.total.trans (by rw [hb])
  active t id := by rw [hid, ht]; exact h.active t id
  time := h.time
  payload := h.payload
  checks := h.checks

theorem check {p : Prop} [Decidable p] (hp : p) : Linked F (ctx.check p, s) where
  total := h.total
  active := h.active
  time := h.time
  payload := h.payload
  checks := by simp [SendQueueContext.check, hp, show ctx.checksHold = true from h.checks]

theorem not_mem_active (hz : s.nextFinishTime = 0) {p : τ ×ₗ StreamID}
    (hm : p ∈ ctx.scheduler.activeStreams) : (ofLex p).2 ≠ s.streamId := by
  intro he
  rcases (h.active (ofLex p).1 (ofLex p).2).mp hm with ⟨-, ht, hne⟩ | ⟨hne, -⟩
  · exact hne (ht.trans hz)
  · exact hne he

theorem makeInactive (hne : s.nextFinishTime ≠ 0) :
    Linked F (OutgoingStream.makeInactive (ctx, s)) where
  total := h.total
  active t id := by
    have ha := h.active t id
    simp only at ha
    simp only [OutgoingStream.makeInactive, OutgoingStream.forceMarkInactive,
      SendQueueContext.setActiveStreams, SendQueueContext.check, OrdSet.mem_filterKeys, ha,
      ofLex_toLex]
    constructor
    · rintro ⟨hid, ⟨rfl, -⟩ | hF⟩
      · exact absurd rfl (of_decide_eq_true hid)
      · exact .inr hF
    · rintro (⟨-, ht, ht0⟩ | hF)
      · exact absurd ht ht0
      · exact ⟨decide_eq_true hF.1, .inr hF⟩
  time := h.time
  payload := h.payload
  checks := by
    simp [OutgoingStream.makeInactive, OutgoingStream.forceMarkInactive,
      SendQueueContext.setActiveStreams, SendQueueContext.check, hne,
      show ctx.checksHold = true from h.checks]

theorem makeActive (hz : s.nextFinishTime = 0) {bytes : Nat} (hb : 0 < bytes) :
    Linked F (OutgoingStream.makeActive bytes (ctx, s)) ∧
      (OutgoingStream.makeActive bytes (ctx, s)).2.nextFinishTime ≠ 0 := by
  have hpos : 0 < OutgoingStream.calculateFinishTime
      { s with currentVirtualTime := ctx.scheduler.virtualTime } ctx.scheduler
      (min bytes ctx.scheduler.maxPayloadBytes) :=
    OutgoingStream.calculateFinishTime_pos h.time fun hi => lt_min hb (h.payload hi)
  refine ⟨⟨h.total, ?_, h.time, h.payload, ?_⟩, hpos.ne'⟩
  · intro t id
    have ha := h.active t id
    simp only [hz] at ha
    simp only [OutgoingStream.makeActive, SendQueueContext.setActiveStreams, SendQueueContext.check,
      OrdSet.mem_insert, ha, EmbeddingLike.apply_eq_iff_eq, Prod.mk.injEq]
    constructor
    · rintro (⟨rfl, rfl⟩ | ⟨-, ht, ht0⟩ | hF)
      · exact .inl ⟨rfl, rfl, hpos.ne'⟩
      · exact absurd ht ht0
      · exact .inr hF
    · rintro (⟨rfl, rfl, -⟩ | hF)
      · exact .inl ⟨rfl, rfl⟩
      · exact .inr (.inr hF)
  · have hnone : ∀ p ∈ ctx.scheduler.activeStreams.toList, (ofLex p).2 ≠ s.streamId :=
      fun p hp => h.not_mem_active hz (OrdSet.mem_toList.mp hp)
    have hc : ctx.checksHold = true := h.checks
    simp only [OutgoingStream.makeActive, SendQueueContext.setActiveStreams, SendQueueContext.check,
      hc, Bool.true_and, decide_eq_true_eq]
    exact ⟨hb, hpos, hz, hnone⟩

theorem reschedule (hne : s.nextFinishTime ≠ 0) : Linked F (OutgoingStream.forceMarkInactive
      (ctx.takeStream (toLex (s.nextFinishTime, s.streamId)), s)) where
  total := h.total
  active t id := by
    have ha := h.active t id
    simp only at ha
    simp only [OutgoingStream.forceMarkInactive, SendQueueContext.takeStream,
      SendQueueContext.check, OrdSet.mem_erase, ha, ne_eq, EmbeddingLike.apply_eq_iff_eq,
      Prod.mk.injEq]
    constructor
    · rintro ⟨hnot, ⟨rfl, rfl, -⟩ | hF⟩
      · exact absurd ⟨rfl, rfl⟩ hnot
      · exact .inr hF
    · rintro (⟨-, ht, ht0⟩ | hF)
      · exact absurd ht ht0
      · exact ⟨fun he => hF.1 he.2, .inr hF⟩
  time := h.time
  payload := h.payload
  checks := by
    simp [OutgoingStream.forceMarkInactive, SendQueueContext.takeStream, SendQueueContext.check,
      hne, show ctx.checksHold = true from h.checks]

theorem fragmentProduced (ht : 0 ≤ s.currentVirtualTime) {data : Data}
    (hid : data.streamId = s.streamId) :
    Linked F (ctx.fragmentProduced s.streamId s.currentVirtualTime data, s) := by
  have hc := h.check hid
  exact ⟨hc.total, hc.active, ht, hc.payload, hc.checks⟩

end

end Linked

namespace SendQueueContext

variable (ctx : SendQueueContext τ) (condition : Bool) (event : SendQueue.Event)

@[simp] theorem notify_scheduler : (ctx.notify condition event).scheduler = ctx.scheduler := by
  cases condition <;> rfl

@[simp] theorem notify_totalBufferedAmount :
    (ctx.notify condition event).totalBufferedAmount = ctx.totalBufferedAmount := by
  cases condition <;> rfl

@[simp] theorem notify_checksHold : (ctx.notify condition event).checksHold = ctx.checksHold := by
  cases condition <;> rfl

end SendQueueContext

structure Released (bytes : Nat) (c c' : SendQueueContext τ × OutgoingStream τ) : Prop where
  stream : c'.2 = { c.2 with bufferedAmount :=
    { c.2.bufferedAmount with value := c.2.bufferedAmount.value - bytes } }
  scheduler : c'.1.scheduler = c.1.scheduler
  total : c'.1.totalBufferedAmount.value = c.1.totalBufferedAmount.value - bytes
  checks : c'.1.checksHold = (c.1.checksHold && decide (bytes ≤ c.2.bufferedAmount.value) &&
    decide (bytes ≤ c.1.totalBufferedAmount.value))

variable {F : Frame τ}

theorem Linked.released {bytes : Nat}
    (h : Linked F c) (hr : Released bytes c c') (hb : bytes ≤ c.2.bufferedAmount.value) :
    Linked F c' := by
  have ht := h.total
  obtain ⟨ctx', s'⟩ := c'
  obtain ⟨rfl, hsched, htotal, hchecks⟩ := hr
  refine ⟨?_, ?_, ?_, ?_, ?_⟩
  · simp only at htotal ⊢
    omega
  · intro t id
    rw [hsched]
    exact h.active t id
  · rw [hsched]
    exact h.time
  · rw [hsched]
    exact h.payload
  · have hle : bytes ≤ c.1.totalBufferedAmount.value := by omega
    rw [hchecks, h.checks, decide_eq_true hb, decide_eq_true hle]
    rfl

theorem Linked.increaseBuffered {c : SendQueueContext τ × OutgoingStream τ}
    (h : Linked F c) (bytes : Nat) : Linked F (OutgoingStream.increaseBuffered bytes c) where
  total := by
    have := h.total
    simp only [OutgoingStream.increaseBuffered, ThresholdWatcher.increase]
    omega
  active := h.active
  time := h.time
  payload := h.payload
  checks := h.checks

theorem Released.refl (c : SendQueueContext τ × OutgoingStream τ) : Released 0 c c :=
  ⟨rfl, rfl, rfl, by simp⟩

theorem Released.trans {a b : Nat} {c c' c'' : SendQueueContext τ × OutgoingStream τ}
    (h : Released a c c') (h' : Released b c' c'') : Released (a + b) c c'' := by
  obtain ⟨hs, hsched, htotal, hchecks⟩ := h
  obtain ⟨hs', hsched', htotal', hchecks'⟩ := h'
  refine ⟨?_, hsched'.trans hsched, by omega, ?_⟩
  · rw [hs', hs]
    simp only [Nat.sub_sub]
  · rw [hchecks', hchecks, htotal, hs, Bool.eq_iff_iff]
    simp only [Bool.and_eq_true, decide_eq_true_eq]
    constructor
    · rintro ⟨⟨⟨⟨hc, h₁⟩, h₂⟩, h₃⟩, h₄⟩
      exact ⟨⟨hc, by omega⟩, by omega⟩
    · rintro ⟨⟨hc, h₁⟩, h₂⟩
      exact ⟨⟨⟨⟨hc, by omega⟩, by omega⟩, by omega⟩, by omega⟩

namespace OutgoingStream

theorem released_decreaseBuffered (bytes : Nat) (c : SendQueueContext τ × OutgoingStream τ) :
    Released bytes c (decreaseBuffered bytes c) where
  stream := rfl
  scheduler := by simp [decreaseBuffered, SendQueueContext.check]
  total := by
    simp [decreaseBuffered, SendQueueContext.check, ThresholdWatcher.decrease]
  checks := by simp [decreaseBuffered, SendQueueContext.check]

theorem released_handleMessageExpired (item : QueuedMessage)
    (c : SendQueueContext τ × OutgoingStream τ) :
    Released item.remainingSize c (handleMessageExpired item c) := by
  obtain ⟨hs, hsched, htotal, hchecks⟩ := released_decreaseBuffered item.remainingSize c
  exact ⟨hs, by simpa [handleMessageExpired] using hsched,
    by simpa [handleMessageExpired] using htotal, by simpa [handleMessageExpired] using hchecks⟩

theorem Wf.tail {s s' : OutgoingStream τ} (hwf : s.Wf) (hi : s.items = item :: rest)
    (hid : s'.streamId = s.streamId) (hi' : s'.items = rest)
    (hb : s'.bufferedAmount.value = s.bufferedAmount.value - item.remainingSize)
    (hp : s'.pauseState ≠ .kPending) (ht : 0 ≤ s'.currentVirtualTime) : s'.Wf where
  buffered := by
    have hsum := hwf.buffered
    rw [hi, map_cons, sum_cons] at hsum
    rw [hb, hi', hsum, Nat.add_sub_cancel_left]
  items j hj := by
    rw [hid]
    exact hwf.items j (by simp [hi, hi' ▸ hj])
  later j hj := by
    have hmem : j ∈ rest := hi' ▸ mem_of_mem_tail hj
    exact hwf.later j (by simp [hi, hmem])
  paused _ j hj := hwf.later j (by simp [hi, hi' ▸ hj])
  pending h := absurd h hp
  time := ht

theorem maybeMakeActive_scheduler (c : SendQueueContext τ × OutgoingStream τ) :
    (maybeMakeActive c).1.scheduler.currentlySendingAMessage =
        c.1.scheduler.currentlySendingAMessage ∧
      (maybeMakeActive c).1.scheduler.currentStream = c.1.scheduler.currentStream ∧
      (maybeMakeActive c).2.items = c.2.items := by
  simp only [maybeMakeActive]
  split_ifs
  · exact ⟨rfl, rfl, rfl⟩
  · exact ⟨rfl, rfl, rfl⟩

variable {ctx : SendQueueContext τ} {id : StreamID}

theorem good_makeActive (hid : s.streamId = id) (hwf : s.Wf) (hl : Linked F (ctx, s))
    (hz : s.nextFinishTime = 0) (hb : 0 < s.bytesToSendInNextMessage) :
    Good id F (makeActive s.bytesToSendInNextMessage (ctx, s)) := by
  obtain ⟨hlinked, hne⟩ := hl.makeActive hz hb
  exact ⟨hid, ⟨hwf.buffered, hwf.items, hwf.later, hwf.paused, hwf.pending, hl.time⟩, hlinked,
    iff_of_true hne hb⟩

theorem good_maybeMakeActive (hid : s.streamId = id) (hwf : s.Wf) (hl : Linked F (ctx, s))
    (hz : s.nextFinishTime = 0) : Good id F (maybeMakeActive (ctx, s)) := by
  have hl' := hl.check hz
  by_cases hb : s.bytesToSendInNextMessage = 0
  · simp only [maybeMakeActive, if_pos hb]
    exact ⟨hid, hwf, hl', by simp [hz, hb]⟩
  · simp only [maybeMakeActive, if_neg hb]
    exact good_makeActive hid hwf hl' hz (Nat.pos_of_ne_zero hb)

theorem good_makeInactive (hid : s.streamId = id) (hwf : s.Wf) (hl : Linked F (ctx, s))
    (hne : s.nextFinishTime ≠ 0) (hb : s.bytesToSendInNextMessage = 0) :
    Good id F (makeInactive (ctx, s)) where
  id_eq := hid
  wf := ⟨hwf.buffered, hwf.items, hwf.later, hwf.paused, hwf.pending, hwf.time⟩
  linked := hl.makeInactive hne
  active := iff_of_false (fun h => h rfl) hb.not_gt

section Operations

variable {id : StreamID} {F : Frame τ} {c : SendQueueContext τ × OutgoingStream τ}

theorem hasPartiallySentMessage_append {s s' : OutgoingStream τ}
    (hi : s'.items = s.items ++ [item]) (h : s.hasPartiallySentMessage = true) :
    s'.hasPartiallySentMessage = true := by
  cases hs : s.items with
  | nil => simp [hasPartiallySentMessage, hs] at h
  | cons front rest => simpa only [hasPartiallySentMessage, hi, hs, cons_append] using h

theorem Wf.append {s s' : OutgoingStream τ} (hwf : s.Wf) (item : QueuedMessage)
    (hid : s'.streamId = s.streamId) (hi : s'.items = s.items ++ [item])
    (hitem : item.Wf s.streamId) (ho : item.remainingOffset = 0)
    (hb : s'.bufferedAmount.value = s.bufferedAmount.value + item.remainingSize)
    (hp : s'.pauseState = s.pauseState) (ht : 0 ≤ s'.currentVirtualTime) : s'.Wf where
  buffered := by simp [hb, hi, hwf.buffered]
  items j hj := by
    rw [hi, mem_append, mem_singleton] at hj
    rw [hid]
    rcases hj with hj | rfl
    · exact hwf.items j hj
    · exact hitem
  later j hj := by
    cases hs : s.items with
    | nil => simp [hi, hs] at hj
    | cons front rest =>
      simp only [hi, hs, cons_append, tail_cons, mem_append, mem_singleton] at hj
      rcases hj with hj | rfl
      · exact hwf.later j (by simp [hs, hj])
      · exact ho
  paused h j hj := by
    rw [hi, mem_append, mem_singleton] at hj
    rcases hj with hj | rfl
    · exact hwf.paused (hp ▸ h) j hj
    · exact ho
  pending h := hasPartiallySentMessage_append hi (hwf.pending (hp ▸ h))
  time := ht

theorem good_add (h : Good id F c) {message : DcSctpMessage} (attributes : MessageAttributes)
    (hm : message.payload ≠ []) (hid : message.streamId = id) :
    Good id F (add message attributes c) ∧ KeepsSending c (add message attributes c) := by
  set item := QueuedMessage.new c.1.currentMessageId message attributes with hitem
  set s' : OutgoingStream τ := { (increaseBuffered message.payload.length c).2 with
    items := c.2.items ++ [item] } with hs'
  set ctx' : SendQueueContext τ := { (increaseBuffered message.payload.length c).1 with
    currentMessageId := c.1.currentMessageId + 1 }
  have hw : item.Wf c.2.streamId :=
    ⟨hid.trans h.id_eq.symm, by simp [hitem, QueuedMessage.new],
      length_pos_iff.mpr hm, by simp [hitem, QueuedMessage.new]⟩
  have hwf : s'.Wf := h.wf.append item rfl rfl hw rfl rfl rfl h.wf.time
  have hl : Linked F (ctx', s') := by
    have hinc := h.linked.increaseBuffered message.payload.length
    exact ⟨hinc.total, hinc.active, hinc.time, hinc.payload, hinc.checks⟩
  by_cases hact : 0 < c.2.bytesToSendInNextMessage
  · have he : add message attributes c = (ctx', s') := if_pos hact
    rw [he]
    have hb := h.wf.bytesToSend_pos_iff.mp hact
    refine ⟨⟨h.id_eq, hwf, hl, ?_⟩, .of_scheduler rfl rfl (hasPartiallySentMessage_append rfl)⟩
    exact iff_of_true (h.active.mpr hact)
      (hwf.bytesToSend_pos_iff.mpr ⟨hb.1, by simp [hs']⟩)
  · have he : add message attributes c = maybeMakeActive (ctx', s') := if_neg hact
    have hz : s'.nextFinishTime = 0 := by
      by_contra hne
      exact hact (h.active.mp hne)
    rw [he]
    obtain ⟨hsend, hcur, hitems⟩ := maybeMakeActive_scheduler (ctx', s')
    refine ⟨good_maybeMakeActive h.id_eq hwf hl hz, .of_scheduler hsend hcur ?_⟩
    exact hasPartiallySentMessage_append (hitems : _ = c.2.items ++ [item])

theorem good_discard (h : Good id F c) {messageId : OutgoingMessageId}
    (hd : c.2.pauseState = .kPaused ∨ c.2.pauseState = .kResetting →
      ∀ front ∈ c.2.items.head?, front.messageId ≠ messageId) :
    Good id F (discard messageId c).2 ∧ KeepsSending c (discard messageId c).2 := by
  cases hi : c.2.items with
  | nil =>
    simp only [discard, hi]
    exact ⟨h, .of_scheduler rfl rfl fun h => h⟩
  | cons item rest =>
    by_cases hm : item.messageId = messageId
    · have hnp : ¬ (c.2.pauseState = .kPaused ∨ c.2.pauseState = .kResetting) :=
        fun hp => hd hp item (by simp [hi]) hm
      have hne : c.2.nextFinishTime ≠ 0 :=
        h.active.mpr (h.wf.bytesToSend_pos_iff.mpr ⟨hnp, by simp [hi]⟩)
      have hr := released_handleMessageExpired item c
      have hl := h.linked.released hr (h.wf.front_le_buffered (by simp [hi]))
      simp only [discard, hi, if_pos hm]
      generalize handleMessageExpired item c = c' at hr hl ⊢
      obtain ⟨ctx', s'⟩ := c'
      obtain rfl := hr.stream
      have hl' : Linked F (ctx'.forceReschedule, { c.2 with
          bufferedAmount := ⟨c.2.bufferedAmount.value - item.remainingSize,
            c.2.bufferedAmount.lowThreshold⟩ }) :=
        ⟨hl.total, hl.active, hl.time, hl.payload, hl.checks⟩
      split_ifs with hpend hzero
      · refine ⟨good_makeInactive h.id_eq ?_ (hl'.of_stream rfl rfl rfl) hne ?_, fun h => ?_⟩
        · exact h.wf.tail hi rfl rfl rfl (by simp) h.wf.time
        · exact bytesToSend_of_paused (.inl rfl)
        · exact absurd h Bool.false_ne_true
      · refine ⟨good_makeInactive h.id_eq ?_ (hl'.of_stream rfl rfl rfl) hne hzero, fun h => ?_⟩
        · exact h.wf.tail hi rfl rfl rfl hpend h.wf.time
        · exact absurd h Bool.false_ne_true
      · refine ⟨⟨h.id_eq, h.wf.tail hi rfl rfl rfl hpend h.wf.time, hl'.of_stream rfl rfl rfl, ?_⟩,
          fun h => absurd h Bool.false_ne_true⟩
        exact iff_of_true hne (Nat.pos_of_ne_zero hzero)
    · simp only [discard, hi, if_neg hm]
      exact ⟨h, .of_scheduler rfl rfl fun h => h⟩

variable (l : List QueuedMessage)

theorem dropUnsent_spec (c : SendQueueContext τ × OutgoingStream τ) :
    (dropUnsent l c).1 = l.filter (fun item => item.remainingOffset ≠ 0) ∧
      Released ((l.filter fun item => item.remainingOffset = 0).map
        QueuedMessage.remainingSize).sum c (dropUnsent l c).2 := by
  induction l generalizing c with
  | nil => exact ⟨rfl, .refl c⟩
  | cons item rest ih =>
    by_cases ho : item.remainingOffset = 0
    · obtain ⟨hkept, hrel⟩ := ih (handleMessageExpired item c)
      simp only [dropUnsent, if_pos ho]
      refine ⟨by simpa [ho] using hkept, ?_⟩
      simpa [ho] using (released_handleMessageExpired item c).trans hrel
    · obtain ⟨hkept, hrel⟩ := ih c
      simp only [dropUnsent, if_neg ho]
      exact ⟨by simpa [ho] using hkept, by simpa [ho] using hrel⟩

theorem sum_filter_offset :
    ((l.filter fun item => item.remainingOffset = 0).map QueuedMessage.remainingSize).sum +
      ((l.filter fun item => item.remainingOffset ≠ 0).map QueuedMessage.remainingSize).sum =
      (l.map QueuedMessage.remainingSize).sum := by
  induction l with
  | nil => rfl
  | cons item rest ih =>
    by_cases ho : item.remainingOffset = 0
    · simp only [ho, decide_true, filter_cons_of_pos, map_cons, sum_cons,
        ne_eq, not_true_eq_false, decide_false, Bool.false_eq_true, not_false_eq_true,
        filter_cons_of_neg] at ih ⊢
      omega
    · simp only [ho, decide_true, filter_cons_of_pos, map_cons, sum_cons,
        ne_eq, decide_false, Bool.false_eq_true, not_false_eq_true,
        filter_cons_of_neg] at ih ⊢
      omega

theorem Wf.filter_partial (hwf : s.Wf) : s.items.filter (fun item => item.remainingOffset ≠ 0) =
      if s.hasPartiallySentMessage then s.items.head?.toList else [] := by
  cases hi : s.items with
  | nil => simp
  | cons front rest =>
    have hrest : rest.filter (fun item => item.remainingOffset ≠ 0) = [] := by
      refine filter_eq_nil_iff.mpr fun j hj => ?_
      simp [hwf.later j (by simp [hi, hj])]
    have hmid := (hwf.items front (by simp [hi])).mid
    have hpart : s.hasPartiallySentMessage = front.mid.isSome := by
      simp only [hasPartiallySentMessage, hi]
    rw [filter_cons, hrest, hpart]
    by_cases ho : front.remainingOffset = 0
    · have hnone : front.mid.isSome = false := by
        by_contra hsome
        have := hmid.mp (Bool.eq_true_of_not_eq_false hsome)
        omega
      simp [ho, hnone]
    · simp [ho, hmid.mpr (Nat.pos_of_ne_zero ho)]

theorem good_pause (h : Good id F c) : Good id F (pause c) ∧ KeepsSending c (pause c) := by
  by_cases hn : c.2.pauseState = .kNotPaused
  · obtain ⟨hkept, hrel⟩ := dropUnsent_spec c.2.items c
    have hsum := sum_filter_offset c.2.items
    have hbuf := h.wf.buffered
    have hl := h.linked.released hrel (by omega)
    have hfilter := h.wf.filter_partial
    have hstream := hrel.stream
    simp only [pause, hn, ne_eq, not_true_eq_false, if_false]
    generalize dropUnsent c.2.items c = r at hkept hrel hl hstream ⊢
    obtain ⟨items, ctx', s'⟩ := r
    simp only at hkept hstream hl ⊢
    subst hkept hstream
    rw [hfilter] at hsum ⊢
    cases hp : c.2.hasPartiallySentMessage with
    | false =>
      simp only [hp, Bool.false_eq_true, if_false, map_nil, sum_nil, List.head?_nil,
        Option.all_none, if_true, decide_true, Bool.and_true] at hsum ⊢
      have hwf : OutgoingStream.Wf { c.2 with
          items := []
          pauseState := .kPaused
          bufferedAmount := { c.2.bufferedAmount with value := c.2.bufferedAmount.value -
            ((c.2.items.filter fun item => item.remainingOffset = 0).map
              QueuedMessage.remainingSize).sum } } :=
        ⟨by simp only [map_nil, sum_nil]; omega, by simp, by simp, by simp, by simp,
          h.wf.time⟩
      have hkeeps : ∀ c' : SendQueueContext τ × OutgoingStream τ,
          c'.1.scheduler.currentlySendingAMessage = ctx'.scheduler.currentlySendingAMessage →
          c'.1.scheduler.currentStream = ctx'.scheduler.currentStream → KeepsSending c c' := by
        intro c' hsend hcur
        refine .of_scheduler (hsend.trans ?_) (hcur.trans ?_) fun hpart => ?_
        · rw [hrel.scheduler]
        · rw [hrel.scheduler]
        · simp [hp] at hpart
      by_cases he : c.2.items = []
      · have hz : c.2.nextFinishTime = 0 := by
          by_contra hne
          exact (h.wf.bytesToSend_pos_iff.mp (h.active.mp hne)).2 he
        simp only [he, isEmpty_nil, Bool.not_true, Bool.false_eq_true, if_false]
        rw [he] at hwf hl
        refine ⟨⟨h.id_eq, hwf, hl.of_stream rfl rfl rfl, ?_⟩, hkeeps _ rfl rfl⟩
        exact iff_of_false (fun hne => hne hz) (by rw [bytesToSend_of_paused (.inl rfl)]; omega)
      · have hne : c.2.nextFinishTime ≠ 0 := by
          refine h.active.mpr (h.wf.bytesToSend_pos_iff.mpr ⟨?_, he⟩)
          simp [hn]
        simp only [isEmpty_eq_false_iff.mpr he, Bool.not_false, if_true]
        exact ⟨good_makeInactive h.id_eq hwf (hl.of_stream rfl rfl rfl) hne
          (bytesToSend_of_paused (.inl rfl)), hkeeps _ rfl rfl⟩
    | true =>
      cases hi : c.2.items with
      | nil => simp [hasPartiallySentMessage, hi] at hp
      | cons front rest =>
        have hmid : front.mid.isSome = true := by simpa only [hasPartiallySentMessage, hi] using hp
        have hfront := h.wf.items front (by simp [hi])
        have ho : front.remainingOffset ≠ 0 := (hfront.mid.mp hmid).ne'
        simp only [hp, hi, if_true, List.head?_cons, Option.toList_some, map_cons, map_nil,
          sum_cons, sum_nil] at hsum hbuf hl ⊢
        simp only [Option.all_some, ho, decide_false, Bool.false_eq_true, if_false, reduceCtorEq,
          Bool.and_false]
        have hne : c.2.nextFinishTime ≠ 0 :=
          h.active.mpr (h.wf.bytesToSend_pos_iff.mpr ⟨by simp [hn], by simp [hi]⟩)
        refine ⟨⟨h.id_eq, ⟨?_, ?_, ?_, ?_, ?_, h.wf.time⟩, hl.of_stream rfl rfl rfl, ?_⟩, ?_⟩
        · simp only [map_cons, map_nil, sum_cons, sum_nil]
          omega
        · simpa using hfront
        · simp
        · simp
        · exact fun _ => hmid
        · exact iff_of_true hne hfront.remaining
        · refine .of_scheduler ?_ ?_ fun _ => hmid
          · rw [hrel.scheduler]
          · rw [hrel.scheduler]
  · simp only [pause, ne_eq, hn, not_false_eq_true, if_true]
    exact ⟨h, .of_scheduler rfl rfl fun h => h⟩

theorem good_resume (h : Good id F c) (hr : c.2.pauseState = .kResetting) :
    Good id F (resume c) ∧ KeepsSending c (resume c) := by
  have hz : c.2.nextFinishTime = 0 := by
    by_contra hne
    have := h.active.mp hne
    rw [bytesToSend_of_paused (.inr hr)] at this
    omega
  have hwf : OutgoingStream.Wf { c.2 with pauseState := .kNotPaused } :=
    ⟨h.wf.buffered, h.wf.items, h.wf.later, by simp, by simp, h.wf.time⟩
  have hl : Linked F (_, { c.2 with pauseState := .kNotPaused }) :=
    (h.linked.check hr).of_stream rfl rfl rfl
  obtain ⟨hsend, hcur, hitems⟩ := maybeMakeActive_scheduler
    (c.1.check (c.2.pauseState = .kResetting), { c.2 with pauseState := .kNotPaused })
  refine ⟨good_maybeMakeActive h.id_eq hwf hl hz, .of_scheduler hsend hcur fun hp => ?_⟩
  simp only [resume, hasPartiallySentMessage, hitems] at hp ⊢
  exact hp

theorem good_setAsResetting (h : Good id F c) (hr : c.2.pauseState = .kPaused) :
    Good id F (setAsResetting c) ∧ KeepsSending c (setAsResetting c) := by
  have hw := h.wf
  have ha := h.active
  rw [bytesToSend_of_paused (.inl hr)] at ha
  refine ⟨⟨h.id_eq, ⟨hw.buffered, hw.items, hw.later, fun _ => hw.paused (.inl hr), by simp
    [setAsResetting], hw.time⟩, (h.linked.check hr).of_stream rfl rfl rfl, ?_⟩,
    .of_scheduler rfl rfl fun h => h⟩
  rw [bytesToSend_of_paused (.inr rfl)]
  exact ha

theorem unsend_wf (h : item.Wf id) : (unsend item).Wf id where
  streamId_eq := h.streamId_eq
  size := Nat.zero_add _
  remaining := by
    have hsize := h.size
    have hpos := h.remaining
    simp only [unsend]
    omega
  mid := by simp [unsend]

theorem good_reset (h : Good id F c) : Good id F (reset c) := by
  obtain ⟨ctx, s⟩ := c
  have hz : s.pauseState = .kPaused ∨ s.pauseState = .kResetting → s.nextFinishTime = 0 := by
    intro hp
    by_contra hne
    exact (h.wf.bytesToSend_pos_iff.mp (h.active.mp hne)).1 hp
  cases hi : s.items with
  | nil =>
    have hz' : s.nextFinishTime = 0 := by
      by_contra hne
      exact (h.wf.bytesToSend_pos_iff.mp (h.active.mp hne)).2 hi
    have hbuf := h.wf.buffered
    simp only [reset, hi]
    refine ⟨h.id_eq, ⟨?_, ?_, ?_, ?_, ?_, h.wf.time⟩, h.linked.of_stream rfl rfl rfl, ?_⟩
    · simpa [hi] using hbuf
    · simp
    · simp
    · simp
    · simp
    · exact iff_of_false (fun hne => hne hz') (by rw [bytesToSend_of_items_nil rfl]; omega)
  | cons item rest =>
    have hitem := h.wf.items item (by simp [hi])
    have hbuf := h.wf.buffered
    simp only [hi, map_cons, sum_cons] at hbuf
    have hsize := hitem.size
    have hl := h.linked.increaseBuffered (item.message.payload.length - item.remainingSize)
    simp only [reset, hi]
    set s' : OutgoingStream τ := { (increaseBuffered
        (item.message.payload.length - item.remainingSize) (ctx, s)).2 with
      pauseState := .kNotPaused
      nextOrderedMid := 0
      nextUnorderedMid := 0
      nextSsn := 0
      items := unsend item :: rest } with hs'
    have hwf : s'.Wf := by
      refine ⟨?_, ?_, ?_, ?_, ?_, h.wf.time⟩
      · simp only [hs', increaseBuffered, ThresholdWatcher.increase, map_cons, sum_cons, unsend]
        omega
      · intro j hj
        rcases mem_cons.mp hj with rfl | hj
        · exact unsend_wf hitem
        · exact h.wf.items j (by simp [hi, hj])
      · intro j hj
        have hmem : j ∈ rest := hj
        exact h.wf.later j (by simpa [hi] using hmem)
      · simp [hs']
      · simp [hs']
    by_cases hp : s.pauseState = .kPaused ∨ s.pauseState = .kResetting
    · rw [if_pos hp]
      exact good_maybeMakeActive h.id_eq hwf (hl.of_stream rfl rfl rfl) (hz hp)
    · rw [if_neg hp]
      have hne : s.nextFinishTime ≠ 0 :=
        h.active.mpr (h.wf.bytesToSend_pos_iff.mpr ⟨hp, by simp [hi]⟩)
      exact ⟨h.id_eq, hwf, hl.of_stream rfl rfl rfl,
        iff_of_true hne (hwf.bytesToSend_pos_iff.mpr ⟨by simp [hs'], by simp [hs']⟩)⟩

theorem keepsSending_reset (hp : c.2.hasPartiallySentMessage = false) : KeepsSending c (reset c) := by
  obtain ⟨ctx, s⟩ := c
  refine .of_scheduler ?_ ?_ fun h => absurd h (by simpa using hp)
  all_goals
    simp only [reset]
    split
    · rfl
    · split_ifs
      · first
        | exact (maybeMakeActive_scheduler _).1
        | exact (maybeMakeActive_scheduler _).2.1
      · rfl

structure SamePlace (c c' : SendQueueContext τ × OutgoingStream τ) : Prop where
  streamId : c'.2.streamId = c.2.streamId
  nextFinishTime : c'.2.nextFinishTime = c.2.nextFinishTime
  scheduler : c'.1.scheduler = c.1.scheduler

theorem dropExpired_spec (now : Timestamp) (rounds : Nat) (hwf : c.2.Wf) (hl : Linked F c) :
    (dropExpired now rounds c).2.Wf ∧ Linked F (dropExpired now rounds c) ∧
      SamePlace c (dropExpired now rounds c) ∧
      (dropExpired now rounds c).2.pauseState = c.2.pauseState ∧
      (c.2.hasPartiallySentMessage = true → dropExpired now rounds c = c) := by
  induction rounds generalizing c with
  | zero => exact ⟨hwf, hl, ⟨rfl, rfl, rfl⟩, rfl, fun _ => rfl⟩
  | succ rounds ih =>
    cases hi : c.2.items with
    | nil =>
      have he : dropExpired now (rounds + 1) c = c := by simp only [dropExpired, hi]
      rw [he]
      exact ⟨hwf, hl, ⟨rfl, rfl, rfl⟩, rfl, fun _ => rfl⟩
    | cons item rest =>
      have hpart : c.2.hasPartiallySentMessage = item.mid.isSome := by
        simp only [hasPartiallySentMessage, hi]
      by_cases hx : (item.mid.isNone && item.attributes.expiresAt.le now) = true
      · have hnone : item.mid.isSome = false := by
          cases hmid : item.mid with
          | none => rfl
          | some mid => simp [hmid] at hx
        have hnp : c.2.pauseState ≠ .kPending := by
          intro hpend
          have := hwf.pending hpend
          simp [hpart, hnone] at this
        have hr := released_handleMessageExpired item c
        have hl' := hl.released hr (hwf.front_le_buffered (by simp [hi]))
        have he : dropExpired now (rounds + 1) c = dropExpired now rounds
            ((handleMessageExpired item c).1, { (handleMessageExpired item c).2 with
              items := rest }) := by
          simp only [dropExpired, hi, if_pos hx]
        rw [he]
        generalize handleMessageExpired item c = c' at hr hl' ⊢
        obtain ⟨ctx', s'⟩ := c'
        obtain rfl := hr.stream
        obtain ⟨hwf', hlinked, hplace, hpause, -⟩ := ih
          (c := (ctx', { c.2 with
            bufferedAmount := ⟨c.2.bufferedAmount.value - item.remainingSize,
              c.2.bufferedAmount.lowThreshold⟩
            items := rest }))
          (hwf.tail hi rfl rfl rfl hnp hwf.time) (hl'.of_stream rfl rfl rfl)
        refine ⟨hwf', hlinked, ⟨hplace.streamId, hplace.nextFinishTime,
          hplace.scheduler.trans hr.scheduler⟩, hpause, fun h => ?_⟩
        simp [hpart, hnone] at h
      · have he : dropExpired now (rounds + 1) c = c := by
          simp only [dropExpired, hi, if_neg hx]
        rw [he]
        exact ⟨hwf, hl, ⟨rfl, rfl, rfl⟩, rfl, fun _ => rfl⟩

theorem allocate_eq (s : OutgoingStream τ) (item : QueuedMessage) :
    ∃ mid ssn unorderedMid orderedMid nextSsn, s.allocate item =
      ({ item with mid := some mid, ssn }, { s with
        nextUnorderedMid := unorderedMid, nextOrderedMid := orderedMid, nextSsn }) := by
  cases hm : item.mid with
  | none =>
    simp only [allocate, hm, Option.isSome_none, Bool.false_eq_true, if_false]
    split_ifs <;> exact ⟨_, _, _, _, _, rfl⟩
  | some mid =>
    simp only [allocate, hm, Option.isSome_some, if_true]
    split_ifs
    · refine ⟨mid, item.ssn, s.nextUnorderedMid, s.nextOrderedMid, s.nextSsn, ?_⟩
      rw [← hm]
    · refine ⟨mid, some s.nextSsn, s.nextUnorderedMid, s.nextOrderedMid, s.nextSsn + 1, ?_⟩
      rw [← hm]

theorem nextFragment_size (item : QueuedMessage)
    (h : item.remainingOffset + item.remainingSize = item.message.payload.length) (maxSize : Nat) :
    (nextFragment item maxSize).data.size = min maxSize item.remainingSize := by
  simp only [nextFragment, Data.size, length_take, length_drop]
  omega

theorem nextFragment_isEnd (item : QueuedMessage)
    (h : item.remainingOffset + item.remainingSize = item.message.payload.length) (maxSize : Nat) :
    (nextFragment item maxSize).data.isEnd = true ↔
      (nextFragment item maxSize).data.size = item.remainingSize := by
  simp only [nextFragment, Data.size, decide_eq_true_eq]
  omega

structure Produced (maxSize : Nat) (c : SendQueueContext τ × OutgoingStream τ)
    (chunk : SendQueue.DataToSend) (c' : SendQueueContext τ × OutgoingStream τ) : Prop where
  wf : c'.2.Wf
  place : SamePlace c c'
  streamId : chunk.data.streamId = c.2.streamId
  size_pos : 0 < chunk.data.size
  size_le : chunk.data.size ≤ maxSize
  sending : chunk.data.isEnd = false → c'.2.hasPartiallySentMessage = true

theorem produceFragment_spec {maxSize : Nat} (hmax : 0 < maxSize) (hwf : c.2.Wf)
    (hl : Linked F c) (hi : c.2.items = item :: rest)
    (hnp : ¬ (c.2.pauseState = .kPaused ∨ c.2.pauseState = .kResetting)) :
    Produced maxSize c (produceFragment maxSize item rest c).1
        (produceFragment maxSize item rest c).2 ∧
      Linked F (produceFragment maxSize item rest c).2 := by
  obtain ⟨mid, ssn, unorderedMid, orderedMid, nextSsn, ha⟩ := c.2.allocate_eq item
  have hitem := hwf.items item (by simp [hi])
  set item' : QueuedMessage := { item with mid := some mid, ssn } with hitem'
  set s' : OutgoingStream τ := { c.2 with
    nextUnorderedMid := unorderedMid, nextOrderedMid := orderedMid, nextSsn } with hs'
  have hsize := hitem.size
  have hlen : (nextFragment item' maxSize).data.size = min maxSize item.remainingSize :=
    nextFragment_size item' hsize maxSize
  have hend : (nextFragment item' maxSize).data.isEnd = true ↔
      (nextFragment item' maxSize).data.size = item.remainingSize :=
    nextFragment_isEnd item' hsize maxSize
  have hid : (nextFragment item' maxSize).data.streamId = c.2.streamId := hitem.streamId_eq
  have hpos := hitem.remaining
  have hle := hwf.front_le_buffered (show item ∈ c.2.items by simp [hi])
  have hbuf := hwf.buffered
  simp only [hi, map_cons, sum_cons] at hbuf
  have hr := released_decreaseBuffered (nextFragment item' maxSize).data.size (c.1, s')
  have hl₁ : Linked F (c.1, s') := hl.of_stream rfl rfl rfl
  have hl' := hl₁.released hr
    (show (nextFragment item' maxSize).data.size ≤ c.2.bufferedAmount.value by omega)
  simp only [produceFragment, ha]
  generalize nextFragment item' maxSize = chunk at hlen hend hid hr hl' ⊢
  generalize decreaseBuffered chunk.data.size (c.1, s') = c' at hr hl' ⊢
  obtain ⟨ctx', s''⟩ := c'
  obtain rfl := hr.stream
  cases he : chunk.data.isEnd with
  | true =>
    have hall := hend.mp he
    simp only [if_true]
    refine ⟨⟨?_, ⟨rfl, rfl, hr.scheduler⟩, hid, by omega, by omega, by simp [he]⟩,
      hl'.of_stream rfl rfl rfl⟩
    refine hwf.tail hi rfl rfl (by simp only [hs', hall]) ?_ hwf.time
    simp only
    split_ifs with hp
    · simp
    · exact hp
  | false =>
    have hne : chunk.data.size ≠ item.remainingSize := by
      intro hall
      exact Bool.false_ne_true (he.symm.trans (hend.mpr hall))
    simp only [Bool.false_eq_true, if_false]
    refine ⟨⟨⟨?_, ?_, ?_, ?_, fun _ => rfl, hwf.time⟩, ⟨rfl, rfl, hr.scheduler⟩, hid, by omega,
      by omega, fun _ => rfl⟩, (hl'.check ?_).of_stream rfl rfl rfl⟩
    · simp only [hs', hitem', map_cons, sum_cons]
      omega
    · intro j hj
      rcases mem_cons.mp hj with rfl | hj
      · refine ⟨hitem.streamId_eq, ?_, ?_, ?_⟩
        · simp only [hitem']
          omega
        · simp only [hitem']
          omega
        · simp only [hitem', Option.isSome_some, true_iff]
          omega
      · exact hwf.items j (by simp [hi, hj])
    · intro j hj
      have hmem : j ∈ rest := hj
      exact hwf.later j (by simp [hi, hmem])
    · exact fun hp => absurd hp hnp
    · simp only [hitem']
      omega

theorem scheduledProduce_spec (now : Timestamp) {maxSize : Nat} (hmax : 0 < maxSize) (hwf : c.2.Wf)
    (hl : Linked F c)
    (hnp : ¬ (c.2.pauseState = .kPaused ∨ c.2.pauseState = .kResetting)) :
    Linked F (scheduledProduce now maxSize c).2 ∧
      match (scheduledProduce now maxSize c).1 with
      | none => (scheduledProduce now maxSize c).2.2.Wf ∧
        SamePlace c (scheduledProduce now maxSize c).2 ∧
        (scheduledProduce now maxSize c).2.2.items = [] ∧ c.2.hasPartiallySentMessage = false
      | some chunk => Produced maxSize c chunk (scheduledProduce now maxSize c).2 := by
  have hcheck := not_or.mp hnp
  obtain ⟨hwf', hl', hplace, hpause, hkeep⟩ := dropExpired_spec now c.2.items.length
    (c := (c.1.check (c.2.pauseState ≠ .kPaused ∧ c.2.pauseState ≠ .kResetting), c.2)) hwf
    (hl.check hcheck)
  generalize hc' : dropExpired now c.2.items.length
    (c.1.check (c.2.pauseState ≠ .kPaused ∧ c.2.pauseState ≠ .kResetting), c.2) = c'
    at hwf' hl' hplace hpause hkeep
  cases hi : c'.2.items with
  | nil =>
    have he : scheduledProduce now maxSize c = (none, c') := by
      simp only [scheduledProduce, produce, hc', hi]
    rw [he]
    refine ⟨hl', hwf', ⟨hplace.streamId, hplace.nextFinishTime, hplace.scheduler⟩, hi, ?_⟩
    by_contra hp
    have hp' : c.2.hasPartiallySentMessage = true := by simpa using hp
    rw [hkeep hp'] at hi
    exact (hwf.partial_not_paused hp').2 hi
  | cons item rest =>
    obtain ⟨hprod, hlinked⟩ := produceFragment_spec hmax hwf' hl' hi (by rw [hpause]; exact hnp)
    generalize hr : produceFragment maxSize item rest c' = r at hprod hlinked
    obtain ⟨chunk, ctx, s⟩ := r
    have he : scheduledProduce now maxSize c = (some chunk, ctx,
        { s with currentVirtualTime := s.calculateFinishTime ctx.scheduler chunk.data.size }) := by
      simp only [scheduledProduce, produce, hc', hi, hr]
    rw [he]
    refine ⟨hlinked.of_stream rfl rfl rfl, ?_⟩
    have hw := hprod.wf
    have htime : 0 < s.calculateFinishTime ctx.scheduler chunk.data.size :=
      calculateFinishTime_pos hw.time fun _ => hprod.size_pos
    exact ⟨⟨hw.buffered, hw.items, hw.later, hw.paused, hw.pending, htime.le⟩,
      ⟨hprod.place.streamId.trans hplace.streamId,
        hprod.place.nextFinishTime.trans hplace.nextFinishTime,
        hprod.place.scheduler.trans hplace.scheduler⟩,
      hprod.streamId.trans hplace.streamId, hprod.size_pos, hprod.size_le, hprod.sending⟩

end Operations

end OutgoingStream

end WebRtc.DcSctp
