import WebRtc.DcSctp.SendQueueView

/-! A message leaves the send queue with its last fragment or with a report. -/

namespace WebRtc.DcSctp

open MessageStream List Function

open QueuedMessage

def QueuedMessage.hasId (x : LifecycleId) (item : QueuedMessage) : Bool :=
  item.attributes.lifecycleId = x

def QueuedMessage.SameMessage (item item' : QueuedMessage) : Prop :=
  item'.messageId = item.messageId ∧ item'.attributes = item.attributes

namespace SendQueueView

def queued (v : SendQueueView) (x : LifecycleId) : Nat :=
  ∑ id, (v.streams id).items.countP (QueuedMessage.hasId x)

structure Sheds (dropped : List QueuedMessage) (v v' : SendQueueView) : Prop where
  messageId : v'.nextMessageId = v.nextMessageId
  messages : ∀ id, ∀ item' ∈ (v'.streams id).items, ∃ item ∈ (v.streams id).items,
    item.SameMessage item'
  queued : ∀ x, v.queued x = v'.queued x + dropped.countP (QueuedMessage.hasId x)
  lifecycle : v'.lifecycle = v.lifecycle ++ dropped.flatMap QueuedMessage.report

variable {v v' v'' : SendQueueView} {dropped dropped' : List QueuedMessage}

theorem Sheds.refl (v : SendQueueView) : Sheds [] v v :=
  ⟨rfl, fun _ item h => ⟨item, h, rfl, rfl⟩, fun _ => by rw [countP_nil, Nat.add_zero],
    by simp⟩

theorem Sheds.trans (h : Sheds dropped v v') (h' : Sheds dropped' v' v'') :
    Sheds (dropped ++ dropped') v v'' where
  messageId := h'.messageId.trans h.messageId
  messages id item'' h'' := by
    obtain ⟨item', hm', hs'⟩ := h'.messages id item'' h''
    obtain ⟨item, hm, hs⟩ := h.messages id item' hm'
    exact ⟨item, hm, hs'.1.trans hs.1, hs'.2.trans hs.2⟩
  queued x := by
    rw [h.queued x, h'.queued x, countP_append]
    omega
  lifecycle := by rw [h'.lifecycle, h.lifecycle, flatMap_append, append_assoc]

theorem queued_setStream (v : SendQueueView) (id : StreamID) (m : MessageStream) (x : LifecycleId) :
    (v.setStream id m).queued x + (v.streams id).items.countP (hasId x) =
      v.queued x + m.items.countP (hasId x) := by
  simp only [queued, setStream]
  have hnew := Finset.add_sum_erase Finset.univ
    (fun j => (Function.update v.streams id m j).items.countP (hasId x))
    (Finset.mem_univ id)
  have hold := Finset.add_sum_erase Finset.univ
    (fun j => (v.streams j).items.countP (hasId x)) (Finset.mem_univ id)
  have hrest : ∑ j ∈ Finset.univ.erase id,
      (Function.update v.streams id m j).items.countP (hasId x) =
      ∑ j ∈ Finset.univ.erase id, (v.streams j).items.countP (hasId x) := by
    refine Finset.sum_congr rfl fun j hj => ?_
    rw [update_of_ne (Finset.ne_of_mem_erase hj)]
  simp only [update_self] at hnew
  omega

variable {id : StreamID}

theorem sheds_setStream {m : MessageStream}
    (hm : ∀ item' ∈ m.items, ∃ item ∈ (v.streams id).items, item.SameMessage item')
    (hc : ∀ x, (v.streams id).items.countP (hasId x) =
      m.items.countP (hasId x) + dropped.countP (hasId x)) :
    Sheds dropped v ((v.setStream id m).append (dropped.flatMap report)) where
  messageId := rfl
  messages j item' h := by
    by_cases hj : j = id
    · subst hj
      simp only [setStream, append, update_self] at h
      exact hm item' h
    · simp only [setStream, append, update_of_ne hj] at h
      exact ⟨item', h, rfl, rfl⟩
  queued x := by
    have hq := queued_setStream v id m x
    have hx := hc x
    show v.queued x = (v.setStream id m).queued x + _
    omega
  lifecycle := rfl

theorem Expires.sheds {now : Timestamp} (h : Expires now v v') : ∃ dropped, Sheds dropped v v' := by
  induction h with
  | refl v => exact ⟨[], .refl v⟩
  | @drop v v' id item rest hi hm he h ih =>
    obtain ⟨dropped, hd⟩ := ih
    refine ⟨[item] ++ dropped, Sheds.trans ?_ hd⟩
    have hs : Sheds [item] v ((v.setStream id { v.streams id with items := rest }).append
        ([item].flatMap report)) := by
      refine sheds_setStream (fun item' h' => ⟨item', by simp [hi, h'], rfl, rfl⟩) fun x => ?_
      rw [hi, countP_cons, countP_singleton]
    simpa using hs

theorem sheds_pause (v : SendQueueView) (id : StreamID) :
    Sheds (v.streams id).unsent v ((v.setStream id (v.streams id).pause).append
      ((v.streams id).unsent.flatMap report)) := by
  by_cases hp : (v.streams id).pauseState = .kNotPaused
  · have hitems : (v.streams id).pause.items =
        (v.streams id).items.filter fun item => item.remainingOffset ≠ 0 := by
      simp [pause, hp]
    have hunsent : (v.streams id).unsent =
        (v.streams id).items.filter fun item => item.remainingOffset = 0 := by
      simp [unsent, hp]
    refine sheds_setStream (fun item' h' => ⟨item', ?_, rfl, rfl⟩) fun x => ?_
    · rw [hitems] at h'
      exact mem_of_mem_filter h'
    · rw [hitems, hunsent]
      generalize (v.streams id).items = items
      induction items with
      | nil => rfl
      | cons item rest ih =>
        by_cases h0 : item.remainingOffset = 0 <;>
          simp [countP_cons, h0] at ih ⊢ <;> omega
  · have hpause : (v.streams id).pause = v.streams id := by simp [pause, hp]
    have hunsent : (v.streams id).unsent = [] := by simp [unsent, hp]
    rw [hpause, hunsent]
    exact sheds_setStream (fun item' h' => ⟨item', h', rfl, rfl⟩) fun x => by simp

theorem sheds_discard {messageId : OutgoingMessageId} {item : QueuedMessage}
    {m : MessageStream} (h : (v.streams id).discard messageId = some (item, m)) :
    Sheds [item] v ((v.setStream id m).append item.report) := by
  have hitems := (discard_eq_some h).1
  have hs : Sheds [item] v ((v.setStream id m).append ([item].flatMap report)) := by
    refine sheds_setStream (fun item' h' => ⟨item', by simp [hitems, h'], rfl, rfl⟩) fun x => ?_
    rw [hitems, countP_cons, countP_singleton]
  simpa using hs

theorem sheds_changeStreams (v : SendQueueView) (pauseState : PauseState)
    {g : MessageStream → MessageStream}
    (hm : ∀ m : MessageStream, ∀ item' ∈ (g m).items, ∃ item ∈ m.items, item.SameMessage item')
    (hc : ∀ (m : MessageStream) x, (g m).items.countP (hasId x) = m.items.countP (hasId x)) :
    Sheds [] v (v.changeStreams pauseState g) where
  messageId := rfl
  messages id item' h := by
    simp only [changeStreams] at h
    split_ifs at h
    · exact hm _ item' h
    · exact ⟨item', h, rfl, rfl⟩
  queued x := by
    rw [countP_nil, Nat.add_zero]
    refine Finset.sum_congr rfl fun id _ => ?_
    simp only [changeStreams]
    split_ifs
    · exact (hc _ x).symm
    · rfl
  lifecycle := by simp [changeStreams]

theorem sheds_reset (v : SendQueueView) : Sheds [] v (v.changeStreams .kResetting reset) := by
  refine sheds_changeStreams v _ (fun m item' h => ?_) fun m x => ?_
  · cases hi : m.items with
    | nil => simp [reset, hi] at h
    | cons item rest =>
      simp only [reset, hi, mem_cons] at h
      rcases h with rfl | h
      · exact ⟨item, by simp, rfl, rfl⟩
      · exact ⟨item', by simp [h], rfl, rfl⟩
  · cases hi : m.items with
    | nil => simp [reset, hi]
    | cons item rest =>
      simp only [reset, hi, countP_cons]
      rfl

theorem queued_enqueue (v : SendQueueView) (message : DcSctpMessage) (attributes : MessageAttributes)
    (x : LifecycleId) : (v.enqueue message attributes).queued x =
      v.queued x + if attributes.lifecycleId = x then 1 else 0 := by
  have hq := queued_setStream v message.streamId { v.streams message.streamId with
    items := (v.streams message.streamId).items ++
      [QueuedMessage.new v.nextMessageId message attributes] } x
  simp only [countP_append, countP_singleton, hasId, QueuedMessage.new, decide_eq_true_eq] at hq
  show SendQueueView.queued (setStream _ _ _) x = _
  simp only [QueuedMessage.new]
  omega

theorem messages_enqueue (v : SendQueueView) (message : DcSctpMessage)
    (attributes : MessageAttributes) {item' : QueuedMessage}
    (h : item' ∈ ((v.enqueue message attributes).streams id).items) : item' ∈ (v.streams id).items ∨
      item'.messageId = v.nextMessageId ∧ item'.attributes = attributes := by
  by_cases hid : id = message.streamId
  · subst hid
    simp only [enqueue, setStream, update_self, mem_append, mem_singleton] at h
    rcases h with h | rfl
    · exact .inl h
    · exact .inr ⟨rfl, rfl⟩
  · simp only [enqueue, setStream, update_of_ne hid] at h
    exact .inl h

/-- A chunk was produced, after the messages in `dropped` have left the queue. -/
structure Sends (dropped : List QueuedMessage) (chunk : SendQueue.DataToSend)
    (v v' : SendQueueView) : Prop where
  messageId : v'.nextMessageId = v.nextMessageId
  messages : ∀ id, ∀ item' ∈ (v'.streams id).items, ∃ item ∈ (v.streams id).items,
    item.SameMessage item'
  queued : ∀ x ≠ 0, v.queued x = v'.queued x + dropped.countP (QueuedMessage.hasId x) +
    if chunk.lifecycleId = x then 1 else 0
  lifecycle : v'.lifecycle = v.lifecycle ++ dropped.flatMap QueuedMessage.report
  origin : ∃ id, ∃ item ∈ (v.streams id).items, chunk.messageId = item.messageId ∧
    chunk.maxRetransmissions = item.attributes.maxRetransmissions ∧
    chunk.expiresAt = item.attributes.expiresAt
  isEnd : chunk.lifecycleId ≠ 0 → chunk.data.isEnd

variable {chunk : SendQueue.DataToSend}

theorem fragment_eq_some {m m' : MessageStream} {maxSize : Nat}
    (h : m.fragment maxSize = some (chunk, m')) :
    ∃ item rest sent, m.items = item :: rest ∧ item.SameMessage sent ∧
      chunk = OutgoingStream.nextFragment sent maxSize ∧ m'.items = if chunk.data.isEnd then rest
        else advance sent chunk.data.size :: rest := by
  simp only [fragment] at h
  cases hi : m.items with
  | nil => simp [hi] at h
  | cons item rest =>
    simp only [hi, Option.some.injEq, Prod.mk.injEq] at h
    obtain ⟨rfl, rfl⟩ := h
    refine ⟨item, rest, (m.allocate item).1, rfl, ?_, rfl, ?_⟩
    · simp only [allocate]
      split_ifs <;> exact ⟨rfl, rfl⟩
    · split_ifs <;> rfl

theorem Produces.sends {now : Timestamp} {maxSize : Nat} (h : Produces now maxSize id v chunk v') :
    ∃ dropped, Sends dropped chunk v v' := by
  obtain ⟨v₁, m, hexp, hfrag, rfl⟩ := h
  obtain ⟨dropped, hd⟩ := hexp.sheds
  obtain ⟨item, rest, sent, hitems, hsame, rfl, hm⟩ := fragment_eq_some hfrag
  have hattr : sent.attributes = item.attributes := hsame.2
  refine ⟨dropped, hd.messageId, fun j item' h' => ?_, fun x hx => ?_, hd.lifecycle, ?_, ?_⟩
  · have hmem : ∃ i ∈ (v₁.streams j).items, i.SameMessage item' := by
      by_cases hj : j = id
      · subst hj
        simp only [setStream, update_self, hm] at h'
        rw [hitems]
        split_ifs at h'
        · exact ⟨item', by simp [h'], rfl, rfl⟩
        · rcases List.mem_cons.mp h' with rfl | h'
          · exact ⟨item, by simp, hsame⟩
          · exact ⟨item', by simp [h'], rfl, rfl⟩
      · simp only [setStream, update_of_ne hj] at h'
        exact ⟨item', h', rfl, rfl⟩
    obtain ⟨i, hi, hsi⟩ := hmem
    obtain ⟨i₀, hi₀, hsi₀⟩ := hd.messages j i hi
    exact ⟨i₀, hi₀, hsi.1.trans hsi₀.1, hsi.2.trans hsi₀.2⟩
  · have hq := queued_setStream v₁ id m x
    have hdq := hd.queued x
    rw [hitems, hm, countP_cons] at hq
    have hhas : hasId x item = decide (sent.attributes.lifecycleId = x) := by
      rw [hattr]
      rfl
    rw [hhas] at hq
    by_cases hend : (OutgoingStream.nextFragment sent maxSize).data.isEnd = true
    · have hid : (OutgoingStream.nextFragment sent maxSize).lifecycleId =
          sent.attributes.lifecycleId := if_pos hend
      simp only [hend, if_true, decide_eq_true_eq] at hq
      rw [hid]
      omega
    · have hid : (OutgoingStream.nextFragment sent maxSize).lifecycleId = 0 := if_neg hend
      simp only [hend, if_false, decide_eq_true_eq, countP_cons, hasId,
        advance, Bool.false_eq_true] at hq
      rw [hid, if_neg (Ne.symm hx)]
      omega
  · obtain ⟨i₀, hi₀, hsi₀⟩ := hd.messages id item (by simp [hitems])
    refine ⟨id, i₀, hi₀, hsame.1.trans hsi₀.1, ?_, ?_⟩
    · rw [← hsi₀.2, ← hattr]
      rfl
    · rw [← hsi₀.2, ← hattr]
      rfl
  · intro hne
    by_contra hend
    exact hne (if_neg hend)

end SendQueueView

end WebRtc.DcSctp
