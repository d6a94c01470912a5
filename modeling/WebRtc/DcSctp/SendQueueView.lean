import WebRtc.DcSctp.RRSendQueue

/-! The send queue as a collection of message lists, one for each stream. Every operation of
`RRSendQueue` is one on these lists; scheduling only decides which stream is next. -/

namespace WebRtc.DcSctp

open List

structure MessageStream where
  pauseState : PauseState
  nextUnorderedMid : MID
  nextOrderedMid : MID
  nextSsn : SSN
  items : List QueuedMessage

structure SendQueueView where
  streams : StreamID → MessageStream
  nextMessageId : OutgoingMessageId
  lifecycle : List SendQueue.Event

def SendQueue.Event.isLifecycle : SendQueue.Event → Bool
  | .onLifecycleMessageExpired .. | .onLifecycleEnd _ => true
  | .onBufferedAmountLow _ | .onTotalBufferedAmountLow => false

def QueuedMessage.report (item : QueuedMessage) : List SendQueue.Event :=
  if item.attributes.lifecycleId = 0 then []
  else [.onLifecycleMessageExpired item.attributes.lifecycleId false,
    .onLifecycleEnd item.attributes.lifecycleId]

namespace MessageStream

def allocate (m : MessageStream) (item : QueuedMessage) : QueuedMessage × MessageStream :=
  let (item, m) :=
    if item.mid.isSome then (item, m)
    else if item.attributes.unordered then
      ({ item with mid := some m.nextUnorderedMid },
        { m with nextUnorderedMid := m.nextUnorderedMid + 1 })
    else ({ item with mid := some m.nextOrderedMid }, { m with nextOrderedMid := m.nextOrderedMid + 1 })
  if item.attributes.unordered || item.ssn.isSome then (item, m)
  else ({ item with ssn := some m.nextSsn }, { m with nextSsn := m.nextSsn + 1 })

def advance (item : QueuedMessage) (size : Nat) : QueuedMessage :=
  { item with
    currentFsn := item.currentFsn + 1
    remainingOffset := item.remainingOffset + size
    remainingSize := item.remainingSize - size }

def fragment (m : MessageStream) (maxSize : Nat) : Option (SendQueue.DataToSend × MessageStream) :=
  match m.items with
  | [] => none
  | item :: rest =>
    let (item, m) := m.allocate item
    let chunk := OutgoingStream.nextFragment item maxSize
    some (chunk,
      if chunk.data.isEnd then
        { m with
          items := rest
          pauseState := if m.pauseState = .kPending then .kPaused else m.pauseState }
      else { m with items := advance item chunk.data.size :: rest })

def pause (m : MessageStream) : MessageStream :=
  if m.pauseState ≠ .kNotPaused then m
  else
    let items := m.items.filter fun item => item.remainingOffset ≠ 0
    { m with
      items
      pauseState :=
        if items.head?.all fun front => front.remainingOffset = 0 then .kPaused else .kPending }

def discard (m : MessageStream) (messageId : OutgoingMessageId) :
    Option (QueuedMessage × MessageStream) :=
  match m.items with
  | [] => none
  | item :: rest =>
    if item.messageId = messageId then
      some (item, { m with
        items := rest
        pauseState := if m.pauseState = .kPending then .kPaused else m.pauseState })
    else none

theorem discard_eq_some {m m' : MessageStream} {messageId : OutgoingMessageId} {item : QueuedMessage}
    (h : m.discard messageId = some (item, m')) :
    m.items = item :: m'.items ∧ item.messageId = messageId := by
  simp only [discard] at h
  cases hi : m.items with
  | nil => simp [hi] at h
  | cons front rest =>
    simp only [hi, Option.ite_none_right_eq_some, Option.some.injEq, Prod.mk.injEq] at h
    obtain ⟨hid, rfl, rfl⟩ := h
    exact ⟨rfl, hid⟩

def unsent (m : MessageStream) : List QueuedMessage :=
  if m.pauseState ≠ .kNotPaused then [] else m.items.filter fun item => item.remainingOffset = 0

def reset (m : MessageStream) : MessageStream :=
  { m with
    pauseState := .kNotPaused
    nextOrderedMid := 0
    nextUnorderedMid := 0
    nextSsn := 0
    items :=
      match m.items with
      | [] => []
      | item :: rest => OutgoingStream.unsend item :: rest }

end MessageStream

namespace SendQueueView

def setStream (v : SendQueueView) (id : StreamID) (m : MessageStream) : SendQueueView :=
  { v with streams := Function.update v.streams id m }

def append (v : SendQueueView) (events : List SendQueue.Event) : SendQueueView :=
  { v with lifecycle := v.lifecycle ++ events }

def enqueue (v : SendQueueView) (message : DcSctpMessage) (attributes : MessageAttributes) :
    SendQueueView :=
  let m := v.streams message.streamId
  let item := QueuedMessage.new v.nextMessageId message attributes
  { v.setStream message.streamId { m with items := m.items ++ [item] } with
    nextMessageId := v.nextMessageId + 1 }

def changeStreams (v : SendQueueView) (pauseState : PauseState) (g : MessageStream → MessageStream) :
    SendQueueView :=
  { v with streams := fun id =>
      if (v.streams id).pauseState = pauseState then g (v.streams id) else v.streams id }

inductive Expires (now : Timestamp) : SendQueueView → SendQueueView → Prop
  | refl (v : SendQueueView) : Expires now v v
  | drop {v v' : SendQueueView} (id : StreamID) {item : QueuedMessage} {rest : List QueuedMessage}
      (hi : (v.streams id).items = item :: rest) (hm : item.mid = none)
      (he : item.attributes.expiresAt.le now = true)
      (h : Expires now ((v.setStream id { v.streams id with items := rest }).append item.report) v') :
      Expires now v v'

theorem Expires.trans {now : Timestamp} {v v' v'' : SendQueueView} (h : Expires now v v')
    (h' : Expires now v' v'') : Expires now v v'' := by
  induction h with
  | refl v => exact h'
  | drop id hi hm he _ ih => exact .drop id hi hm he (ih h')

def Produces (now : Timestamp) (maxSize : Nat) (id : StreamID) (v : SendQueueView)
    (chunk : SendQueue.DataToSend) (v' : SendQueueView) : Prop :=
  ∃ v₁ m, Expires now v v₁ ∧ (v₁.streams id).fragment maxSize = some (chunk, m) ∧
    v' = v₁.setStream id m

end SendQueueView

variable {τ : Type} [VirtualTime τ]

def OutgoingStream.view (s : OutgoingStream τ) : MessageStream :=
  ⟨s.pauseState, s.nextUnorderedMid, s.nextOrderedMid, s.nextSsn, s.items⟩

def RRSendQueue.view (q : RRSendQueue τ) : SendQueueView where
  streams id := (q.getOrCreateStreamInfo id).view
  nextMessageId := q.ctx.currentMessageId
  lifecycle := q.ctx.events.filter SendQueue.Event.isLifecycle

def SendQueueView.put (v : SendQueueView) (c : SendQueueContext τ × OutgoingStream τ) :
    SendQueueView where
  streams := Function.update v.streams c.2.streamId c.2.view
  nextMessageId := c.1.currentMessageId
  lifecycle := c.1.events.filter SendQueue.Event.isLifecycle

def RRSendQueue.Keyed (q : RRSendQueue τ) : Prop :=
  ∀ id s, q.streams.find? id = some s → s.streamId = id

def StreamScheduler.SameMode (s s' : StreamScheduler τ) : Prop :=
  s.enableMessageInterleaving = s'.enableMessageInterleaving ∧
    s.currentlySendingAMessage = s'.currentlySendingAMessage

variable {m : MessageStream}

namespace OutgoingStream

structure Reports (events : List SendQueue.Event) (c c' : SendQueueContext τ × OutgoingStream τ) :
    Prop where
  streamId : c'.2.streamId = c.2.streamId
  stream : c'.2.view = c.2.view
  messageId : c'.1.currentMessageId = c.1.currentMessageId
  lifecycle : c'.1.events.filter SendQueue.Event.isLifecycle =
    c.1.events.filter SendQueue.Event.isLifecycle ++ events

variable {c c' c'' : SendQueueContext τ × OutgoingStream τ} {events events' : List SendQueue.Event}

theorem Reports.refl (c : SendQueueContext τ × OutgoingStream τ) : Reports [] c c :=
  ⟨rfl, rfl, rfl, (append_nil _).symm⟩

theorem Reports.trans (h : Reports events c c') (h' : Reports events' c' c'') :
    Reports (events ++ events') c c'' where
  streamId := h'.streamId.trans h.streamId
  stream := h'.stream.trans h.stream
  messageId := h'.messageId.trans h.messageId
  lifecycle := by rw [h'.lifecycle, h.lifecycle, append_assoc]

theorem Reports.put (h : Reports events c c') (v : SendQueueView) :
    v.put c' = (v.put c).append events := by
  simp only [SendQueueView.put, SendQueueView.append, h.streamId, h.stream, h.messageId, h.lifecycle]

theorem reports_check (c : SendQueueContext τ × OutgoingStream τ) (p : Prop) [Decidable p] :
    Reports [] c (c.1.check p, c.2) :=
  ⟨rfl, rfl, rfl, (append_nil _).symm⟩

theorem lifecycle_notify (ctx : SendQueueContext τ) (condition : Bool) {event : SendQueue.Event}
    (h : event.isLifecycle = false) :
    (ctx.notify condition event).events.filter SendQueue.Event.isLifecycle =
      ctx.events.filter SendQueue.Event.isLifecycle := by
  cases condition <;> simp [SendQueueContext.notify, h]

theorem reports_decreaseBuffered (bytes : Nat) (c : SendQueueContext τ × OutgoingStream τ) :
    Reports [] c (decreaseBuffered bytes c) := by
  refine ⟨rfl, rfl, ?_, ?_⟩
  · simp only [decreaseBuffered, SendQueueContext.notify, SendQueueContext.check]
    split_ifs <;> rfl
  · simp only [decreaseBuffered]
    rw [lifecycle_notify _ _ rfl]
    show (SendQueueContext.notify _ _ _).events.filter _ = _
    rw [lifecycle_notify _ _ rfl, append_nil]
    rfl

theorem reports_handleMessageExpired (item : QueuedMessage)
    (c : SendQueueContext τ × OutgoingStream τ) :
    Reports item.report c (handleMessageExpired item c) := by
  have hd := reports_decreaseBuffered item.remainingSize c
  refine ⟨hd.streamId, hd.stream, ?_, ?_⟩
  · rw [← hd.messageId]
    simp only [handleMessageExpired, SendQueueContext.notify]
    split_ifs <;> rfl
  · rw [← append_nil (List.filter _ c.1.events), ← hd.lifecycle]
    by_cases h0 : item.attributes.lifecycleId = 0#64 <;>
      simp [handleMessageExpired, SendQueueContext.notify, QueuedMessage.report, h0,
        SendQueue.Event.isLifecycle]

theorem scheduler_decreaseBuffered (bytes : Nat) (c : SendQueueContext τ × OutgoingStream τ) :
    (decreaseBuffered bytes c).1.scheduler = c.1.scheduler := by
  simp only [decreaseBuffered, SendQueueContext.notify, SendQueueContext.check]
  split_ifs <;> rfl

theorem scheduler_handleMessageExpired (item : QueuedMessage)
    (c : SendQueueContext τ × OutgoingStream τ) :
    (handleMessageExpired item c).1.scheduler = c.1.scheduler := by
  rw [← scheduler_decreaseBuffered item.remainingSize c]
  simp only [handleMessageExpired, SendQueueContext.notify]
  split_ifs <;> rfl

theorem scheduler_dropExpired (now : Timestamp) (rounds : Nat)
    (c : SendQueueContext τ × OutgoingStream τ) :
    (dropExpired now rounds c).1.scheduler = c.1.scheduler := by
  induction rounds generalizing c with
  | zero => rfl
  | succ rounds ih =>
    simp only [dropExpired]
    split
    · rfl
    · split_ifs
      · rw [ih]
        exact scheduler_handleMessageExpired _ c
      · rfl

theorem scheduler_produceFragment (maxSize : Nat) (item : QueuedMessage) (rest : List QueuedMessage)
    (c : SendQueueContext τ × OutgoingStream τ) :
    (produceFragment maxSize item rest c).2.1.scheduler = c.1.scheduler := by
  simp only [produceFragment]
  generalize c.2.allocate item = a
  have hd := scheduler_decreaseBuffered (nextFragment a.1 maxSize).data.size (c.1, a.2)
  split_ifs <;> exact hd

theorem scheduler_scheduledProduce (now : Timestamp) (maxSize : Nat)
    (c : SendQueueContext τ × OutgoingStream τ) :
    (scheduledProduce now maxSize c).2.1.scheduler = c.1.scheduler := by
  have hd := scheduler_dropExpired now c.2.items.length
    (c.1.check (c.2.pauseState ≠ .kPaused ∧ c.2.pauseState ≠ .kResetting), c.2)
  simp only [scheduledProduce, produce]
  generalize dropExpired now c.2.items.length
    (c.1.check (c.2.pauseState ≠ .kPaused ∧ c.2.pauseState ≠ .kResetting), c.2) = c₁ at hd ⊢
  cases c₁.2.items with
  | nil => exact hd
  | cons item rest => exact (scheduler_produceFragment maxSize item rest c₁).trans hd

theorem reports_makeActive (bytes : Nat) (c : SendQueueContext τ × OutgoingStream τ) :
    Reports [] c (makeActive bytes c) :=
  ⟨rfl, rfl, rfl, (append_nil _).symm⟩

theorem reports_maybeMakeActive (c : SendQueueContext τ × OutgoingStream τ) :
    Reports [] c (maybeMakeActive c) := by
  simp only [maybeMakeActive]
  split_ifs
  · exact reports_check c _
  · exact (reports_check c (c.2.nextFinishTime = 0)).trans (reports_makeActive _ _)

theorem reports_makeInactive (c : SendQueueContext τ × OutgoingStream τ) :
    Reports [] c (makeInactive c) :=
  ⟨rfl, rfl, rfl, (append_nil _).symm⟩

theorem view_allocate (s : OutgoingStream τ) (item : QueuedMessage) :
    (s.allocate item).1 = (s.view.allocate item).1 ∧
      (s.allocate item).2.view = (s.view.allocate item).2 ∧
      (s.allocate item).2.streamId = s.streamId := by
  simp only [allocate, MessageStream.allocate, view]
  split_ifs <;> exact ⟨rfl, rfl, rfl⟩

theorem put_items (v : SendQueueView) (ctx : SendQueueContext τ) (s : OutgoingStream τ)
    (items : List QueuedMessage) :
    v.put (ctx, { s with items }) =
      (v.put (ctx, s)).setStream s.streamId { s.view with items } := by
  simp [SendQueueView.put, SendQueueView.setStream, view]

theorem streams_put (v : SendQueueView) (c : SendQueueContext τ × OutgoingStream τ) :
    (v.put c).streams c.2.streamId = c.2.view := by
  simp [SendQueueView.put]

theorem expires_dropExpired (now : Timestamp) (v : SendQueueView) (rounds : Nat)
    (c : SendQueueContext τ × OutgoingStream τ) :
    SendQueueView.Expires now (v.put c) (v.put (dropExpired now rounds c)) ∧
      (dropExpired now rounds c).2.streamId = c.2.streamId := by
  induction rounds generalizing c with
  | zero => exact ⟨.refl _, rfl⟩
  | succ rounds ih =>
    simp only [dropExpired]
    cases hi : c.2.items with
    | nil => exact ⟨.refl _, rfl⟩
    | cons item rest =>
      by_cases he : (item.mid.isNone && item.attributes.expiresAt.le now) = true
      · simp only [he, if_true]
        have hr := reports_handleMessageExpired item c
        generalize handleMessageExpired item c = c₁ at hr
        obtain ⟨hexp, hid⟩ := ih (c₁.1, { c₁.2 with items := rest })
        rw [Bool.and_eq_true, Option.isNone_iff_eq_none] at he
        have hfront : ((v.put c).streams c.2.streamId).items = item :: rest := by
          rw [streams_put]
          exact hi
        have hput : v.put (c₁.1, { c₁.2 with items := rest }) =
            ((v.put c).setStream c.2.streamId
              { (v.put c).streams c.2.streamId with items := rest }).append item.report := by
          rw [put_items, hr.put v, hr.streamId, hr.stream, streams_put]
          rfl
        exact ⟨.drop c.2.streamId hfront he.1 he.2 (hput ▸ hexp), hid.trans hr.streamId⟩
      · simp only [he]
        exact ⟨.refl _, rfl⟩

theorem fragment_produceFragment (maxSize : Nat) {item : QueuedMessage} {rest : List QueuedMessage}
    {c : SendQueueContext τ × OutgoingStream τ} (hi : c.2.items = item :: rest) (v : SendQueueView) :
    ∃ m, c.2.view.fragment maxSize = some ((produceFragment maxSize item rest c).1, m) ∧
      v.put (produceFragment maxSize item rest c).2 = (v.put c).setStream c.2.streamId m ∧
      (produceFragment maxSize item rest c).2.2.streamId = c.2.streamId := by
  obtain ⟨hitem, hview, hid⟩ := view_allocate c.2 item
  simp only [produceFragment, MessageStream.fragment,
    show c.2.view.items = item :: rest from hi, ← hitem, ← hview]
  generalize c.2.allocate item = a at hid ⊢
  obtain ⟨item', s⟩ := a
  simp only
  have hd := reports_decreaseBuffered (nextFragment item' maxSize).data.size (c.1, s)
  generalize decreaseBuffered (nextFragment item' maxSize).data.size (c.1, s) = c₁ at hd ⊢
  have hput : ∀ ctx : SendQueueContext τ, ∀ s' : OutgoingStream τ,
      ctx.currentMessageId = c₁.1.currentMessageId → ctx.events = c₁.1.events →
      s'.streamId = c₁.2.streamId → v.put (ctx, s') = (v.put c).setStream c.2.streamId s'.view := by
    intro ctx s' hm he hs
    simp only [SendQueueView.put, SendQueueView.setStream, hm, he, hs, hd.messageId, hd.lifecycle,
      hd.streamId, show s.streamId = c.2.streamId from hid, append_nil, Function.update_idem]
  have hid₁ := hd.streamId.trans hid
  obtain ⟨hpause, hunordered, hordered, hssn, -⟩ := MessageStream.mk.inj hd.stream
  by_cases hend : (nextFragment item' maxSize).data.isEnd = true
  · simp only [hend, if_true]
    refine ⟨_, rfl, (hput _ _ ?_ ?_ ?_).trans ?_, hid₁⟩
    · rfl
    · rfl
    · rfl
    · simp only [view, hpause, hunordered, hordered, hssn]
      rfl
  · simp only [hend, if_false, Bool.false_eq_true]
    refine ⟨_, rfl, (hput _ _ ?_ ?_ ?_).trans ?_, hid₁⟩
    · rfl
    · rfl
    · rfl
    · simp only [view, hpause, hunordered, hordered, hssn]
      rfl

theorem produces_produce (now : Timestamp) (maxSize : Nat) (c : SendQueueContext τ × OutgoingStream τ)
    (v : SendQueueView) :
    (produce now maxSize c).2.2.streamId = c.2.streamId ∧
      match (produce now maxSize c).1 with
      | none => SendQueueView.Expires now (v.put c) (v.put (produce now maxSize c).2)
      | some chunk => SendQueueView.Produces now maxSize c.2.streamId (v.put c) chunk
          (v.put (produce now maxSize c).2) := by
  have hcheck := reports_check c (c.2.pauseState ≠ .kPaused ∧ c.2.pauseState ≠ .kResetting)
  obtain ⟨hexp, hid⟩ := expires_dropExpired now v c.2.items.length
    (c.1.check (c.2.pauseState ≠ .kPaused ∧ c.2.pauseState ≠ .kResetting), c.2)
  rw [hcheck.put v] at hexp
  simp only [produce]
  generalize dropExpired now c.2.items.length
    (c.1.check (c.2.pauseState ≠ .kPaused ∧ c.2.pauseState ≠ .kResetting), c.2) = c₁ at hexp hid ⊢
  have hv : (v.put c).append [] = v.put c := by simp [SendQueueView.append]
  rw [hv] at hexp
  cases hi : c₁.2.items with
  | nil => exact ⟨hid, hexp⟩
  | cons item rest =>
    obtain ⟨m, hfrag, hput, hid₁⟩ := fragment_produceFragment maxSize hi v
    simp only
    refine ⟨hid₁.trans hid, v.put c₁, m, hexp, ?_, ?_⟩
    · rw [← hid, streams_put]
      exact hfrag
    · rw [← hid]
      exact hput

theorem produces_scheduledProduce (now : Timestamp) (maxSize : Nat)
    (c : SendQueueContext τ × OutgoingStream τ) (v : SendQueueView) :
    (scheduledProduce now maxSize c).2.2.streamId = c.2.streamId ∧
      match (scheduledProduce now maxSize c).1 with
      | none => SendQueueView.Expires now (v.put c) (v.put (scheduledProduce now maxSize c).2)
      | some chunk => SendQueueView.Produces now maxSize c.2.streamId (v.put c) chunk
          (v.put (scheduledProduce now maxSize c).2) := by
  have hp := produces_produce now maxSize c v
  simp only [scheduledProduce]
  generalize produce now maxSize c = r at hp ⊢
  obtain ⟨data, ctx, s⟩ := r
  cases data with
  | none => exact hp
  | some chunk => exact hp

theorem put_add (message : DcSctpMessage) (attributes : MessageAttributes)
    (c : SendQueueContext τ × OutgoingStream τ) (hid : c.2.streamId = message.streamId)
    (v : SendQueueView) : v.put (add message attributes c) = (v.put c).enqueue message attributes ∧
      (add message attributes c).2.streamId = c.2.streamId := by
  have henq : v.put
      ({ (increaseBuffered message.payload.length c).1 with
          currentMessageId := c.1.currentMessageId + 1 },
        { (increaseBuffered message.payload.length c).2 with
          items := c.2.items ++ [QueuedMessage.new c.1.currentMessageId message attributes] }) =
      (v.put c).enqueue message attributes := by
    simp [SendQueueView.put, SendQueueView.enqueue, SendQueueView.setStream, increaseBuffered, ← hid,
      view]
  simp only [add]
  split_ifs
  · exact ⟨henq, rfl⟩
  · have hr := reports_maybeMakeActive
      ({ (increaseBuffered message.payload.length c).1 with
          currentMessageId := c.1.currentMessageId + 1 },
        { (increaseBuffered message.payload.length c).2 with
          items := c.2.items ++ [QueuedMessage.new c.1.currentMessageId message attributes] })
    refine ⟨(hr.put v).trans ?_, hr.streamId⟩
    rw [henq]
    simp [SendQueueView.append]

structure Becomes (m : MessageStream) (events : List SendQueue.Event)
    (c c' : SendQueueContext τ × OutgoingStream τ) : Prop where
  streamId : c'.2.streamId = c.2.streamId
  stream : c'.2.view = m
  messageId : c'.1.currentMessageId = c.1.currentMessageId
  lifecycle : c'.1.events.filter SendQueue.Event.isLifecycle =
    c.1.events.filter SendQueue.Event.isLifecycle ++ events

theorem Becomes.put (h : Becomes m events c c') (v : SendQueueView) :
    v.put c' = ((v.put c).setStream c.2.streamId m).append events := by
  simp only [SendQueueView.put, SendQueueView.append, SendQueueView.setStream, h.streamId, h.stream,
    h.messageId, h.lifecycle, Function.update_idem]

theorem Becomes.reports (h : Becomes m events c c') (h' : Reports [] c' c'') :
    Becomes m events c c'' where
  streamId := h'.streamId.trans h.streamId
  stream := h'.stream.trans h.stream
  messageId := h'.messageId.trans h.messageId
  lifecycle := by rw [h'.lifecycle, h.lifecycle, append_nil]

theorem becomes_discard (messageId : OutgoingMessageId) (c : SendQueueContext τ × OutgoingStream τ) :
    match c.2.view.discard messageId with
    | none => discard messageId c = (false, c)
    | some (item, m) => (discard messageId c).1 = true ∧
      Becomes m item.report c (discard messageId c).2 := by
  simp only [discard, MessageStream.discard]
  cases hi : c.2.items with
  | nil => simp [view, hi]
  | cons item rest =>
    by_cases hm : item.messageId = messageId
    · simp only [hm, if_true, show c.2.view.items = item :: rest from hi]
      have hr := reports_handleMessageExpired item c
      generalize handleMessageExpired item c = c₁ at hr
      obtain ⟨hpause, hunordered, hordered, hssn, -⟩ := MessageStream.mk.inj hr.stream
      have hb : ∀ pauseState, Becomes { c.2.view with items := rest, pauseState } item.report c
          (c₁.1.forceReschedule, { c₁.2 with items := rest, pauseState }) := fun pauseState =>
        ⟨hr.streamId, by simp only [view, hunordered, hordered, hssn], hr.messageId, hr.lifecycle⟩
      by_cases hp : c₁.2.pauseState = .kPending
      · simp only [hp, if_true, show c.2.view.pauseState = .kPending from hpause.symm.trans hp]
        exact ⟨trivial, (hb .kPaused).reports (reports_makeInactive _)⟩
      · have hpv : ¬ c.2.view.pauseState = .kPending := fun h => hp (hpause.trans h)
        have hb' := hb c₁.2.pauseState
        rw [show c₁.2.pauseState = c.2.view.pauseState from hpause] at hb'
        simp only [hp, if_false, hpv]
        split_ifs
        · exact ⟨rfl, Becomes.reports (hpause ▸ hb') (reports_makeInactive _)⟩
        · exact ⟨rfl, hpause ▸ hb'⟩
    · simp [hm, show c.2.view.items = item :: rest from hi]

theorem reports_dropUnsent (l : List QueuedMessage) (c : SendQueueContext τ × OutgoingStream τ) :
    (dropUnsent l c).1 = l.filter (fun item => item.remainingOffset ≠ 0) ∧
      Reports ((l.filter fun item => item.remainingOffset = 0).flatMap QueuedMessage.report) c
        (dropUnsent l c).2 := by
  induction l generalizing c with
  | nil => exact ⟨rfl, .refl c⟩
  | cons item rest ih =>
    by_cases h0 : item.remainingOffset = 0
    · obtain ⟨hkept, hr⟩ := ih (handleMessageExpired item c)
      simp only [dropUnsent, h0, if_true]
      refine ⟨by simp [hkept, h0], ?_⟩
      simpa [h0] using (reports_handleMessageExpired item c).trans hr
    · obtain ⟨hkept, hr⟩ := ih c
      simp only [dropUnsent, h0, if_false]
      exact ⟨by simp [hkept, h0], by simpa [h0] using hr⟩

theorem becomes_pause (c : SendQueueContext τ × OutgoingStream τ) :
    Becomes c.2.view.pause (c.2.view.unsent.flatMap QueuedMessage.report) c (pause c) := by
  by_cases hp : c.2.pauseState = .kNotPaused
  · obtain ⟨hkept, hr⟩ := reports_dropUnsent c.2.items c
    simp only [pause, hp, ne_eq, not_true_eq_false, if_false, MessageStream.pause,
      MessageStream.unsent, show c.2.view.pauseState = .kNotPaused from hp]
    generalize dropUnsent c.2.items c = r at hkept hr ⊢
    obtain ⟨items, c₁⟩ := r
    have hr : Reports _ c c₁ := hr
    obtain ⟨-, hunordered, hordered, hssn, -⟩ := MessageStream.mk.inj hr.stream
    have hkept : items = c.2.view.items.filter fun item => item.remainingOffset ≠ 0 := hkept
    have hb : ∀ pauseState, Becomes { c.2.view with items, pauseState }
        ((c.2.items.filter fun item => item.remainingOffset = 0).flatMap QueuedMessage.report) c
        (c₁.1, { c₁.2 with items, pauseState }) := fun pauseState =>
      ⟨hr.streamId, by simp only [view, hunordered, hordered, hssn], hr.messageId, hr.lifecycle⟩
    simp only [ne_eq] at hkept
    rw [← hkept]
    split_ifs
    all_goals first
      | exact (hb _).reports (reports_makeInactive _)
      | exact hb _
  · simp only [pause, hp, ne_eq, not_false_eq_true, if_true, MessageStream.pause,
      MessageStream.unsent, show ¬ c.2.view.pauseState = .kNotPaused from hp]
    exact ⟨rfl, rfl, rfl, (append_nil _).symm⟩

theorem becomes_resume (c : SendQueueContext τ × OutgoingStream τ) :
    Becomes { c.2.view with pauseState := .kNotPaused } [] c (resume c) := by
  refine Becomes.reports ?_ (reports_maybeMakeActive _)
  exact ⟨rfl, rfl, rfl, (append_nil _).symm⟩

theorem becomes_setAsResetting (c : SendQueueContext τ × OutgoingStream τ) :
    Becomes { c.2.view with pauseState := .kResetting } [] c (setAsResetting c) :=
  ⟨rfl, rfl, rfl, (append_nil _).symm⟩

theorem becomes_reset (c : SendQueueContext τ × OutgoingStream τ) :
    Becomes c.2.view.reset [] c (reset c) := by
  simp only [reset, MessageStream.reset]
  cases hi : c.2.items with
  | nil => exact ⟨rfl, by simp [view, hi], rfl, (append_nil _).symm⟩
  | cons item rest =>
    simp only [show c.2.view.items = item :: rest from hi]
    split_ifs
    · refine Becomes.reports ?_ (reports_maybeMakeActive _)
      exact ⟨rfl, rfl, rfl, (append_nil _).symm⟩
    · exact ⟨rfl, rfl, rfl, (append_nil _).symm⟩

end OutgoingStream

open SendQueueView SendQueueContext OutgoingStream MessageStream QueuedMessage

namespace RRSendQueue

variable {q : RRSendQueue τ}

theorem view_putStream (q : RRSendQueue τ) (c : SendQueueContext τ × OutgoingStream τ) :
    (q.putStream c).view = q.view.put c := by
  simp only [view, put, putStream, getOrCreateStreamInfo, OrdMap.find?_upsert,
    SendQueueView.mk.injEq, and_true]
  funext id
  by_cases h : id = c.2.streamId
  · subst h
    simp
  · simp [h]

section

variable (h : q.Keyed)
include h

theorem Keyed.putStream (c : SendQueueContext τ × OutgoingStream τ) : (q.putStream c).Keyed := by
  intro id s hs
  simp only [RRSendQueue.putStream, OrdMap.find?_upsert] at hs
  split_ifs at hs with hid
  · cases hs
    exact hid.symm
  · exact h id s hs

theorem Keyed.updateStream (id : StreamID)
    (f : SendQueueContext τ × OutgoingStream τ → SendQueueContext τ × OutgoingStream τ) :
    (q.updateStream id f).Keyed :=
  h.putStream _

theorem Keyed.streamId (id : StreamID) : (q.getOrCreateStreamInfo id).streamId = id := by
  simp only [getOrCreateStreamInfo]
  cases hf : q.streams.find? id with
  | none => rfl
  | some s => exact h id s hf

theorem Keyed.put_self (id : StreamID) :
    q.view.put (q.ctx, q.getOrCreateStreamInfo id) = q.view := by
  simp only [put, h.streamId, view, SendQueueView.mk.injEq, and_true]
  exact Function.update_eq_self id fun j => (q.getOrCreateStreamInfo j).view

theorem Keyed.add (now : Timestamp) (message : DcSctpMessage) (options : SendOptions) :
    (q.add now message options).Keyed :=
  Keyed.updateStream (q := q.check (message.payload ≠ [])) h _ _

theorem view_add (now : Timestamp) (message : DcSctpMessage) (options : SendOptions) :
    (q.add now message options).view = q.view.enqueue message (attributesOf now options) := by
  have hput := (put_add message (attributesOf now options)
    ((q.check (message.payload ≠ [])).ctx, q.getOrCreateStreamInfo message.streamId)
    (h.streamId _) q.view).1
  refine (view_putStream _ _).trans (hput.trans ?_)
  exact congrArg (fun v => enqueue v message _)
    (Keyed.put_self (q := q.check (message.payload ≠ [])) h message.streamId)

theorem Keyed.view_updateStream {id : StreamID}
    {f : SendQueueContext τ × OutgoingStream τ → SendQueueContext τ × OutgoingStream τ}
    {events : List SendQueue.Event}
    (hf : OutgoingStream.Becomes m events (q.ctx, q.getOrCreateStreamInfo id)
      (f (q.ctx, q.getOrCreateStreamInfo id))) :
    (q.updateStream id f).view = (q.view.setStream id m).append events := by
  rw [RRSendQueue.updateStream, view_putStream, hf.put, h.put_self, h.streamId]

theorem view_prepareResetStream (id : StreamID) : (q.prepareResetStream id).view =
      (q.view.setStream id (q.view.streams id).pause).append
        ((q.view.streams id).unsent.flatMap report) :=
  h.view_updateStream (becomes_pause (q.ctx, q.getOrCreateStreamInfo id))

theorem view_discard (id : StreamID) (messageId : OutgoingMessageId) :
    match (q.view.streams id).discard messageId with
    | none => (q.discard id messageId).1 = false ∧ (q.discard id messageId).2.view = q.view
    | some (item, m) => (q.discard id messageId).1 = true ∧
      (q.discard id messageId).2.view = (q.view.setStream id m).append item.report := by
  have hb := becomes_discard messageId (q.ctx, q.getOrCreateStreamInfo id)
  simp only [discard, view_putStream]
  show match (q.getOrCreateStreamInfo id).view.discard messageId with
    | none => _
    | some (item, m) => _
  cases hd : (q.getOrCreateStreamInfo id).view.discard messageId with
  | none =>
    simp only [hd] at hb ⊢
    rw [hb]
    exact ⟨rfl, h.put_self id⟩
  | some r =>
    simp only [hd] at hb ⊢
    refine ⟨hb.1, ?_⟩
    rw [hb.2.put, h.put_self, h.streamId]

theorem view_setStreamPriority (id : StreamID) (priority : StreamPriority) :
    (q.setStreamPriority id priority).view = q.view := by
  refine (view_putStream _ _).trans (Eq.trans ?_ (h.put_self id))
  rfl

theorem view_setBufferedAmountLowThreshold (id : StreamID) (bytes : Nat) :
    (q.setBufferedAmountLowThreshold id bytes).view = q.view := by
  refine (view_putStream _ _).trans (Eq.trans ?_ (h.put_self id))
  simp only [put]
  rw [lifecycle_notify _ _ rfl]
  simp only [notify]
  split_ifs <;> rfl

end

theorem Keyed.view_forStreams {condition : OutgoingStream τ → Bool} {pauseState : PauseState}
    {f : SendQueueContext τ × OutgoingStream τ → SendQueueContext τ × OutgoingStream τ}
    {g : MessageStream → MessageStream} (hp : ∀ s, condition s = decide (s.pauseState = pauseState))
    (hf : ∀ c, OutgoingStream.Becomes (g c.2.view) [] c (f c)) {ids : List StreamID}
    (hids : ids.Nodup) (h : q.Keyed) : (forStreams condition f ids q).Keyed ∧
      (∀ id, (forStreams condition f ids q).view.streams id =
        if id ∈ ids ∧ (q.view.streams id).pauseState = pauseState then g (q.view.streams id)
        else q.view.streams id) ∧
      (forStreams condition f ids q).view.nextMessageId = q.view.nextMessageId ∧
      (forStreams condition f ids q).view.lifecycle = q.view.lifecycle := by
  induction ids generalizing q with
  | nil => exact ⟨h, by simp [forStreams]⟩
  | cons id rest ih =>
    obtain ⟨hnot, hrest⟩ := nodup_cons.mp hids
    have hcond : condition (q.getOrCreateStreamInfo id) =
        decide ((q.view.streams id).pauseState = pauseState) := hp _
    simp only [forStreams, hcond, decide_eq_true_eq]
    by_cases hc : (q.view.streams id).pauseState = pauseState
    · rw [if_pos hc]
      have hv : (q.updateStream id f).view = q.view.setStream id (g (q.view.streams id)) := by
        rw [h.view_updateStream (hf (q.ctx, q.getOrCreateStreamInfo id))]
        simp [SendQueueView.append, view]
      obtain ⟨hk, hs, hm, hl⟩ := ih hrest (h.updateStream id f)
      rw [hv] at hs hm hl
      refine ⟨hk, fun j => (hs j).trans ?_, hm, hl⟩
      by_cases hj : j = id
      · subst hj
        simp [setStream, hnot, hc]
      · simp [setStream, hj]
    · rw [if_neg hc]
      obtain ⟨hk, hs, hm, hl⟩ := ih hrest h
      refine ⟨hk, fun j => (hs j).trans ?_, hm, hl⟩
      by_cases hj : j = id
      · subst hj
        simp [hnot, hc]
      · simp [hj]

theorem mem_streamIds {id : StreamID} (h : (q.view.streams id).pauseState ≠ .kNotPaused) :
    id ∈ q.streamIds := by
  by_contra hn
  have hf : q.streams.find? id = none := by
    cases hf : q.streams.find? id with
    | none => rfl
    | some s => exact absurd (mem_map.mpr ⟨(id, s), q.streams.mem_entries_iff.mpr hf, rfl⟩) hn
  simp [view, getOrCreateStreamInfo, hf, OutgoingStream.new, OutgoingStream.view] at h

theorem streamIds_nodup (q : RRSendQueue τ) : q.streamIds.Nodup :=
  (pairwise_map.mpr q.streams.sorted).imp ne_of_lt

theorem Keyed.changeStreams (h : q.Keyed) {condition : OutgoingStream τ → Bool}
    {pauseState : PauseState} (hne : pauseState ≠ .kNotPaused)
    {f : SendQueueContext τ × OutgoingStream τ → SendQueueContext τ × OutgoingStream τ}
    {g : MessageStream → MessageStream} (hp : ∀ s, condition s = decide (s.pauseState = pauseState))
    (hf : ∀ c, OutgoingStream.Becomes (g c.2.view) [] c (f c)) :
    (forStreams condition f q.streamIds q).Keyed ∧
      (forStreams condition f q.streamIds q).view = q.view.changeStreams pauseState g := by
  obtain ⟨hk, hs, hm, hl⟩ := h.view_forStreams hp hf q.streamIds_nodup
  refine ⟨hk, ?_⟩
  have hstreams : (forStreams condition f q.streamIds q).view.streams =
      (q.view.changeStreams pauseState g).streams := by
    funext id
    rw [hs id, SendQueueView.changeStreams]
    by_cases hc : (q.view.streams id).pauseState = pauseState
    · simp only [hc, and_true, mem_streamIds (hc ▸ hne), if_true]
    · simp only [hc, and_false, if_false]
  generalize forStreams condition f q.streamIds q = q' at hstreams hm hl ⊢
  generalize q'.view = v at hstreams hm hl ⊢
  obtain ⟨streams, nextMessageId, lifecycle⟩ := v
  simp only at hstreams hm hl
  rw [hstreams, hm, hl]
  rfl

theorem view_commitResetStreams (h : q.Keyed) : q.commitResetStreams.Keyed ∧
      q.commitResetStreams.view = q.view.changeStreams .kResetting MessageStream.reset :=
  Keyed.changeStreams (q := q.check (q.hasResettingStreams = true)) h (by decide) (fun _ => rfl)
    OutgoingStream.becomes_reset

theorem view_rollbackResetStreams (h : q.Keyed) :
    q.rollbackResetStreams.Keyed ∧ q.rollbackResetStreams.view =
      q.view.changeStreams .kResetting fun m => { m with pauseState := .kNotPaused } :=
  Keyed.changeStreams (q := q.check (q.hasResettingStreams = true)) h (by decide) (fun _ => rfl)
    becomes_resume

theorem view_getStreamsReadyToBeReset (h : q.Keyed) :
    q.getStreamsReadyToBeReset.2.Keyed ∧ q.getStreamsReadyToBeReset.2.view =
      q.view.changeStreams .kPaused fun m => { m with pauseState := .kResetting } :=
  Keyed.changeStreams (q := q.check (q.hasResettingStreams = false)) h (by decide) (fun _ => rfl)
    becomes_setAsResetting

theorem view_produceFrom (h : q.Keyed) (now : Timestamp) (maxSize : Nat) (id : StreamID) :
    (q.produceFrom now maxSize id).2.Keyed ∧
      match (q.produceFrom now maxSize id).1 with
      | none => SendQueueView.Expires now q.view (q.produceFrom now maxSize id).2.view
      | some chunk =>
        SendQueueView.Produces now maxSize id q.view chunk (q.produceFrom now maxSize id).2.view := by
  have hp := (produces_scheduledProduce now maxSize (q.ctx, q.getOrCreateStreamInfo id) q.view).2
  rw [h.put_self id, h.streamId id] at hp
  exact ⟨h.putStream _, by simpa only [produceFrom, view_putStream] using hp⟩

theorem scheduler_produceFrom (q : RRSendQueue τ) (now : Timestamp) (maxSize : Nat) (id : StreamID) :
    (q.produceFrom now maxSize id).2.ctx.scheduler = q.ctx.scheduler :=
  scheduler_scheduledProduce now maxSize (q.ctx, q.getOrCreateStreamInfo id)

theorem scheduler_produceFromCurrent (q : RRSendQueue τ) (now : Timestamp) (maxSize : Nat)
    (id : StreamID) : (q.produceFromCurrent now maxSize id).2.ctx.scheduler = q.ctx.scheduler := by
  simp only [produceFromCurrent]
  split_ifs
  · rfl
  · exact scheduler_produceFrom _ now maxSize id

theorem view_reschedule (h : q.Keyed) (first : τ ×ₗ StreamID) :
    (q.reschedule first).Keyed ∧ (q.reschedule first).view = q.view := by
  refine ⟨Keyed.updateStream (q := { q with ctx := q.ctx.takeStream first }) h _ _, ?_⟩
  refine (view_putStream _ _).trans (Eq.trans ?_ (h.put_self (ofLex first).2))
  rfl

theorem view_produceRescheduling (h : q.Keyed) (now : Timestamp) (maxSize rounds : Nat) :
    (q.produceRescheduling now maxSize rounds).2.Keyed ∧
      (q.produceRescheduling now maxSize rounds).2.ctx.scheduler.SameMode q.ctx.scheduler ∧
      match (q.produceRescheduling now maxSize rounds).1 with
      | none => SendQueueView.Expires now q.view (q.produceRescheduling now maxSize rounds).2.view
      | some chunk => ∃ id, (q.produceRescheduling now maxSize rounds).2.ctx.scheduler.currentStream =
          some id ∧ SendQueueView.Produces now maxSize id q.view chunk
            (q.produceRescheduling now maxSize rounds).2.view := by
  induction rounds generalizing q with
  | zero => exact ⟨h, ⟨rfl, rfl⟩, .refl _⟩
  | succ rounds ih =>
    simp only [produceRescheduling]
    cases hact : q.ctx.scheduler.activeStreams.toList with
    | nil => exact ⟨h, ⟨rfl, rfl⟩, .refl _⟩
    | cons first rest =>
      obtain ⟨hk, hv⟩ := view_reschedule h first
      have hp := view_produceFrom hk now maxSize (ofLex first).2
      have hs := scheduler_produceFrom (q.reschedule first) now maxSize (ofLex first).2
      rw [hv] at hp
      simp only
      generalize (q.reschedule first).produceFrom now maxSize (ofLex first).2 = r at hp hs ⊢
      obtain ⟨data, q₁⟩ := r
      have hmode : q₁.ctx.scheduler.SameMode q.ctx.scheduler := by
        rw [hs]
        exact ⟨rfl, rfl⟩
      cases data with
      | some chunk => exact ⟨hp.1, hmode, (ofLex first).2, by rw [hs]; rfl, hp.2⟩
      | none =>
        obtain ⟨hk₂, hmode₂, hv₂⟩ := ih hp.1
        simp only
        generalize produceRescheduling now maxSize rounds q₁ = r at hk₂ hmode₂ hv₂ ⊢
        obtain ⟨data, q₂⟩ := r
        refine ⟨hk₂, ⟨hmode₂.1.trans hmode.1, hmode₂.2.trans hmode.2⟩, ?_⟩
        cases data with
        | none => exact hp.2.trans hv₂
        | some chunk =>
          obtain ⟨id, hcur, v₁, m, hexp, hfrag, heq⟩ := hv₂
          exact ⟨id, hcur, v₁, m, hp.2.trans hexp, hfrag, heq⟩

theorem view_afterProduce (h : q.Keyed) (rescheduling : Bool) (id : StreamID)
    (data : SendQueue.DataToSend) : (q.afterProduce rescheduling id data).Keyed ∧
      (q.afterProduce rescheduling id data).view = q.view ∧
      (q.afterProduce rescheduling id data).ctx.scheduler.enableMessageInterleaving =
        q.ctx.scheduler.enableMessageInterleaving ∧
      (q.afterProduce rescheduling id data).ctx.scheduler.currentlySendingAMessage =
        !data.data.isEnd ∧ (q.afterProduce rescheduling id data).ctx.scheduler.currentStream =
        q.ctx.scheduler.currentStream := by
  simp only [afterProduce]
  split_ifs
  · refine ⟨h.putStream _, (view_putStream _ _).trans (Eq.trans ?_ (h.put_self id)), rfl, rfl, rfl⟩
    rfl
  · refine ⟨h.putStream _, (view_putStream _ _).trans (Eq.trans ?_ (h.put_self id)), rfl, rfl, rfl⟩
    rfl
  · exact ⟨h, rfl, rfl, rfl, rfl⟩

theorem view_produceFromCurrent (h : q.Keyed) (now : Timestamp) (maxSize : Nat) (id : StreamID) :
    (q.produceFromCurrent now maxSize id).2.Keyed ∧
      match (q.produceFromCurrent now maxSize id).1 with
      | none => SendQueueView.Expires now q.view (q.produceFromCurrent now maxSize id).2.view
      | some chunk => SendQueueView.Produces now maxSize id q.view chunk
          (q.produceFromCurrent now maxSize id).2.view := by
  simp only [produceFromCurrent]
  split_ifs
  · exact ⟨h, .refl _⟩
  · exact view_produceFrom
      (q := q.check (∃ p ∈ q.ctx.scheduler.activeStreams.toList, (ofLex p).2 = id)) h now maxSize id

def sending (q : RRSendQueue τ) : Option StreamID :=
  if q.ctx.scheduler.currentlySendingAMessage then q.ctx.scheduler.currentStream else none

theorem view_produce (h : q.Keyed) (now : Timestamp) (maxSize : Nat) :
    (q.produce now maxSize).2.Keyed ∧
      (q.produce now maxSize).2.ctx.scheduler.enableMessageInterleaving =
        q.ctx.scheduler.enableMessageInterleaving ∧
      match (q.produce now maxSize).1 with
      | none => SendQueueView.Expires now q.view (q.produce now maxSize).2.view ∧
        (q.ctx.scheduler.enableMessageInterleaving = false →
          (q.produce now maxSize).2.sending = q.sending)
      | some chunk => ∃ id,
        SendQueueView.Produces now maxSize id q.view chunk (q.produce now maxSize).2.view ∧
        (q.produce now maxSize).2.sending = (if chunk.data.isEnd then none else some id) ∧
        (q.ctx.scheduler.enableMessageInterleaving = false → ∀ j, q.sending = some j → id = j) := by
  simp only [produce]
  generalize hr : (q.ctx.scheduler.enableMessageInterleaving ||
    !q.ctx.scheduler.currentlySendingAMessage) = rescheduling
  generalize hq₁ : q.check (rescheduling = true ∨ q.ctx.scheduler.currentStream.isSome = true) = q₁
  have hk₁ : q₁.Keyed := hq₁ ▸ h
  have hv₁ : q₁.view = q.view := hq₁ ▸ rfl
  have hs₁ : q₁.ctx.scheduler = q.ctx.scheduler := hq₁ ▸ rfl
  have hidle : rescheduling = true → q.ctx.scheduler.enableMessageInterleaving = false →
      q.ctx.scheduler.currentlySendingAMessage = false := by
    rintro rfl hi
    simpa [hi] using hr
  generalize hout : ite (rescheduling = true) _ _ = out
  have hspec : out.2.Keyed ∧ out.2.ctx.scheduler.SameMode q.ctx.scheduler ∧
      (match out.1 with
      | none => SendQueueView.Expires now q.view out.2.view
      | some chunk => ∃ id, out.2.ctx.scheduler.currentStream = some id ∧
          SendQueueView.Produces now maxSize id q.view chunk out.2.view) ∧
      (rescheduling = false → out.2.ctx.scheduler.currentStream = q.ctx.scheduler.currentStream) := by
    subst hout
    rw [← hv₁, ← hs₁]
    cases rescheduling with
    | true =>
      obtain ⟨hk, hm, hv⟩ := view_produceRescheduling hk₁ now maxSize
        q₁.ctx.scheduler.activeStreams.toList.length
      exact ⟨hk, hm, hv, by simp⟩
    | false =>
      simp only [Bool.false_eq_true, if_false]
      cases hcur : q₁.ctx.scheduler.currentStream with
      | none => exact ⟨hk₁, ⟨rfl, rfl⟩, .refl _, fun _ => hcur⟩
      | some id =>
        obtain ⟨hk, hv⟩ := view_produceFromCurrent hk₁ now maxSize id
        have hs := scheduler_produceFromCurrent q₁ now maxSize id
        simp only
        generalize q₁.produceFromCurrent now maxSize id = r at hk hv hs ⊢
        obtain ⟨data, q₂⟩ := r
        refine ⟨hk, by rw [hs]; exact ⟨rfl, rfl⟩, ?_, fun _ => by rw [hs, hcur]⟩
        cases data with
        | none => exact hv
        | some chunk => exact ⟨id, by rw [hs, hcur], hv⟩
  obtain ⟨data, q'⟩ := out
  obtain ⟨hk, hm, hv, hcur⟩ := hspec
  cases data with
  | none =>
    have hsame : q'.ctx.scheduler.currentlySendingAMessage =
        q.ctx.scheduler.currentlySendingAMessage := hm.2
    refine ⟨hk, hm.1, hv, fun hi => ?_⟩
    rw [sending, sending, hsame]
    cases rescheduling with
    | true =>
      rw [hidle rfl hi]
      rfl
    | false => exact congrArg (ite _ · none) (hcur rfl)
  | some chunk =>
    obtain ⟨id, hc, hprod⟩ := hv
    replace hc : q'.ctx.scheduler.currentStream = some id := hc
    obtain ⟨hk', hv', hi', hsend, hcur'⟩ := view_afterProduce hk rescheduling id chunk
    simp only [hc]
    refine ⟨hk', hi'.trans hm.1, id, by rw [hv']; exact hprod, ?_, fun hi j hj => ?_⟩
    · rw [sending, hsend, hcur', hc]
      cases chunk.data.isEnd <;> rfl
    · have hbusy : q.ctx.scheduler.currentlySendingAMessage = true := by
        by_contra hn
        simp [sending, hn] at hj
      have hres : rescheduling = false := by
        rw [← hr, hi, hbusy]
        rfl
      rw [sending, hbusy, if_pos rfl, ← hcur hres] at hj
      exact Option.some.inj (hc.symm.trans hj)

end RRSendQueue

end WebRtc.DcSctp
