import WebRtc.DcSctp.SendQueueRuns
import WebRtc.DcSctp.SendQueueView

/-! Without message interleaving, the chunks of the send queue come in blocks, one for each
message. The message of the open block is the front one of the stream that the scheduler stays
with. -/

namespace WebRtc.DcSctp

open MessageStream

open List Function

inductive Outcome where
  | sending
  | complete
  | discarded
  deriving DecidableEq

inductive Output where
  | chunk (chunk : SendQueue.DataToSend)
  | discarded (streamId : StreamID) (messageId : OutgoingMessageId)

structure Block where
  messageId : OutgoingMessageId
  message : DcSctpMessage
  ssn : SSN
  mid : MID
  isUnordered : Bool
  chunks : List SendQueue.DataToSend
  outcome : Outcome

variable {maxSize : Nat}

variable {chunk : SendQueue.DataToSend}

namespace Block

def payload (b : Block) : List UInt8 := b.chunks.flatMap fun c => c.data.payload

def outputs (b : Block) : List Output :=
  b.chunks.map .chunk ++
    if b.outcome = .discarded then [.discarded b.message.streamId b.messageId] else []

structure Carries (b : Block) (i : Nat) (chunk : SendQueue.DataToSend) : Prop where
  messageId : chunk.messageId = b.messageId
  streamId : chunk.data.streamId = b.message.streamId
  ssn : chunk.data.ssn = b.ssn
  mid : chunk.data.mid = b.mid
  fsn : chunk.data.fsn = BitVec.ofNat 32 i
  ppid : chunk.data.ppid = b.message.ppid
  isUnordered : chunk.data.isUnordered = b.isUnordered
  isBeginning : chunk.data.isBeginning ↔ i = 0
  isEnd : chunk.data.isEnd ↔ b.outcome = .complete ∧ i + 1 = b.chunks.length

structure Valid (added : List (OutgoingMessageId × DcSctpMessage)) (b : Block) : Prop where
  added : (b.messageId, b.message) ∈ added
  chunks_ne : b.chunks ≠ []
  carries : ∀ i chunk, b.chunks[i]? = some chunk → b.Carries i chunk
  isPrefix : b.payload <+: b.message.payload
  complete : b.outcome = .complete → b.payload = b.message.payload

/-- The rest of the message of this open block is `item`, which has its MID and SSN. -/
structure Continues (added : List (OutgoingMessageId × DcSctpMessage)) (b : Block)
    (item : QueuedMessage) : Prop where
  outcome : b.outcome = .sending
  added : (b.messageId, b.message) ∈ added
  carries : ∀ i chunk, b.chunks[i]? = some chunk → b.Carries i chunk
  messageId : item.messageId = b.messageId
  message : item.message = b.message
  isUnordered : item.attributes.unordered = b.isUnordered
  mid : item.mid = some b.mid
  ssn : item.ssn.getD 0 = b.ssn
  allocated : item.attributes.unordered ∨ item.ssn.isSome
  fsn : item.currentFsn = BitVec.ofNat 32 b.chunks.length
  payload : b.payload = item.message.payload.take item.remainingOffset
  started : item.remainingOffset = 0 ↔ b.chunks = []

variable {added added' : List (OutgoingMessageId × DcSctpMessage)} {b : Block} {item : QueuedMessage}

theorem Carries.congr {b' : Block} {i : Nat} (h : b.Carries i chunk)
    (hid : b'.messageId = b.messageId) (hm : b'.message = b.message) (hs : b'.ssn = b.ssn)
    (hmid : b'.mid = b.mid) (hu : b'.isUnordered = b.isUnordered)
    (he : (b.outcome = .complete ∧ i + 1 = b.chunks.length) ↔
      (b'.outcome = .complete ∧ i + 1 = b'.chunks.length)) : b'.Carries i chunk where
  messageId := h.messageId.trans hid.symm
  streamId := by rw [h.streamId, hm]
  ssn := h.ssn.trans hs.symm
  mid := h.mid.trans hmid.symm
  fsn := h.fsn
  ppid := by rw [h.ppid, hm]
  isUnordered := h.isUnordered.trans hu.symm
  isBeginning := h.isBeginning
  isEnd := h.isEnd.trans he

theorem Continues.mono (h : b.Continues added item) (hsub : added ⊆ added') :
    b.Continues added' item :=
  { h with added := hsub h.added }

theorem Valid.mono (h : b.Valid added) (hsub : added ⊆ added') : b.Valid added' :=
  { h with added := hsub h.added }

theorem Continues.valid (h : b.Continues added item) (hne : b.chunks ≠ []) : b.Valid added where
  added := h.added
  chunks_ne := hne
  carries := h.carries
  isPrefix := by
    rw [h.payload, h.message]
    exact take_prefix _ _
  complete hc := by
    rw [h.outcome] at hc
    cases hc

theorem Continues.discard (h : b.Continues added item) (hne : b.chunks ≠ []) :
    ({ b with outcome := .discarded } : Block).Valid added where
  added := h.added
  chunks_ne := hne
  carries i chunk hi := by
    refine (h.carries i chunk hi).congr rfl rfl rfl rfl rfl ?_
    simp [h.outcome]
  isPrefix := (h.valid hne).isPrefix
  complete := nofun

def start (item : QueuedMessage) : Block :=
  ⟨item.messageId, item.message, item.ssn.getD 0, item.mid.getD 0, item.attributes.unordered, [],
    .sending⟩

theorem continues_start (hadded : (item.messageId, item.message) ∈ added)
    (hmid : item.mid.isSome) (hssn : item.attributes.unordered ∨ item.ssn.isSome)
    (hfsn : item.currentFsn = 0) (hoff : item.remainingOffset = 0) :
    (start item).Continues added item where
  outcome := rfl
  added := hadded
  carries i chunk hi := by cases hi
  messageId := rfl
  message := rfl
  isUnordered := rfl
  mid := by
    obtain ⟨mid, hmid⟩ := Option.isSome_iff_exists.mp hmid
    simp [start, hmid]
  ssn := rfl
  allocated := hssn
  fsn := hfsn
  payload := by
    rw [hoff, take_zero]
    rfl
  started := by simp [hoff, start]

def push (b : Block) (chunk : SendQueue.DataToSend) : Block :=
  { b with
    chunks := b.chunks ++ [chunk]
    outcome := if chunk.data.isEnd then .complete else .sending }

theorem payload_push (b : Block) (chunk : SendQueue.DataToSend) :
    (b.push chunk).payload = b.payload ++ chunk.data.payload := by
  simp [payload, push]

theorem outputs_push (b : Block) (hb : b.outcome = .sending) (chunk : SendQueue.DataToSend) :
    (b.push chunk).outputs = b.outputs ++ [.chunk chunk] := by
  have hne : (b.push chunk).outcome ≠ .discarded := by
    simp only [push]
    split_ifs <;> decide
  rw [outputs, if_neg hne, append_nil, outputs, hb]
  simp [push]

theorem nextFragment_payload_ne (hleft : item.remainingOffset < item.message.payload.length)
    (hmax : 0 < maxSize) : (OutgoingStream.nextFragment item maxSize).data.payload ≠ [] := by
  intro hnil
  have hlen := congrArg List.length hnil
  simp only [OutgoingStream.nextFragment, length_take, length_drop, length_nil] at hlen
  omega

section

variable (h : b.Continues added item)
include h

theorem Continues.carries_push (hleft : item.remainingOffset < item.message.payload.length)
    (hmax : 0 < maxSize) (i : Nat) (chunk : SendQueue.DataToSend)
    (hi : (b.push (OutgoingStream.nextFragment item maxSize)).chunks[i]? = some chunk) :
    (b.push (OutgoingStream.nextFragment item maxSize)).Carries i chunk := by
  by_cases hlt : i < b.chunks.length
  · rw [push, List.getElem?_append_left hlt] at hi
    refine (h.carries i chunk hi).congr rfl rfl rfl rfl rfl ?_
    have hend : ¬ i + 1 = (b.push (OutgoingStream.nextFragment item maxSize)).chunks.length := by
      rw [push, length_append, length_singleton]
      omega
    simp [h.outcome, hend]
  · have hlen := (List.getElem?_eq_some_iff.mp hi).1
    rw [push, length_append, length_singleton] at hlen
    obtain rfl : i = b.chunks.length := by omega
    rw [push, List.getElem?_concat_length, Option.some.injEq] at hi
    subst hi
    have hpayload := nextFragment_payload_ne hleft hmax
    have hmessage : item.message.payload ≠ [] := by
      intro hnil
      rw [hnil] at hleft
      exact absurd hleft (Nat.not_lt_zero _)
    refine ⟨h.messageId, ?_, h.ssn, ?_, h.fsn, ?_, h.isUnordered, ?_, ?_⟩
    · exact congrArg DcSctpMessage.streamId h.message
    · show item.mid.getD 0 = b.mid
      rw [h.mid, Option.getD_some]
    · exact congrArg DcSctpMessage.ppid h.message
    · have hempty : (OutgoingStream.nextFragment item maxSize).data.payload.isEmpty =
          item.message.payload.isEmpty := by
        rw [isEmpty_eq_false_iff.mpr hpayload, isEmpty_eq_false_iff.mpr hmessage]
      have hb : (OutgoingStream.nextFragment item maxSize).data.isBeginning =
          (decide (item.remainingOffset = 0) &&
            decide ((OutgoingStream.nextFragment item maxSize).data.payload.isEmpty =
              item.message.payload.isEmpty)) := rfl
      rw [hb, hempty, length_eq_zero_iff, ← h.started]
      simp
    · simp only [push, length_append, length_singleton, and_true]
      split_ifs with he <;> simp [he]

theorem Continues.payload_push (maxSize : Nat) :
    (b.push (OutgoingStream.nextFragment item maxSize)).payload =
      item.message.payload.take (item.remainingOffset +
        (OutgoingStream.nextFragment item maxSize).data.size) := by
  have htake : (OutgoingStream.nextFragment item maxSize).data.payload =
      (item.message.payload.drop item.remainingOffset).take
        (OutgoingStream.nextFragment item maxSize).data.size :=
    prefix_iff_eq_take.mp (List.take_prefix _ _)
  rw [Block.payload_push, h.payload, take_add, ← htake]

theorem Continues.push_complete
    (hleft : item.remainingOffset < item.message.payload.length) (hmax : 0 < maxSize)
    (he : (OutgoingStream.nextFragment item maxSize).data.isEnd = true) :
    (b.push (OutgoingStream.nextFragment item maxSize)).Valid added := by
  have hwhole : (b.push (OutgoingStream.nextFragment item maxSize)).payload =
      (b.push (OutgoingStream.nextFragment item maxSize)).message.payload := by
    have hend : item.remainingOffset + (OutgoingStream.nextFragment item maxSize).data.size =
        item.message.payload.length := of_decide_eq_true he
    rw [h.payload_push, hend, take_length, h.message]
    rfl
  refine ⟨h.added, ?_, h.carries_push hleft hmax, ?_, fun _ => hwhole⟩
  · exact append_ne_nil_of_right_ne_nil _ (cons_ne_nil _ _)
  · rw [hwhole]

theorem Continues.push_open
    (hleft : item.remainingOffset < item.message.payload.length) (hmax : 0 < maxSize)
    (he : (OutgoingStream.nextFragment item maxSize).data.isEnd = false) :
    (b.push (OutgoingStream.nextFragment item maxSize)).Continues added
      (advance item (OutgoingStream.nextFragment item maxSize).data.size) where
  outcome := by simp [push, he]
  added := h.added
  carries := h.carries_push hleft hmax
  messageId := h.messageId
  message := h.message
  isUnordered := h.isUnordered
  mid := h.mid
  ssn := h.ssn
  allocated := h.allocated
  fsn := by
    simp only [advance, push, h.fsn, length_append, length_singleton]
    exact (BitVec.ofNat_add _ _).symm
  payload := h.payload_push maxSize
  started := by
    have hpos := length_pos_iff.mpr (nextFragment_payload_ne hleft hmax)
    simp only [advance, push, append_eq_nil_iff, cons_ne_nil, and_false, iff_false, Data.size]
    omega

end

end Block

variable {τ : Type} [VirtualTime τ]

def StreamScheduler.SameTurn (s s' : StreamScheduler τ) : Prop :=
  s.SameMode s' ∧ s.currentStream = s'.currentStream

theorem StreamScheduler.SameTurn.trans {s s' s'' : StreamScheduler τ} (h : s.SameTurn s')
    (h' : s'.SameTurn s'') : s.SameTurn s'' :=
  ⟨⟨h.1.1.trans h'.1.1, h.1.2.trans h'.1.2⟩, h.2.trans h'.2⟩

namespace OutgoingStream

theorem sameTurn_of_eq {s s' : StreamScheduler τ} (h : s = s') : s.SameTurn s' :=
  h ▸ ⟨⟨rfl, rfl⟩, rfl⟩

variable (c : SendQueueContext τ × OutgoingStream τ)

theorem sameTurn_maybeMakeActive : (maybeMakeActive c).1.scheduler.SameTurn c.1.scheduler := by
  simp only [maybeMakeActive]
  split_ifs <;> exact ⟨⟨rfl, rfl⟩, rfl⟩

theorem sameTurn_add (message : DcSctpMessage) (attributes : MessageAttributes)
    (c : SendQueueContext τ × OutgoingStream τ) :
    (add message attributes c).1.scheduler.SameTurn c.1.scheduler := by
  simp only [add]
  split_ifs
  · exact ⟨⟨rfl, rfl⟩, rfl⟩
  · exact sameTurn_maybeMakeActive _

theorem sameTurn_resume : (resume c).1.scheduler.SameTurn c.1.scheduler :=
  sameTurn_maybeMakeActive
    (c.1.check (c.2.pauseState = .kResetting), { c.2 with pauseState := .kNotPaused })

theorem sameTurn_setAsResetting :
    (setAsResetting c).1.scheduler.SameTurn c.1.scheduler := ⟨⟨rfl, rfl⟩, rfl⟩

theorem sameTurn_reset : (reset c).1.scheduler.SameTurn c.1.scheduler := by
  obtain ⟨ctx, s⟩ := c
  simp only [reset]
  split
  · exact ⟨⟨rfl, rfl⟩, rfl⟩
  · split_ifs
    · exact sameTurn_maybeMakeActive _
    · exact ⟨⟨rfl, rfl⟩, rfl⟩

theorem scheduler_dropUnsent (items : List QueuedMessage)
    (c : SendQueueContext τ × OutgoingStream τ) :
    (dropUnsent items c).2.1.scheduler = c.1.scheduler := by
  induction items generalizing c with
  | nil => rfl
  | cons item rest ih =>
    simp only [dropUnsent]
    split_ifs
    · exact (ih _).trans (scheduler_handleMessageExpired item c)
    · exact ih c

theorem sameTurn_pause : (pause c).1.scheduler.SameTurn c.1.scheduler := by
  simp only [pause]
  have hd := scheduler_dropUnsent c.2.items c
  generalize dropUnsent c.2.items c = r at hd ⊢
  obtain ⟨items, ctx, s⟩ := r
  simp only at hd ⊢
  by_cases hp : c.2.pauseState = .kNotPaused
  · rw [if_neg (not_not.mpr hp)]
    refine StreamScheduler.SameTurn.trans ?_ (sameTurn_of_eq hd)
    generalize (!c.2.items.isEmpty &&
      decide ((if (items.head?.all fun front => decide (front.remainingOffset = 0)) = true
        then PauseState.kPaused else PauseState.kPending) = PauseState.kPaused)) = inactive
    cases inactive <;> exact ⟨⟨rfl, rfl⟩, rfl⟩
  · rw [if_pos hp]
    exact ⟨⟨rfl, rfl⟩, rfl⟩

theorem turn_discard (messageId : OutgoingMessageId) (c : SendQueueContext τ × OutgoingStream τ) :
    match c.2.view.discard messageId with
    | none => (discard messageId c).2.1.scheduler.SameTurn c.1.scheduler
    | some _ => (discard messageId c).2.1.scheduler.enableMessageInterleaving =
        c.1.scheduler.enableMessageInterleaving ∧
      (discard messageId c).2.1.scheduler.currentlySendingAMessage = false := by
  simp only [discard, MessageStream.discard, view]
  cases c.2.items with
  | nil => exact ⟨⟨rfl, rfl⟩, rfl⟩
  | cons item rest =>
    by_cases hid : item.messageId = messageId
    · have hd := scheduler_handleMessageExpired item c
      simp only [hid, if_true]
      generalize handleMessageExpired item c = c₁ at hd ⊢
      rw [← hd]
      split_ifs <;> exact ⟨rfl, rfl⟩
    · simp only [hid, if_false]
      exact ⟨⟨rfl, rfl⟩, rfl⟩

end OutgoingStream

open OutgoingStream

namespace RRSendQueue

variable {q q' : RRSendQueue τ}

theorem sending_eq_of_sameTurn (h : q'.ctx.scheduler.SameTurn q.ctx.scheduler) :
    q'.sending = q.sending := by
  simp only [sending, h.1.2, h.2]

theorem sameTurn_forStreams {condition : OutgoingStream τ → Bool}
    {f : SendQueueContext τ × OutgoingStream τ → SendQueueContext τ × OutgoingStream τ}
    (hf : ∀ c, (f c).1.scheduler.SameTurn c.1.scheduler) (ids : List StreamID) (q : RRSendQueue τ) :
    (forStreams condition f ids q).ctx.scheduler.SameTurn q.ctx.scheduler := by
  induction ids generalizing q with
  | nil => exact ⟨⟨rfl, rfl⟩, rfl⟩
  | cons id rest ih =>
    simp only [forStreams]
    refine (ih _).trans ?_
    split_ifs
    · exact hf (q.ctx, q.getOrCreateStreamInfo id)
    · exact ⟨⟨rfl, rfl⟩, rfl⟩

end RRSendQueue

variable {rest : List QueuedMessage} {id : StreamID}

variable {item : QueuedMessage}

namespace SendQueueView

variable {v v' : SendQueueView} {now : Timestamp}

theorem Expires.suffix (h : Expires now v v') (id : StreamID) :
    (v'.streams id).items <:+ (v.streams id).items := by
  induction h with
  | refl v => exact suffix_rfl
  | @drop v v' j item rest hi hm he h ih =>
    refine ih.trans ?_
    by_cases hj : id = j
    · subst hj
      simp only [append, setStream, update_self, hi]
      exact suffix_cons item rest
    · simp only [append, setStream, update_of_ne hj]
      exact suffix_rfl

theorem Expires.front (h : Expires now v v') (hi : (v.streams id).items = item :: rest)
    (hm : item.mid.isSome) : (v'.streams id).items = item :: rest := by
  induction h with
  | refl v => exact hi
  | @drop v v' j item' rest' hi' hm' he h ih =>
    refine ih ?_
    by_cases hj : id = j
    · subst hj
      cases hi.symm.trans hi'
      rw [hm'] at hm
      cases hm
    · simpa only [append, setStream, update_of_ne hj] using hi

end SendQueueView

open SendQueueView

theorem MessageStream.allocate_of_allocated {m : MessageStream}
    (hm : item.mid.isSome) (hs : item.attributes.unordered ∨ item.ssn.isSome) :
    m.allocate item = (item, m) := by
  have hor : (item.attributes.unordered || item.ssn.isSome) = true := by
    rcases hs with hs | hs <;> simp [hs]
  simp [allocate, hm, hor]

theorem MessageStream.allocated_allocate (m : MessageStream) (item : QueuedMessage) :
    (m.allocate item).1.mid.isSome ∧
      ((m.allocate item).1.attributes.unordered ∨ (m.allocate item).1.ssn.isSome) ∧
      (m.allocate item).1.messageId = item.messageId ∧ (m.allocate item).1.message = item.message ∧
      (m.allocate item).1.remainingOffset = item.remainingOffset ∧
      (m.allocate item).1.currentFsn = item.currentFsn := by
  simp only [allocate]
  split_ifs <;> simp_all

structure Transcript (τ : Type) [VirtualTime τ] where
  queue : RRSendQueue τ
  added : List (OutgoingMessageId × DcSctpMessage)
  outputs : List Output

namespace Transcript

def newMessages (q : RRSendQueue τ) : RRSendQueue.Op → List (OutgoingMessageId × DcSctpMessage)
  | .add _ message _ => [(q.ctx.currentMessageId, message)]
  | _ => []

def newOutputs (q : RRSendQueue τ) : RRSendQueue.Op → List Output
  | .produce now maxSize => ((q.produce now maxSize).1.map Output.chunk).toList
  | .discard streamId messageId =>
    if (q.discard streamId messageId).1 then [.discarded streamId messageId] else []
  | _ => []

def enabled (t : Transcript τ) : RRSendQueue.Op → Prop
  | .produce .. => True
  | .discard streamId messageId => ∀ front ∈ (t.queue.getOrCreateStreamInfo streamId).items.head?,
    front.messageId = messageId → front.remainingOffset ≠ 0
  | .reset | .setMessageInterleaving _ => False
  | op => t.queue.Precondition op

def step (t : Transcript τ) (op : RRSendQueue.Op) : Transcript τ :=
  ⟨t.queue.exec op, newMessages t.queue op ++ t.added, t.outputs ++ newOutputs t.queue op⟩

def machine : Machine (Transcript τ) RRSendQueue.Op where
  initial t := ∃ bufferSize mtu defaultPriority threshold,
    t = ⟨.new bufferSize mtu defaultPriority threshold, [], []⟩
  enabled := enabled
  step t op := some (t.step op)

def PositiveSizes (_ : Transcript τ) : RRSendQueue.Op → Prop
  | .produce _ maxSize => 0 < maxSize
  | _ => True

structure Accounts (added : List (OutgoingMessageId × DcSctpMessage)) (sending : Option StreamID)
    (current : Option Block) (id : StreamID) (item : QueuedMessage) : Prop where
  known : (item.messageId, item.message) ∈ added
  fresh : item.remainingOffset = 0 → item.ssn = none ∧ item.currentFsn = 0
  started : item.remainingOffset ≠ 0 → sending = some id ∧ ∃ b, current = some b ∧
    b.Continues added item

theorem Accounts.mono {added added' : List (OutgoingMessageId × DcSctpMessage)}
    {sending : Option StreamID} {current : Option Block}
    (h : Accounts added sending current id item) (hsub : added ⊆ added') :
    Accounts added' sending current id item where
  known := hsub h.known
  fresh := h.fresh
  started hs := by
    obtain ⟨hsend, b, hb, hc⟩ := h.started hs
    exact ⟨hsend, b, hb, hc.mono hsub⟩

/-- The outputs are the blocks in `closed` and the chunks of the message that is being sent. -/
structure Traced (t : Transcript τ) (closed : List Block) (current : Option Block) : Prop where
  ready : t.queue.Ready
  uninterleaved : t.queue.ctx.scheduler.enableMessageInterleaving = false
  outputs : t.outputs = closed.flatMap Block.outputs ++ current.elim [] Block.outputs
  valid : ∀ b ∈ closed, b.Valid t.added ∧ b.outcome ≠ .sending
  items : ∀ id, ∀ item ∈ (t.queue.view.streams id).items,
    Accounts t.added t.queue.sending current id item
  idle : t.queue.sending = none → current = none

variable {t : Transcript τ} {closed : List Block} {current : Option Block}

theorem Traced.wf (h : Traced t closed current)
    (hi : item ∈ (t.queue.view.streams id).items) : item.Wf id := by
  have hg := h.ready.1.good id
  have hw := hg.wf.items item hi
  rwa [show (t.queue.getOrCreateStreamInfo id).streamId = id from hg.id_eq] at hw

variable {op : RRSendQueue.Op}

section

variable (h : Traced t closed current)
include h

theorem Traced.quiet (hr : (t.queue.exec op).Ready)
    (hturn : (t.queue.exec op).ctx.scheduler.SameTurn t.queue.ctx.scheduler)
    (ho : newOutputs t.queue op = [])
    (hi : ∀ id, ∀ item ∈ ((t.queue.exec op).view.streams id).items,
      Accounts (newMessages t.queue op ++ t.added) t.queue.sending current id item) :
    Traced (t.step op) closed current := by
  have hsend := RRSendQueue.sending_eq_of_sameTurn hturn
  refine ⟨hr, hturn.1.1.trans h.uninterleaved, ?_, fun b hb => ?_, fun id item hm => ?_, fun hn => ?_⟩
  · rw [step, ho, append_nil, h.outputs]
  · obtain ⟨hv, hne⟩ := h.valid b hb
    exact ⟨hv.mono (subset_append_right _ _), hne⟩
  · rw [step, hsend]
    exact hi id item hm
  · exact h.idle (hsend ▸ hn)

theorem Traced.add (now : Timestamp) (message : DcSctpMessage)
    (options : SendOptions) (hm : message.payload ≠ []) :
    Traced (t.step (.add now message options)) closed current := by
  refine h.quiet (h.ready.add now options hm) (sameTurn_add _ _ _) rfl
    fun id item hi => ?_
  have hk : t.queue.Keyed := h.ready.1.streamId
  rw [RRSendQueue.exec, RRSendQueue.view_add hk] at hi
  have hold : ∀ item' ∈ (t.queue.view.streams id).items, Accounts
      (newMessages t.queue (.add now message options) ++ t.added) t.queue.sending current id item' :=
    fun item' hi' => (h.items id item' hi').mono (subset_append_right _ _)
  by_cases hid : id = message.streamId
  · subst hid
    simp only [enqueue, setStream, update_self, mem_append, mem_singleton] at hi
    rcases hi with hi | rfl
    · exact hold item hi
    · exact ⟨mem_cons_self, fun _ => ⟨rfl, rfl⟩, fun hs => absurd rfl hs⟩
  · simp only [enqueue, setStream, update_of_ne hid] at hi
    exact hold item hi

theorem Traced.prepareResetStream (streamId : StreamID) :
    Traced (t.step (.prepareResetStream streamId)) closed current := by
  refine h.quiet (h.ready.prepareResetStream streamId) (sameTurn_pause _) rfl
    fun id item hi => h.items id item ?_
  have hk : t.queue.Keyed := h.ready.1.streamId
  rw [RRSendQueue.exec, RRSendQueue.view_prepareResetStream hk] at hi
  by_cases hid : id = streamId
  · subst hid
    simp only [SendQueueView.append, setStream, update_self, MessageStream.pause] at hi
    split_ifs at hi
    · exact hi
    · exact mem_of_mem_filter hi
    · exact mem_of_mem_filter hi
  · simpa only [SendQueueView.append, setStream, update_of_ne hid] using hi

theorem Traced.changeStreams {pauseState : PauseState} {g : MessageStream → MessageStream}
    (hr : (t.queue.exec op).Ready)
    (hturn : (t.queue.exec op).ctx.scheduler.SameTurn t.queue.ctx.scheduler)
    (ho : newOutputs t.queue op = [])
    (hv : (t.queue.exec op).view = t.queue.view.changeStreams pauseState g)
    (hg : ∀ m : MessageStream, ∀ item' ∈ (g m).items, item' ∈ m.items ∨
      ∃ item ∈ m.items, item' = unsend item) : Traced (t.step op) closed current := by
  refine h.quiet hr hturn ho fun id item' hi => ?_
  have hold : ∀ item ∈ (t.queue.view.streams id).items,
      Accounts (newMessages t.queue op ++ t.added) t.queue.sending current id item :=
    fun item hi => (h.items id item hi).mono (subset_append_right _ _)
  rw [hv, SendQueueView.changeStreams] at hi
  simp only at hi
  split_ifs at hi
  · rcases hg _ item' hi with hm | ⟨item, hm, rfl⟩
    · exact hold item' hm
    · exact ⟨(hold item hm).known, fun _ => ⟨rfl, rfl⟩, fun hs => absurd rfl hs⟩
  · exact hold item' hi

end

variable {now : Timestamp}

section

variable (h : Traced t closed current)
include h

theorem Traced.produceNone (hmax : 0 < maxSize) (hn : (t.queue.produce now maxSize).1 = none) :
    Traced (t.step (.produce now maxSize)) closed current := by
  have hk : t.queue.Keyed := h.ready.1.streamId
  obtain ⟨-, hinter, hexp⟩ := RRSendQueue.view_produce hk now maxSize
  rw [hn] at hexp
  obtain ⟨hexp, hsend⟩ := hexp
  have hsend := hsend h.uninterleaved
  refine ⟨h.ready.produce now hmax, hinter.trans h.uninterleaved, ?_, h.valid,
    fun id item hi => ?_, fun hs => h.idle (hsend ▸ hs)⟩
  · simp only [step, newOutputs, hn, Option.map_none, Option.toList_none, append_nil, h.outputs]
  · rw [step, RRSendQueue.exec, hsend]
    exact h.items id item ((hexp.suffix id).subset hi)

theorem Traced.sendingFront (hs : t.queue.sending = some id) :
    ∃ item rest, (t.queue.view.streams id).items = item :: rest ∧ item.mid.isSome := by
  have hflag : t.queue.ctx.scheduler.currentlySendingAMessage = true := by
    by_contra hn
    simp [RRSendQueue.sending, hn] at hs
  rw [RRSendQueue.sending, hflag, if_pos rfl] at hs
  obtain ⟨j, s, hj, hf, hp⟩ := h.ready.2 hflag
  cases hj.symm.trans hs
  have hitems : (t.queue.view.streams id).items = s.items := by
    simp only [RRSendQueue.view, RRSendQueue.getOrCreateStreamInfo_of_find? hf]
    rfl
  cases hi : s.items with
  | nil => simp [hasPartiallySentMessage, hi] at hp
  | cons item rest =>
    simp only [hasPartiallySentMessage, hi] at hp
    exact ⟨item, rest, hitems.trans hi, hp⟩

theorem Traced.block {v : SendQueueView} (hexp : SendQueueView.Expires now t.queue.view v)
    (hid : ∀ j, t.queue.sending = some j → id = j) (hi : (v.streams id).items = item :: rest) :
    ∃ b : Block, b.Continues t.added ((v.streams id).allocate item).1 ∧
      current.elim [] Block.outputs = b.outputs := by
  have hmem : item ∈ (t.queue.view.streams id).items := by
    refine (hexp.suffix id).subset ?_
    rw [hi]
    exact mem_cons_self
  have hacc := h.items id item hmem
  by_cases hoff : item.remainingOffset = 0
  · have hidle : t.queue.sending = none := by
      cases hsend : t.queue.sending with
      | none => rfl
      | some j =>
        obtain rfl := hid j hsend
        obtain ⟨front, rest', hf, hmid⟩ := h.sendingFront hsend
        cases hi.symm.trans (hexp.front hf hmid)
        have hpos := (h.wf hmem).mid.mp hmid
        omega
    obtain ⟨hmid, hssn, hmsgid, hmsg, hoff', hfsn⟩ :=
      allocated_allocate (v.streams id) item
    refine ⟨.start ((v.streams id).allocate item).1, Block.continues_start ?_ hmid hssn ?_ ?_, ?_⟩
    · rw [hmsgid, hmsg]
      exact hacc.known
    · rw [hfsn, (hacc.fresh hoff).2]
    · rw [hoff', hoff]
    · rw [h.idle hidle]
      rfl
  · obtain ⟨-, b, rfl, hc⟩ := hacc.started hoff
    rw [allocate_of_allocated (by simp [hc.mid]) hc.allocated]
    exact ⟨b, hc, rfl⟩

theorem Traced.unsent {v : SendQueueView} (hexp : SendQueueView.Expires now t.queue.view v)
    (hid : ∀ j, t.queue.sending = some j → id = j) (hi : (v.streams id).items = item :: rest)
    {j : StreamID}
    {other : QueuedMessage} (hj : other ∈ (v.streams j).items) (hne : j = id → other ∈ rest) :
    other.remainingOffset = 0 ∧ (other.messageId, other.message) ∈ t.added ∧ other.ssn = none ∧
      other.currentFsn = 0 := by
  have hacc := h.items j other ((hexp.suffix j).subset hj)
  have hoff : other.remainingOffset = 0 := by
    by_contra hoff
    obtain ⟨hsend, -⟩ := hacc.started hoff
    obtain rfl := hid j hsend
    obtain ⟨before, hb⟩ := hexp.suffix id
    have htail : other ∈ (t.queue.view.streams id).items.tail := by
      rw [← hb, hi]
      cases before with
      | nil => exact hne rfl
      | cons first before => exact mem_append_right _ (mem_cons_of_mem _ (hne rfl))
    exact hoff ((h.ready.1.good id).wf.later other htail)
  exact ⟨hoff, hacc.known, hacc.fresh hoff⟩

theorem Traced.produceSome (hmax : 0 < maxSize)
    (hn : (t.queue.produce now maxSize).1 = some chunk) :
    ∃ closed' current', Traced (t.step (.produce now maxSize)) closed' current' := by
  have hk : t.queue.Keyed := h.ready.1.streamId
  have hready := h.ready.produce now hmax
  obtain ⟨-, hinter, hprod⟩ := RRSendQueue.view_produce hk now maxSize
  rw [hn] at hprod
  obtain ⟨id, ⟨v, m, hexp, hfrag, hview⟩, hsend, hid⟩ := hprod
  replace hid := hid h.uninterleaved
  cases hi : (v.streams id).items with
  | nil => simp [fragment, hi] at hfrag
  | cons item rest =>
    obtain ⟨b, hc, hout⟩ := h.block hexp hid hi
    have hmem : item ∈ (t.queue.view.streams id).items := by
      refine (hexp.suffix id).subset ?_
      rw [hi]
      exact mem_cons_self
    obtain ⟨-, -, -, hmsg, hoff, -⟩ := allocated_allocate (v.streams id) item
    have hleft : ((v.streams id).allocate item).1.remainingOffset <
        ((v.streams id).allocate item).1.message.payload.length := by
      have hw := h.wf hmem
      have hsize := hw.size
      have hpos := hw.remaining
      rw [hmsg, hoff]
      omega
    simp only [fragment, hi, Option.some.injEq, Prod.mk.injEq] at hfrag
    obtain ⟨hchunk, hm⟩ := hfrag
    generalize ((v.streams id).allocate item).1 = a at hc hleft hchunk hm
    have houtputs : t.outputs ++ [.chunk chunk] =
        closed.flatMap Block.outputs ++ (b.push chunk).outputs := by
      rw [h.outputs, hout, b.outputs_push hc.outcome, append_assoc]
    have hothers : ∀ j, ∀ other ∈ ((t.step (.produce now maxSize)).queue.view.streams j).items,
        (j = id ∧ chunk.data.isEnd = false ∧ other = advance a chunk.data.size) ∨
        other.remainingOffset = 0 ∧ (other.messageId, other.message) ∈ t.added ∧ other.ssn = none ∧
          other.currentFsn = 0 := by
      intro j other hj
      rw [step, RRSendQueue.exec, hview] at hj
      by_cases hji : j = id
      · subst hji
        have hrest : other ∈ rest → _ := fun hr =>
          h.unsent hexp hid hi (by rw [hi]; exact mem_cons_of_mem _ hr) fun _ => hr
        simp only [setStream, update_self, ← hm] at hj
        rw [hchunk] at hj
        cases hend : chunk.data.isEnd with
        | true =>
          simp only [hend, if_true] at hj
          exact .inr (hrest hj)
        | false =>
          simp only [hend, Bool.false_eq_true, if_false, mem_cons] at hj
          rcases hj with rfl | hj
          · exact .inl ⟨rfl, rfl, rfl⟩
          · exact .inr (hrest hj)
      · simp only [setStream, update_of_ne hji] at hj
        exact .inr (h.unsent hexp hid hi hj fun he => absurd he hji)
    have hstep : (t.step (.produce now maxSize)).outputs = t.outputs ++ [.chunk chunk] := by
      simp [step, newOutputs, hn]
    subst hchunk
    cases hend : (nextFragment a maxSize).data.isEnd with
    | true =>
      refine ⟨closed ++ [b.push (nextFragment a maxSize)], none, hready,
        hinter.trans h.uninterleaved, ?_, ?_, ?_, fun _ => rfl⟩
      · rw [hstep, houtputs]
        simp
      · intro b' hb'
        rcases mem_append.mp hb' with hb' | hb'
        · exact h.valid b' hb'
        · cases mem_singleton.mp hb'
          exact ⟨hc.push_complete hleft hmax hend, by simp [Block.push, hend]⟩
      · intro j other hj
        rcases hothers j other hj with ⟨-, hne, -⟩ | ⟨hoff, hknown, hfresh⟩
        · rw [hend] at hne
          cases hne
        · exact ⟨hknown, fun _ => hfresh, fun hs => absurd hoff hs⟩
    | false =>
      have hsend' : (t.step (.produce now maxSize)).queue.sending = some id := by
        rw [step, RRSendQueue.exec, hsend, hend]
        rfl
      refine ⟨closed, some (b.push (nextFragment a maxSize)), hready,
        hinter.trans h.uninterleaved, ?_, h.valid, ?_, ?_⟩
      · rw [hstep, houtputs]
        rfl
      · intro j other hj
        rcases hothers j other hj with ⟨rfl, -, rfl⟩ | ⟨hoff, hknown, hfresh⟩
        · have hopen := hc.push_open hleft hmax hend
          refine ⟨?_, fun h0 => absurd (hopen.started.mp h0) ?_, fun _ => ⟨hsend', _, rfl, hopen⟩⟩
          · have hadded := hopen.added
            rwa [← hopen.messageId, ← hopen.message] at hadded
          · exact append_ne_nil_of_right_ne_nil _ (cons_ne_nil _ _)
        · exact ⟨hknown, fun _ => hfresh, fun hs => absurd hoff hs⟩
      · intro hs
        rw [hsend'] at hs
        cases hs

theorem Traced.discard {streamId : StreamID}
    {messageId : OutgoingMessageId} (he : t.enabled (.discard streamId messageId)) :
    ∃ closed' current', Traced (t.step (.discard streamId messageId)) closed' current' := by
  have hk : t.queue.Keyed := h.ready.1.streamId
  have hmay : t.queue.MayDiscard streamId messageId := by
    intro s hs hp front hfront hid
    have hget := RRSendQueue.getOrCreateStreamInfo_of_find? hs
    have hw := h.ready.1.wf streamId s hs
    refine he front (by rw [hget]; exact hfront) hid (hw.paused hp front ?_)
    exact mem_of_mem_head? hfront
  have hready := h.ready.discard hmay
  have hturn := turn_discard messageId
    (t.queue.ctx, t.queue.getOrCreateStreamInfo streamId)
  have hview := RRSendQueue.view_discard hk streamId messageId
  replace hturn : match (t.queue.view.streams streamId).discard messageId with
    | none => _
    | some _ => _ := hturn
  cases hd : (t.queue.view.streams streamId).discard messageId with
  | none =>
    simp only [hd] at hview hturn
    refine ⟨closed, current, h.quiet hready hturn ?_ fun id item hi => ?_⟩
    · simp [newOutputs, hview.1]
    · rw [RRSendQueue.exec, hview.2] at hi
      exact h.items id item hi
  | some r =>
    obtain ⟨item, m⟩ := r
    simp only [hd] at hview hturn
    obtain ⟨hitems, hid⟩ := discard_eq_some hd
    have hmem : item ∈ (t.queue.view.streams streamId).items := by
      rw [hitems]
      exact mem_cons_self
    have hoff : item.remainingOffset ≠ 0 := by
      refine he item ?_ hid
      have hhead : (t.queue.getOrCreateStreamInfo streamId).items = item :: m.items := hitems
      rw [hhead]
      rfl
    obtain ⟨hsend, b, rfl, hc⟩ := (h.items streamId item hmem).started hoff
    have hne : b.chunks ≠ [] := fun hnil => hoff (hc.started.mpr hnil)
    have hstreamId : item.message.streamId = streamId := (h.wf hmem).streamId_eq
    refine ⟨closed ++ [{ b with outcome := .discarded }], none, hready,
      hturn.1.trans h.uninterleaved, ?_, ?_, ?_, fun _ => rfl⟩
    · rw [step, h.outputs, flatMap_append, flatMap_singleton]
      simp [newOutputs, hview.1, Block.outputs, hc.outcome, ← hc.message, ← hc.messageId, hstreamId,
        hid]
    · intro b' hb'
      rcases mem_append.mp hb' with hb' | hb'
      · exact h.valid b' hb'
      · cases mem_singleton.mp hb'
        exact ⟨hc.discard hne, nofun⟩
    · intro j other hj
      rw [step, RRSendQueue.exec, hview.2] at hj
      by_cases hji : j = streamId
      · subst hji
        simp only [SendQueueView.append, setStream, update_self] at hj
        have hlater := (h.ready.1.good j).wf.later other (by
          show other ∈ (t.queue.view.streams j).items.tail
          rw [hitems]
          exact hj)
        have hacc := h.items j other (by rw [hitems]; exact mem_cons_of_mem _ hj)
        exact ⟨hacc.known, hacc.fresh, fun hs => absurd hlater hs⟩
      · simp only [SendQueueView.append, setStream, update_of_ne hji] at hj
        have hacc := h.items j other hj
        refine ⟨hacc.known, hacc.fresh, fun hs => ?_⟩
        exact absurd (Option.some.inj ((hacc.started hs).1.symm.trans hsend)) hji

theorem Traced.step (he : t.enabled op)
    (hp : t.PositiveSizes op) : ∃ closed' current', Traced (t.step op) closed' current' := by
  have hk : t.queue.Keyed := h.ready.1.streamId
  cases op with
  | add now message options => exact ⟨closed, current, h.add now message options he⟩
  | produce now maxSize =>
    cases hn : (t.queue.produce now maxSize).1 with
    | none => exact ⟨closed, current, h.produceNone hp hn⟩
    | some chunk => exact h.produceSome hp hn
  | discard streamId messageId => exact h.discard he
  | prepareResetStream streamId => exact ⟨closed, current, h.prepareResetStream streamId⟩
  | getStreamsReadyToBeReset =>
    refine ⟨closed, current, h.changeStreams (h.ready.getStreamsReadyToBeReset he) ?_ rfl
      (RRSendQueue.view_getStreamsReadyToBeReset hk).2 fun m item' hi => .inl hi⟩
    exact RRSendQueue.sameTurn_forStreams sameTurn_setAsResetting _ _
  | commitResetStreams =>
    refine ⟨closed, current, h.changeStreams (h.ready.commitResetStreams he) ?_ rfl
      (RRSendQueue.view_commitResetStreams hk).2 fun m item' hi => ?_⟩
    · exact RRSendQueue.sameTurn_forStreams sameTurn_reset _ _
    · simp only [MessageStream.reset] at hi
      cases hm : m.items with
      | nil => simp [hm] at hi
      | cons item rest =>
        simp only [hm, mem_cons] at hi
        rcases hi with rfl | hi
        · exact .inr ⟨item, mem_cons_self, rfl⟩
        · exact .inl (mem_cons_of_mem _ hi)
  | rollbackResetStreams =>
    refine ⟨closed, current, h.changeStreams (h.ready.rollbackResetStreams he) ?_ rfl
      (RRSendQueue.view_rollbackResetStreams hk).2 fun m item' hi => .inl hi⟩
    exact RRSendQueue.sameTurn_forStreams sameTurn_resume _ _
  | reset => exact absurd he not_false
  | setStreamPriority streamId priority =>
    refine ⟨closed, current, h.quiet (h.ready.setStreamPriority streamId priority)
      ⟨⟨rfl, rfl⟩, rfl⟩ rfl fun id item hi => h.items id item ?_⟩
    rwa [RRSendQueue.exec, RRSendQueue.view_setStreamPriority hk] at hi
  | setBufferedAmountLowThreshold streamId bytes =>
    refine ⟨closed, current, h.quiet (h.ready.setBufferedAmountLowThreshold streamId bytes) ?_ rfl
      fun id item hi => h.items id item ?_⟩
    · refine sameTurn_of_eq ?_
      simp only [RRSendQueue.exec, RRSendQueue.setBufferedAmountLowThreshold,
        RRSendQueue.updateStream, RRSendQueue.putStream, SendQueueContext.notify]
      split_ifs <;> rfl
    · rwa [RRSendQueue.exec, RRSendQueue.view_setBufferedAmountLowThreshold hk] at hi
  | setMessageInterleaving enabled => exact absurd he not_false

end

theorem Traced.current_valid {b : Block} (h : Traced t closed (some b)) : b.Valid t.added := by
  cases hs : t.queue.sending with
  | none => cases h.idle hs
  | some id =>
    obtain ⟨item, rest, hi, hmid⟩ := h.sendingFront hs
    have hmem : item ∈ (t.queue.view.streams id).items := by
      rw [hi]
      exact mem_cons_self
    have hoff : item.remainingOffset ≠ 0 := ((h.wf hmem).mid.mp hmid).ne'
    obtain ⟨-, b', hb', hc⟩ := (h.items id item hmem).started hoff
    cases hb'
    exact hc.valid fun hnil => hoff (hc.started.mpr hnil)

/-- In every run with room for payload in each chunk, the chunks come in blocks: a block holds the
consecutive fragments of one message, and it ends with the last fragment or when the message is
discarded. -/
theorem reachable_blocks {t : Transcript τ} (h : (machine.restrict PositiveSizes).Reachable t) :
    ∃ blocks : List Block, t.outputs = blocks.flatMap Block.outputs ∧
      (∀ b ∈ blocks, b.Valid t.added) ∧ ∀ b ∈ blocks.dropLast, b.outcome ≠ .sending := by
  have htraced : ∃ closed current, Traced t closed current := by
    refine h.preserved (I := fun t => ∃ closed current, Traced t closed current) ?_
      fun t op t' ⟨closed, current, ht⟩ he hs => ?_
    · rintro t ⟨bufferSize, mtu, priority, threshold, rfl⟩
      refine ⟨[], none, RRSendQueue.new_ready .., rfl, rfl, nofun, fun id item hi => ?_, fun _ => rfl⟩
      simp [RRSendQueue.view, RRSendQueue.new, RRSendQueue.getOrCreateStreamInfo,
        view, OutgoingStream.new] at hi
    · cases hs
      exact ht.step he.1 he.2
  obtain ⟨closed, current, ht⟩ := htraced
  cases current with
  | none =>
    refine ⟨closed, by simpa using ht.outputs, fun b hb => (ht.valid b hb).1, fun b hb => ?_⟩
    exact (ht.valid b (mem_of_mem_dropLast hb)).2
  | some b =>
    refine ⟨closed ++ [b], by simpa using ht.outputs, fun b' hb' => ?_, fun b' hb' => ?_⟩
    · rcases mem_append.mp hb' with hb' | hb'
      · exact (ht.valid b' hb').1
      · cases mem_singleton.mp hb'
        exact ht.current_valid
    · rw [dropLast_concat] at hb'
      exact (ht.valid b' hb').2

instance (t : Transcript τ) : (op : RRSendQueue.Op) → Decidable (t.enabled op)
  | .produce .. => instDecidableTrue
  | .discard streamId messageId => inferInstanceAs (Decidable
    (∀ front ∈ (t.queue.getOrCreateStreamInfo streamId).items.head?,
      front.messageId = messageId → front.remainingOffset ≠ 0))
  | .reset | .setMessageInterleaving _ => instDecidableFalse
  | .add now message options =>
    inferInstanceAs (Decidable (t.queue.Precondition (.add now message options)))
  | .getStreamsReadyToBeReset =>
    inferInstanceAs (Decidable (t.queue.Precondition .getStreamsReadyToBeReset))
  | .commitResetStreams => inferInstanceAs (Decidable (t.queue.Precondition .commitResetStreams))
  | .rollbackResetStreams =>
    inferInstanceAs (Decidable (t.queue.Precondition .rollbackResetStreams))
  | .prepareResetStream _ | .setStreamPriority .. | .setBufferedAmountLowThreshold .. =>
    instDecidableTrue

instance (t : Transcript τ) (op : RRSendQueue.Op) : Decidable (machine.enabled t op) :=
  inferInstanceAs (Decidable (t.enabled op))

instance (t : Transcript τ) : (op : RRSendQueue.Op) → Decidable (t.PositiveSizes op)
  | .produce _ maxSize => inferInstanceAs (Decidable (0 < maxSize))
  | .discard .. | .reset | .setMessageInterleaving _ | .add .. | .prepareResetStream _
  | .getStreamsReadyToBeReset | .commitResetStreams | .rollbackResetStreams
  | .setStreamPriority .. | .setBufferedAmountLowThreshold .. => instDecidableTrue

instance (t : Transcript τ) (op : RRSendQueue.Op) :
    Decidable ((machine.restrict PositiveSizes).enabled t op) :=
  inferInstanceAs (Decidable (t.enabled op ∧ t.PositiveSizes op))

def summary : Output → Option (StreamID × FSN × Bool × Bool)
  | .chunk chunk =>
    some (chunk.data.streamId, chunk.data.fsn, chunk.data.isBeginning, chunk.data.isEnd)
  | .discarded .. => none

theorem reachable_blocks_two_streams :
    ∃ t : Transcript ℚ, (machine.restrict PositiveSizes).Reachable t ∧ t.outputs.filterMap summary =
        [(1, 0, true, false), (1, 1, false, true), (2, 0, true, true)] ∧
      ∃ blocks : List Block, t.outputs = blocks.flatMap Block.outputs ∧
        ∀ b ∈ blocks, b.Valid t.added := by
  have h0 : (machine.restrict PositiveSizes).Reachable
      (⟨.new 100 1191 256 0, [], []⟩ : Transcript ℚ) := .initial ⟨100, 1191, 256, 0, rfl⟩
  have hrun : ((machine.restrict PositiveSizes).run (⟨.new 100 1191 256 0, [], []⟩ : Transcript ℚ)
      [.add (.micros 0) ⟨1, 53, [1, 2, 3]⟩ ⟨false, none, none, 0⟩,
        .add (.micros 0) ⟨2, 53, [4]⟩ ⟨false, none, none, 0⟩, .produce (.micros 1) 2,
        .setStreamPriority 2 512, .produce (.micros 1) 2, .produce (.micros 1) 2]).map
      (fun t => t.outputs.filterMap summary) =
        some [(1, 0, true, false), (1, 1, false, true), (2, 0, true, true)] := by
    decide +kernel
  obtain ⟨t, ht, hout⟩ := Option.map_eq_some_iff.mp hrun
  obtain ⟨blocks, houtputs, hvalid, -⟩ := reachable_blocks (h0.run ht)
  exact ⟨t, h0.run ht, hout, blocks, houtputs, hvalid⟩

/-- A chunk without room for payload takes the place of the first fragment, and is not marked as
the beginning. -/
theorem empty_chunk_is_not_beginning : ∃ t : Transcript ℚ, machine.Reachable t ∧
      t.outputs.filterMap summary = [(1, 0, false, false), (1, 1, true, true)] := by
  have h0 : machine.Reachable (⟨.new 100 1191 256 0, [], []⟩ : Transcript ℚ) :=
    .initial ⟨100, 1191, 256, 0, rfl⟩
  have hrun : (machine.run (⟨.new 100 1191 256 0, [], []⟩ : Transcript ℚ)
      [.add (.micros 0) ⟨1, 53, [1, 2]⟩ ⟨false, none, none, 0⟩, .produce (.micros 1) 0,
        .produce (.micros 1) 2]).map (fun t => t.outputs.filterMap summary) =
        some [(1, 0, false, false), (1, 1, true, true)] := by
    decide +kernel
  obtain ⟨t, ht, hout⟩ := Option.map_eq_some_iff.mp hrun
  exact ⟨t, h0.run ht, hout⟩

end Transcript

end WebRtc.DcSctp
