import WebRtc.DcSctp.SendQueueConsistency

/-! The invariant of the send queue, kept by every operation, and what it says about whole runs. -/

namespace WebRtc.DcSctp.RRSendQueue

open OutgoingStream RRSendQueue

variable {τ : Type} [VirtualTime τ]

structure Inv (q : RRSendQueue τ) : Prop where
  streamId : ∀ id s, q.streams.find? id = some s → s.streamId = id
  wf : ∀ id s, q.streams.find? id = some s → s.Wf
  activeIff : ∀ id s, q.streams.find? id = some s →
    (s.nextFinishTime ≠ 0 ↔ 0 < s.bytesToSendInNextMessage)
  total : q.ctx.totalBufferedAmount.value = q.streams.sumBy fun s => s.bufferedAmount.value
  active : ∀ t id, toLex (t, id) ∈ q.ctx.scheduler.activeStreams ↔
    ∃ s, q.streams.find? id = some s ∧ t = s.nextFinishTime ∧ t ≠ 0
  time : 0 ≤ q.ctx.scheduler.virtualTime
  payload : q.ctx.scheduler.enableMessageInterleaving = true → 0 < q.ctx.scheduler.maxPayloadBytes
  checks : q.ctx.checksHold = true

def Sending (q : RRSendQueue τ) : Prop :=
  q.ctx.scheduler.currentlySendingAMessage = true →
    ∃ id s, q.ctx.scheduler.currentStream = some id ∧ q.streams.find? id = some s ∧
      s.hasPartiallySentMessage = true

def frame (q : RRSendQueue τ) (id : StreamID) : Frame τ where
  bytes := (q.streams.erase id).sumBy fun s => s.bufferedAmount.value
  active t j := ∃ s, q.streams.find? j = some s ∧ t = s.nextFinishTime ∧ t ≠ 0

theorem new_wf (id : StreamID) (priority : StreamPriority) :
    (OutgoingStream.new id priority : OutgoingStream τ).Wf :=
  ⟨rfl, by simp [OutgoingStream.new], by simp [OutgoingStream.new], by simp [OutgoingStream.new],
    by simp [OutgoingStream.new], le_rfl⟩

variable {id : StreamID} {s : OutgoingStream τ}

variable {q : RRSendQueue τ}

theorem getOrCreateStreamInfo_of_find?
    (h : q.streams.find? id = some s) : q.getOrCreateStreamInfo id = s := by
  simp only [getOrCreateStreamInfo, h, Option.getD_some]

theorem Inv.good (h : q.Inv) (id : StreamID) :
    Good id (q.frame id) (q.ctx, q.getOrCreateStreamInfo id) := by
  have hsum := q.streams.sumBy_erase id fun s => s.bufferedAmount.value
  cases hf : q.streams.find? id with
  | none =>
    have he : q.getOrCreateStreamInfo id = .new id q.defaultPriority := by
      simp only [getOrCreateStreamInfo, hf, Option.getD_none]
    rw [hf] at hsum
    rw [he]
    refine ⟨rfl, new_wf id _, ⟨?_, ?_, h.time, h.payload, h.checks⟩, ?_⟩
    · rw [h.total, ← hsum]
      simp [frame, OutgoingStream.new]
    · intro t j
      rw [h.active]
      refine ⟨fun ha => .inr ⟨?_, ha⟩, ?_⟩
      · rintro rfl
        obtain ⟨s, hs, -⟩ := ha
        simp [hf] at hs
      · rintro (⟨-, ht, hne⟩ | ⟨-, ha⟩)
        · exact absurd ht hne
        · exact ha
    · exact iff_of_false (fun hne => hne rfl)
        (by rw [bytesToSend_of_items_nil rfl]; omega)
  | some s =>
    rw [getOrCreateStreamInfo_of_find? hf]
    rw [hf] at hsum
    have hid := h.streamId id s hf
    refine ⟨hid, h.wf id s hf, ⟨?_, ?_, h.time, h.payload, h.checks⟩, h.activeIff id s hf⟩
    · rw [h.total, ← hsum]
      exact Nat.add_comm _ _
    · intro t j
      rw [h.active]
      constructor
      · rintro ⟨s', hs', ht, hne⟩
        by_cases hj : j = id
        · subst hj
          cases hf.symm.trans hs'
          exact .inl ⟨hid.symm, ht, hne⟩
        · exact .inr ⟨fun he => hj (he.trans hid), s', hs', ht, hne⟩
      · rintro (⟨rfl, ht, hne⟩ | ⟨-, ha⟩)
        · exact ⟨s, hid ▸ hf, ht, hne⟩
        · exact ha

theorem find?_putStream (q : RRSendQueue τ) (c : SendQueueContext τ × OutgoingStream τ)
    (j : StreamID) :
    (q.putStream c).streams.find? j = if j = c.2.streamId then some c.2 else q.streams.find? j := by
  simp only [putStream, OrdMap.find?_upsert]

def OthersInv (q : RRSendQueue τ) (id : StreamID) : Prop :=
  ∀ j ≠ id, ∀ s, q.streams.find? j = some s → s.streamId = j ∧ s.Wf ∧
    (s.nextFinishTime ≠ 0 ↔ 0 < s.bytesToSendInNextMessage)

theorem Inv.others (h : q.Inv) (id : StreamID) : q.OthersInv id :=
  fun j _ s hs => ⟨h.streamId j s hs, h.wf j s hs, h.activeIff j s hs⟩

variable {c : SendQueueContext τ × OutgoingStream τ}

theorem OthersInv.putStream (ho : q.OthersInv id) (h : Good id (q.frame id) c) :
    (q.putStream c).Inv := by
  have hid := h.id_eq
  have hcases : ∀ j s, (q.putStream c).streams.find? j = some s →
      (j = id ∧ s = c.2) ∨ (j ≠ id ∧ q.streams.find? j = some s) := by
    intro j s hs
    rw [find?_putStream, hid] at hs
    split_ifs at hs with hj
    · exact .inl ⟨hj, (Option.some.inj hs).symm⟩
    · exact .inr ⟨hj, hs⟩
  refine ⟨?_, ?_, ?_, ?_, ?_, h.linked.time, h.linked.payload, h.linked.checks⟩
  · intro j s hs
    obtain ⟨rfl, rfl⟩ | ⟨hj, hs⟩ := hcases j s hs
    · exact hid
    · exact (ho j hj s hs).1
  · intro j s hs
    obtain ⟨rfl, rfl⟩ | ⟨hj, hs⟩ := hcases j s hs
    · exact h.wf
    · exact (ho j hj s hs).2.1
  · intro j s hs
    obtain ⟨rfl, rfl⟩ | ⟨hj, hs⟩ := hcases j s hs
    · exact h.active
    · exact (ho j hj s hs).2.2
  · have herase : (q.putStream c).streams.erase id = q.streams.erase id := by
      refine OrdMap.ext_find? fun j => ?_
      rw [OrdMap.find?_erase, OrdMap.find?_erase, find?_putStream, hid]
      split_ifs <;> rfl
    have hsum := (q.putStream c).streams.sumBy_erase id fun s => s.bufferedAmount.value
    rw [herase, find?_putStream, if_pos hid.symm, Option.elim_some] at hsum
    rw [← hsum]
    exact h.linked.total.trans (Nat.add_comm _ _)
  · intro t j
    have ha := h.linked.active t j
    rw [hid] at ha
    have hf := q.find?_putStream c j
    rw [hid] at hf
    refine ha.trans ?_
    rw [hf]
    by_cases hj : j = id
    · simp [hj]
    · simp [hj, frame]

variable {f : SendQueueContext τ × OutgoingStream τ → SendQueueContext τ × OutgoingStream τ}

theorem Sending.putStream (hs : q.Sending) (hid : c.2.streamId = id)
    (hk : KeepsSending (q.ctx, q.getOrCreateStreamInfo id) c) : (q.putStream c).Sending := by
  intro hsend
  obtain ⟨hold, hcur, hpart⟩ := hk hsend
  obtain ⟨j, s, hj, hf, hp⟩ := hs hold
  by_cases he : j = id
  · subst he
    rw [getOrCreateStreamInfo_of_find? hf] at hpart
    refine ⟨j, c.2, hcur.trans hj, ?_, hpart hp⟩
    rw [find?_putStream, if_pos hid.symm]
  · refine ⟨j, s, hcur.trans hj, ?_, hp⟩
    rw [find?_putStream, if_neg (fun h => he (h.trans hid)), hf]

def Ready (q : RRSendQueue τ) : Prop := q.Inv ∧ q.Sending

theorem Inv.check (h : q.Inv) {p : Prop} [Decidable p] (hp : p) : (q.check p).Inv where
  streamId := h.streamId
  wf := h.wf
  activeIff := h.activeIff
  total := h.total
  active := h.active
  time := h.time
  payload := h.payload
  checks := by simp [RRSendQueue.check, SendQueueContext.check, hp, h.checks]

theorem Ready.check (h : q.Ready) {p : Prop} [Decidable p] (hp : p) : (q.check p).Ready :=
  ⟨h.1.check hp, h.2⟩

theorem Ready.putStream (h : q.Ready)
    (hc : Good id (q.frame id) c ∧ KeepsSending (q.ctx, q.getOrCreateStreamInfo id) c) :
    (q.putStream c).Ready :=
  ⟨(h.1.others id).putStream hc.1, h.2.putStream hc.1.id_eq hc.2⟩

theorem Ready.add (h : q.Ready) (now : Timestamp) {message : DcSctpMessage}
    (options : SendOptions) (hm : message.payload ≠ []) : (q.add now message options).Ready :=
  (h.check hm).putStream (good_add ((h.check hm).1.good _) _ hm rfl)

def MayDiscard (q : RRSendQueue τ) (streamId : StreamID) (messageId : OutgoingMessageId) : Prop :=
  ∀ s ∈ q.streams.find? streamId, s.pauseState = .kPaused ∨ s.pauseState = .kResetting →
    ∀ front ∈ s.items.head?, front.messageId ≠ messageId

theorem Ready.discard (h : q.Ready) {streamId : StreamID}
    {messageId : OutgoingMessageId} (hd : q.MayDiscard streamId messageId) :
    (q.discard streamId messageId).2.Ready := by
  refine h.putStream (good_discard (h.1.good streamId) ?_)
  simp only [getOrCreateStreamInfo]
  cases hf : q.streams.find? streamId with
  | none => simp [OutgoingStream.new]
  | some s => exact hd s (by simp [hf])

theorem Ready.prepareResetStream (h : q.Ready) (streamId : StreamID) :
    (q.prepareResetStream streamId).Ready :=
  h.putStream (good_pause (h.1.good streamId))

theorem Ready.setStreamPriority (h : q.Ready) (streamId : StreamID)
    (priority : StreamPriority) : (q.setStreamPriority streamId priority).Ready := by
  have hg := h.1.good streamId
  have hw := hg.wf
  exact h.putStream ⟨⟨hg.id_eq, ⟨hw.buffered, hw.items, hw.later, hw.paused, hw.pending, hw.time⟩,
    hg.linked.of_stream rfl rfl rfl, hg.active⟩, .of_scheduler rfl rfl fun h => h⟩

theorem Ready.setBufferedAmountLowThreshold (h : q.Ready) (streamId : StreamID)
    (bytes : Nat) : (q.setBufferedAmountLowThreshold streamId bytes).Ready := by
  have hg := h.1.good streamId
  have hw := hg.wf
  have hl := hg.linked
  refine h.putStream ⟨⟨hg.id_eq, ⟨hw.buffered, hw.items, hw.later, hw.paused, hw.pending, hw.time⟩,
    ⟨?_, ?_, ?_, ?_, ?_⟩, hg.active⟩, .of_scheduler (by simp) (by simp) fun h => h⟩
  · simpa [ThresholdWatcher.setLowThreshold] using hl.total
  · simpa using hl.active
  · simpa using hl.time
  · simpa using hl.payload
  · simpa using hl.checks

theorem Ready.setMessageInterleaving (h : q.Ready) {enabled : Bool}
    (hm : enabled = true → 0 < q.ctx.scheduler.maxPayloadBytes) :
    (q.setMessageInterleaving enabled).Ready :=
  ⟨⟨h.1.streamId, h.1.wf, h.1.activeIff, h.1.total, h.1.active, h.1.time, hm, h.1.checks⟩, h.2⟩

variable {condition : OutgoingStream τ → Bool}

theorem Inv.forStreams
    (hf : ∀ id F c, Good id F c → condition c.2 = true → Good id F (f c)) (ids : List StreamID)
    (h : q.Inv) : (forStreams condition f ids q).Inv := by
  induction ids generalizing q with
  | nil => exact h
  | cons id rest ih =>
    simp only [forStreams]
    split_ifs with hc
    · exact ih ((h.others id).putStream (hf _ _ _ (h.good id) hc))
    · exact ih h

theorem Ready.forStreams
    (hf : ∀ id F c, Good id F c → condition c.2 = true → Good id F (f c) ∧ KeepsSending c (f c))
    (ids : List StreamID) (h : q.Ready) : (forStreams condition f ids q).Ready := by
  induction ids generalizing q with
  | nil => exact h
  | cons id rest ih =>
    simp only [forStreams]
    split_ifs with hc
    · exact ih (h.putStream (hf _ _ _ (h.1.good id) hc))
    · exact ih h

theorem Ready.getStreamsReadyToBeReset (h : q.Ready)
    (hr : q.hasResettingStreams = false) : q.getStreamsReadyToBeReset.2.Ready :=
  (h.check hr).forStreams (fun _ _ _ hg hc => good_setAsResetting hg
    (of_decide_eq_true hc)) _

theorem Ready.commitResetStreams (h : q.Ready)
    (hr : q.hasResettingStreams = true) : q.commitResetStreams.Ready := by
  refine (h.check hr).forStreams (fun id F c hg hc => ?_) _
  refine ⟨good_reset hg, keepsSending_reset ?_⟩
  by_contra hp
  exact (hg.wf.partial_not_paused (Bool.eq_true_of_not_eq_false hp)).1
    (.inr (of_decide_eq_true hc))

theorem Ready.rollbackResetStreams (h : q.Ready)
    (hr : q.hasResettingStreams = true) : q.rollbackResetStreams.Ready :=
  (h.check hr).forStreams (fun _ _ _ hg hc => good_resume hg
    (of_decide_eq_true hc)) _

theorem Ready.reset (h : q.Ready) : q.reset.Ready := by
  have hi : (RRSendQueue.forStreams (fun _ => true) OutgoingStream.reset q.streamIds q).Inv :=
    h.1.forStreams (fun _ _ _ hg _ => OutgoingStream.good_reset hg) q.streamIds
  exact ⟨⟨hi.streamId, hi.wf, hi.activeIff, hi.total, hi.active, hi.time, hi.payload, hi.checks⟩,
    fun hsend => absurd hsend Bool.false_ne_true⟩

theorem putStream_putStream (q : RRSendQueue τ) {c c' : SendQueueContext τ × OutgoingStream τ}
    (h : c'.2.streamId = c.2.streamId) : (q.putStream c).putStream c' = q.putStream c' := by
  simp only [putStream, h, OrdMap.upsert_upsert_const]

theorem getOrCreateStreamInfo_putStream (q : RRSendQueue τ)
    (c : SendQueueContext τ × OutgoingStream τ) :
    (q.putStream c).getOrCreateStreamInfo c.2.streamId = c.2 := by
  simp only [getOrCreateStreamInfo, find?_putStream, if_true, Option.getD_some]

section Produce

variable {q : RRSendQueue τ} (now : Timestamp) {maxSize : Nat}

structure Fragment (q : RRSendQueue τ) (id : StreamID) (chunk : SendQueue.DataToSend)
    (c : SendQueueContext τ × OutgoingStream τ) : Prop where
  others : q.OthersInv id
  id_eq : c.2.streamId = id
  wf : c.2.Wf
  linked : Linked (q.frame id) c
  current : c.1.scheduler.currentStream = some id
  streamId : chunk.data.streamId = id
  sending : chunk.data.isEnd = false → c.2.hasPartiallySentMessage = true

theorem Fragment.afterProduce {chunk : SendQueue.DataToSend} (h : Fragment q id chunk c)
    {rescheduling : Bool} (hne : c.2.nextFinishTime ≠ 0 ↔ rescheduling = false) :
    ((q.putStream c).afterProduce rescheduling id chunk).Ready := by
  have hstream : (q.putStream c).getOrCreateStreamInfo id = c.2 := by
    rw [← h.id_eq]
    exact q.getOrCreateStreamInfo_putStream c
  have hl : Linked (q.frame id) (c.1.fragmentProduced id c.2.currentVirtualTime chunk.data, c.2) := by
    have hp := h.linked.fragmentProduced h.wf.time (h.streamId.trans h.id_eq.symm)
    rwa [h.id_eq] at hp
  have hready : ∀ c' : SendQueueContext τ × OutgoingStream τ, Good id (q.frame id) c' →
      c'.1.scheduler.currentlySendingAMessage = !chunk.data.isEnd →
      c'.1.scheduler.currentStream = some id → c'.2.items = c.2.items → (q.putStream c').Ready := by
    intro c' hg hsend hcur hitems
    refine ⟨h.others.putStream hg, fun hs => ⟨id, c'.2, hcur, ?_, ?_⟩⟩
    · rw [find?_putStream, if_pos hg.id_eq.symm]
    · have hend : chunk.data.isEnd = false := by
        have := hsend.symm.trans hs
        simpa using this
      simpa only [OutgoingStream.hasPartiallySentMessage, hitems] using h.sending hend
  have hw := h.wf
  have hz : rescheduling = true → c.2.nextFinishTime = 0 := by
    intro hr
    by_contra hn
    exact Bool.false_ne_true ((hne.mp hn).symm.trans hr)
  have hctx : (q.putStream c).ctx = c.1 := rfl
  simp only [RRSendQueue.afterProduce, hstream, hctx]
  split_ifs with h₁ h₂
  · simp only [Bool.and_eq_true, decide_eq_true_eq] at h₁
    have hg := OutgoingStream.good_makeActive h.id_eq hw hl (hz h₁.1) h₁.2
    rw [q.putStream_putStream (hg.id_eq.trans h.id_eq.symm)]
    exact hready _ hg rfl h.current rfl
  · simp only [Bool.and_eq_true, Bool.not_eq_true', decide_eq_true_eq] at h₂
    have hg := OutgoingStream.good_makeInactive h.id_eq hw hl (hne.mpr h₂.1) h₂.2
    rw [q.putStream_putStream (hg.id_eq.trans h.id_eq.symm)]
    exact hready _ hg rfl h.current rfl
  · refine hready (c.1.fragmentProduced id c.2.currentVirtualTime chunk.data, c.2) ⟨h.id_eq, hw, hl, ?_⟩ rfl h.current rfl
    simp only [Bool.and_eq_true, Bool.not_eq_true', decide_eq_true_eq, not_and] at h₁ h₂
    cases rescheduling with
    | true => exact iff_of_false (fun hn => hn (hz rfl)) (h₁ rfl)
    | false => exact iff_of_true (hne.mpr rfl) (Nat.pos_of_ne_zero (h₂ rfl))

theorem produceFrom_eq (maxSize : Nat) (hs : q.getOrCreateStreamInfo id = s) :
    q.produceFrom now maxSize id = ((scheduledProduce now maxSize (q.ctx, s)).1,
        q.putStream (scheduledProduce now maxSize (q.ctx, s)).2) := by
  simp only [produceFrom, hs]

variable {first : τ ×ₗ StreamID}

theorem produceFrom_reschedule (hs : q.streams.find? (ofLex first).2 = some s)
    (hid : s.streamId = (ofLex first).2) (hc : forceMarkInactive (q.ctx.takeStream first, s) = c)
    (hp : (scheduledProduce now maxSize c).2.2.streamId = c.2.streamId) :
    (q.reschedule first).produceFrom now maxSize (ofLex first).2 =
      ((scheduledProduce now maxSize c).1, q.putStream (scheduledProduce now maxSize c).2) := by
  have hcid : c.2.streamId = (ofLex first).2 := by
    rw [← hc]
    exact hid
  have hre : q.reschedule first = q.putStream c := by
    simp only [reschedule, updateStream, getOrCreateStreamInfo, hs, Option.getD_some, hc]
    rfl
  have hget : (q.putStream c).getOrCreateStreamInfo (ofLex first).2 = c.2 := by
    rw [← hcid]
    exact q.getOrCreateStreamInfo_putStream c
  rw [hre, produceFrom_eq now maxSize hget]
  exact congrArg _ (q.putStream_putStream hp)

theorem Inv.taken (h : q.Inv) (hm : first ∈ q.ctx.scheduler.activeStreams) :
    ∃ s, q.streams.find? (ofLex first).2 = some s ∧ s.streamId = (ofLex first).2 ∧ s.Wf ∧
      Linked (q.frame (ofLex first).2) (forceMarkInactive (q.ctx.takeStream first, s)) ∧
      ¬ (s.pauseState = .kPaused ∨ s.pauseState = .kResetting) := by
  obtain ⟨s, hs, ht, hne⟩ := (h.active (ofLex first).1 (ofLex first).2).mp hm
  have hid := h.streamId _ s hs
  have hl := (h.good (ofLex first).2).linked
  rw [getOrCreateStreamInfo_of_find? hs] at hl
  have hre := hl.reschedule (ht ▸ hne)
  rw [← ht, hid] at hre
  exact ⟨s, hs, hid, h.wf _ s hs, hre,
    ((h.wf _ s hs).bytesToSend_pos_iff.mp ((h.activeIff _ s hs).mp (ht ▸ hne))).1⟩

theorem Inv.partial_active (h : q.Inv)
    (hs : q.streams.find? id = some s) (hp : s.hasPartiallySentMessage = true) :
    toLex (s.nextFinishTime, id) ∈ q.ctx.scheduler.activeStreams ∧ s.nextFinishTime ≠ 0 := by
  have hw := h.wf id s hs
  have hne := (h.activeIff id s hs).mpr (hw.bytesToSend_pos_iff.mpr (hw.partial_not_paused hp))
  exact ⟨(h.active _ _).mpr ⟨s, hs, rfl, hne⟩, hne⟩

theorem Inv.produceRescheduling (hmax : 0 < maxSize) (rounds : Nat) (h : q.Inv)
    (hr : q.ctx.scheduler.activeStreams.toList.length ≤ rounds) :
    match produceRescheduling now maxSize rounds q with
    | (none, q') => q'.Inv ∧
      q'.ctx.scheduler.currentlySendingAMessage = q.ctx.scheduler.currentlySendingAMessage ∧
      ∀ id s, q.streams.find? id = some s → s.hasPartiallySentMessage = false
    | (some chunk, q') => ∃ q₀ id c, q' = putStream q₀ c ∧ Fragment q₀ id chunk c ∧
      c.2.nextFinishTime = 0 := by
  induction rounds generalizing q with
  | zero =>
    refine ⟨h, rfl, fun id s hs => ?_⟩
    by_contra hp
    have hm := (h.partial_active hs (Bool.eq_true_of_not_eq_false hp)).1
    have hpos := List.length_pos_of_mem (OrdSet.mem_toList.mpr hm)
    omega
  | succ rounds ih =>
    cases hact : q.ctx.scheduler.activeStreams.toList with
    | nil =>
      simp only [produceRescheduling, hact]
      refine ⟨h, trivial, fun id s hs => ?_⟩
      by_contra hp
      have hm := (h.partial_active hs (Bool.eq_true_of_not_eq_false hp)).1
      rw [← OrdSet.mem_toList, hact] at hm
      exact absurd hm (List.not_mem_nil)
    | cons first rest =>
      have hm : first ∈ q.ctx.scheduler.activeStreams :=
        OrdSet.mem_toList.mp (hact ▸ List.mem_cons_self)
      obtain ⟨s, hs, hid, hwf, hl, hnp⟩ := h.taken hm
      generalize hc : forceMarkInactive (q.ctx.takeStream first, s) = c at hl
      have hwf' : c.2.Wf := by
        rw [← hc]
        exact ⟨hwf.buffered, hwf.items, hwf.later, hwf.paused, hwf.pending, hwf.time⟩
      have hnp' : ¬ (c.2.pauseState = .kPaused ∨ c.2.pauseState = .kResetting) := by
        rw [← hc]
        exact hnp
      have hid' : c.2.streamId = (ofLex first).2 := by
        rw [← hc]
        exact hid
      have hz : c.2.nextFinishTime = 0 := by
        rw [← hc]
        rfl
      have hitems : c.2.items = s.items := by
        rw [← hc]
        rfl
      have hsched : c.1.scheduler = (q.ctx.takeStream first).scheduler := by
        rw [← hc]
        rfl
      obtain ⟨hl', hspec⟩ := scheduledProduce_spec now hmax hwf' hl hnp'
      generalize hr' : scheduledProduce now maxSize c = r at hl' hspec
      obtain ⟨data, c'⟩ := r
      cases data with
      | none =>
        obtain ⟨hw, hplace, hnil, hpart⟩ := hspec
        have hround := produceFrom_reschedule now hs hid hc
          (by rw [hr']; exact hplace.streamId)
        rw [hr'] at hround
        have hg : Good (ofLex first).2 (q.frame (ofLex first).2) c' :=
          ⟨hplace.streamId.trans hid', hw, hl', iff_of_false
            (fun hne => hne (hplace.nextFinishTime.trans hz))
            (by rw [bytesToSend_of_items_nil hnil]; omega)⟩
        have hlen : (q.putStream c').ctx.scheduler.activeStreams.toList.length ≤ rounds := by
          have hlt := OrdSet.length_toList_erase_lt hm
          have he : (q.putStream c').ctx.scheduler.activeStreams =
              q.ctx.scheduler.activeStreams.erase first := by
            show c'.1.scheduler.activeStreams = _
            rw [hplace.scheduler, hsched]
            rfl
          rw [he]
          omega
        have hih := ih ((h.others _).putStream hg) hlen
        simp only [produceRescheduling, hact, hround]
        generalize produceRescheduling now maxSize rounds (q.putStream c') = r at hih ⊢
        obtain ⟨data, q'⟩ := r
        cases data with
        | some chunk => exact hih
        | none =>
          obtain ⟨hinv, hsend, hpartial⟩ := hih
          refine ⟨hinv, hsend.trans ?_, fun id s' hs' => ?_⟩
          · show c'.1.scheduler.currentlySendingAMessage = _
            rw [hplace.scheduler, hsched]
            rfl
          · by_cases hj : id = (ofLex first).2
            · subst hj
              cases hs.symm.trans hs'
              simpa only [hasPartiallySentMessage, hitems] using hpart
            · refine hpartial id s' ?_
              rw [find?_putStream, if_neg (fun he => hj (he.trans hg.id_eq)), hs']
      | some chunk =>
        have hround := produceFrom_reschedule now hs hid hc
          (by rw [hr']; exact hspec.place.streamId)
        rw [hr'] at hround
        simp only [produceRescheduling, hact, hround]
        refine ⟨q, (ofLex first).2, c', rfl, ⟨h.others _, hspec.place.streamId.trans hid', hspec.wf,
          hl', ?_, hspec.streamId.trans hid', hspec.sending⟩, hspec.place.nextFinishTime.trans hz⟩
        rw [hspec.place.scheduler, hsched]
        rfl

theorem Inv.produceFromCurrent (hmax : 0 < maxSize) (h : q.Inv)
    (hcur : q.ctx.scheduler.currentStream = some id)
    (hs : q.streams.find? id = some s) (hp : s.hasPartiallySentMessage = true) :
    ∃ chunk c, q.produceFromCurrent now maxSize id = (some chunk, q.putStream c) ∧
      Fragment q id chunk c ∧ c.2.nextFinishTime ≠ 0 := by
  obtain ⟨hm, hne⟩ := h.partial_active hs hp
  have hmem := OrdSet.mem_toList.mpr hm
  have hactive : ∃ p ∈ q.ctx.scheduler.activeStreams.toList, (ofLex p).2 = id := ⟨_, hmem, rfl⟩
  have hcheck := h.check hactive
  have hget : (q.check (∃ p ∈ q.ctx.scheduler.activeStreams.toList,
      (ofLex p).2 = id)).getOrCreateStreamInfo id = s := getOrCreateStreamInfo_of_find? hs
  have hl := (hcheck.good id).linked
  rw [hget] at hl
  have hw := h.wf id s hs
  obtain ⟨hl', hspec⟩ := OutgoingStream.scheduledProduce_spec now hmax hw hl
    (hw.partial_not_paused hp).1
  have hfrom := produceFrom_eq now maxSize hget
  have hempty : q.ctx.scheduler.activeStreams.toList.isEmpty = false := by
    cases ha : q.ctx.scheduler.activeStreams.toList with
    | nil => simp [ha] at hmem
    | cons p ps => rfl
  simp only [RRSendQueue.produceFromCurrent, hempty, Bool.false_eq_true, if_false, hfrom]
  generalize OutgoingStream.scheduledProduce now maxSize (_, s) = r at hl' hspec ⊢
  obtain ⟨data, c'⟩ := r
  cases data with
  | none => exact absurd (hp.symm.trans hspec.2.2.2) (Bool.false_ne_true ∘ Eq.symm)
  | some chunk =>
    have hid := h.streamId id s hs
    refine ⟨chunk, c', rfl, ⟨h.others id, hspec.place.streamId.trans hid, hspec.wf, hl', ?_,
      hspec.streamId.trans hid, hspec.sending⟩, ?_⟩
    · rw [hspec.place.scheduler]
      exact hcur
    · rw [hspec.place.nextFinishTime]
      exact hne

theorem Ready.produce (hmax : 0 < maxSize) (h : q.Ready) : (q.produce now maxSize).2.Ready := by
  simp only [RRSendQueue.produce]
  generalize hr : (q.ctx.scheduler.enableMessageInterleaving ||
    !q.ctx.scheduler.currentlySendingAMessage) = rescheduling
  have hsend : rescheduling = false → q.ctx.scheduler.currentlySendingAMessage = true := by
    rintro rfl
    simpa using (Bool.or_eq_false_iff.mp hr).2
  have hcheck : rescheduling = true ∨ q.ctx.scheduler.currentStream.isSome = true := by
    cases rescheduling with
    | true => exact .inl rfl
    | false =>
      obtain ⟨id, s, hcur, -⟩ := h.2 (hsend rfl)
      exact .inr (by simp [hcur])
  have hready := h.check hcheck
  replace hsend : rescheduling = false → (q.check (rescheduling = true ∨
    q.ctx.scheduler.currentStream.isSome = true)).ctx.scheduler.currentlySendingAMessage = true :=
    hsend
  generalize q.check (rescheduling = true ∨ q.ctx.scheduler.currentStream.isSome = true) = q₁
    at hready hsend ⊢
  cases rescheduling with
  | true =>
    simp only [if_true]
    have hspec := hready.1.produceRescheduling now hmax _ le_rfl
    generalize q₁.produceRescheduling now maxSize _ = r at hspec ⊢
    obtain ⟨data, q'⟩ := r
    cases data with
    | none =>
      obtain ⟨hinv, hflag, hpart⟩ := hspec
      refine ⟨hinv, fun hs => ?_⟩
      obtain ⟨id, s, -, hf, hp⟩ := hready.2 (hflag.symm.trans hs)
      exact absurd ((hpart id s hf).symm.trans hp) Bool.false_ne_true
    | some chunk =>
      obtain ⟨q₀, id, c, rfl, hfrag, hz⟩ := hspec
      have hcur : (q₀.putStream c).ctx.scheduler.currentStream = some id := hfrag.current
      simp only [hcur]
      exact hfrag.afterProduce (iff_of_false (fun hn => hn hz) Bool.true_eq_false.mp)
  | false =>
    obtain ⟨id, s, hcur, hs, hp⟩ := hready.2 (hsend rfl)
    obtain ⟨chunk, c, he, hfrag, hne⟩ := hready.1.produceFromCurrent now hmax hcur hs hp
    have hcur' : (q₁.putStream c).ctx.scheduler.currentStream = some id := hfrag.current
    simp only [Bool.false_eq_true, if_false, hcur, he, hcur']
    exact hfrag.afterProduce (iff_of_true hne rfl)

end Produce

inductive Op where
  | add (now : Timestamp) (message : DcSctpMessage) (options : SendOptions)
  | produce (now : Timestamp) (maxSize : Nat)
  | discard (streamId : StreamID) (messageId : OutgoingMessageId)
  | prepareResetStream (streamId : StreamID)
  | getStreamsReadyToBeReset
  | commitResetStreams
  | rollbackResetStreams
  | reset
  | setStreamPriority (streamId : StreamID) (priority : StreamPriority)
  | setBufferedAmountLowThreshold (streamId : StreamID) (bytes : Nat)
  | setMessageInterleaving (enabled : Bool)

def exec (q : RRSendQueue τ) : Op → RRSendQueue τ
  | .add now message options => q.add now message options
  | .produce now maxSize => (q.produce now maxSize).2
  | .discard streamId messageId => (q.discard streamId messageId).2
  | .prepareResetStream streamId => q.prepareResetStream streamId
  | .getStreamsReadyToBeReset => q.getStreamsReadyToBeReset.2
  | .commitResetStreams => q.commitResetStreams
  | .rollbackResetStreams => q.rollbackResetStreams
  | .reset => q.reset
  | .setStreamPriority streamId priority => q.setStreamPriority streamId priority
  | .setBufferedAmountLowThreshold streamId bytes => q.setBufferedAmountLowThreshold streamId bytes
  | .setMessageInterleaving enabled => q.setMessageInterleaving enabled

def Precondition (q : RRSendQueue τ) : Op → Prop
  | .add _ message _ => message.payload ≠ []
  | .produce _ maxSize => 0 < maxSize
  | .getStreamsReadyToBeReset => q.hasResettingStreams = false
  | .commitResetStreams | .rollbackResetStreams => q.hasResettingStreams = true
  | .setMessageInterleaving enabled => enabled = true → 0 < q.ctx.scheduler.maxPayloadBytes
  | _ => True

instance (q : RRSendQueue τ) : (op : Op) → Decidable (q.Precondition op)
  | .add _ message _ => inferInstanceAs (Decidable (message.payload ≠ []))
  | .produce _ maxSize => inferInstanceAs (Decidable (0 < maxSize))
  | .getStreamsReadyToBeReset => inferInstanceAs (Decidable (q.hasResettingStreams = false))
  | .commitResetStreams | .rollbackResetStreams =>
    inferInstanceAs (Decidable (q.hasResettingStreams = true))
  | .setMessageInterleaving enabled =>
    inferInstanceAs (Decidable (enabled = true → 0 < q.ctx.scheduler.maxPayloadBytes))
  | .discard .. | .prepareResetStream .. | .reset | .setStreamPriority ..
  | .setBufferedAmountLowThreshold .. => instDecidableTrue

def machine : Machine (RRSendQueue τ) Op where
  initial q := ∃ bufferSize mtu defaultPriority threshold,
    q = new bufferSize mtu defaultPriority threshold
  enabled := Precondition
  step q op := some (q.exec op)

def DiscardsActive (q : RRSendQueue τ) : Op → Prop
  | .discard streamId messageId => q.MayDiscard streamId messageId
  | _ => True

theorem new_ready (bufferSize mtu : Nat) (defaultPriority : StreamPriority) (threshold : Nat) :
    (new bufferSize mtu defaultPriority threshold : RRSendQueue τ).Ready := by
  refine ⟨⟨?_, ?_, ?_, rfl, ?_, le_rfl, fun h => absurd h Bool.false_ne_true, rfl⟩,
    fun h => absurd h Bool.false_ne_true⟩
  all_goals simp [new]

theorem Ready.exec (h : q.Ready) {op : Op} (hp : q.Precondition op)
    (hd : q.DiscardsActive op) : (q.exec op).Ready := by
  cases op with
  | add now message options => exact h.add now options hp
  | produce now maxSize => exact h.produce now hp
  | discard streamId messageId => exact h.discard hd
  | prepareResetStream streamId => exact h.prepareResetStream streamId
  | getStreamsReadyToBeReset => exact h.getStreamsReadyToBeReset hp
  | commitResetStreams => exact h.commitResetStreams hp
  | rollbackResetStreams => exact h.rollbackResetStreams hp
  | reset => exact h.reset
  | setStreamPriority streamId priority => exact h.setStreamPriority streamId priority
  | setBufferedAmountLowThreshold streamId bytes =>
    exact h.setBufferedAmountLowThreshold streamId bytes
  | setMessageInterleaving enabled => exact h.setMessageInterleaving hp

theorem Ready.reachable (h : (machine.restrict DiscardsActive).Reachable q) : q.Ready := by
  refine (h.invariant ?_ ?_).1
  · rintro q ⟨bufferSize, mtu, defaultPriority, threshold, rfl⟩
    exact new_ready bufferSize mtu defaultPriority threshold
  · exact fun q op hq he => .some (hq.exec he.1 he.2)

theorem Inv.active_iff (h : q.Inv) (id : StreamID) :
    (∃ t, toLex (t, id) ∈ q.ctx.scheduler.activeStreams) ↔
      ∃ s, q.streams.find? id = some s ∧ 0 < s.bytesToSendInNextMessage := by
  constructor
  · rintro ⟨t, ht⟩
    obtain ⟨s, hs, rfl, hne⟩ := (h.active t id).mp ht
    exact ⟨s, hs, (h.activeIff id s hs).mp hne⟩
  · rintro ⟨s, hs, hpos⟩
    exact ⟨s.nextFinishTime, (h.active _ id).mpr ⟨s, hs, rfl, (h.activeIff id s hs).mpr hpos⟩⟩

theorem Inv.nextFinishTime_ne_zero_iff (h : q.Inv) (hs : q.streams.find? id = some s) :
    s.nextFinishTime ≠ 0 ↔ ∃ t, toLex (t, id) ∈ q.ctx.scheduler.activeStreams := by
  rw [h.active_iff, h.activeIff id s hs]
  refine ⟨fun hpos => ⟨s, hs, hpos⟩, ?_⟩
  rintro ⟨s', hs', hpos⟩
  cases hs.symm.trans hs'
  exact hpos

theorem mem_actualActiveStreams {l : List (τ ×ₗ StreamID)} {ids : OrdSet StreamID} :
    id ∈ l.foldl (fun ids p => ids.insert (ofLex p).2) ids ↔ id ∈ ids ∨ ∃ t, toLex (t, id) ∈ l := by
  induction l generalizing ids with
  | nil => simp
  | cons p rest ih =>
    have hp : (∃ t, toLex (t, id) = p) ↔ id = (ofLex p).2 := by
      constructor
      · rintro ⟨t, rfl⟩
        rfl
      · rintro rfl
        exact ⟨(ofLex p).1, rfl⟩
    rw [List.foldl_cons, ih, OrdSet.mem_insert, ← hp]
    simp only [List.mem_cons, exists_or]
    tauto

theorem Inv.isConsistent (h : q.Inv) : q.isConsistent = true := by
  simp only [RRSendQueue.isConsistent, Bool.and_eq_true, decide_eq_true_eq]
  refine ⟨OrdSet.toList_eq ?_ fun id => ?_, h.total.symm⟩
  · exact (List.pairwise_map.mpr q.streams.sorted).sublist
      (List.Sublist.map _ List.filter_sublist)
  · rw [mem_actualActiveStreams]
    simp only [OrdSet.notMem_empty, false_or, OrdSet.mem_toList, h.active_iff, List.mem_map,
      List.mem_filter, decide_eq_true_eq]
    constructor
    · rintro ⟨⟨_, s⟩, ⟨hm, hpos⟩, rfl⟩
      exact ⟨s, (q.streams.mem_entries_iff).mp hm, hpos⟩
    · rintro ⟨s, hs, hpos⟩
      exact ⟨(id, s), ⟨(q.streams.mem_entries_iff).mpr hs, hpos⟩, rfl⟩

theorem Inv.schedulerIsConsistent (h : q.Inv) : q.schedulerIsConsistent = true := by
  simp only [RRSendQueue.schedulerIsConsistent, List.all_eq_true, decide_eq_true_eq]
  intro p hp
  obtain ⟨s, hs, ht, hne⟩ := (h.active (ofLex p).1 (ofLex p).2).mp (OrdSet.mem_toList.mp hp)
  rw [getOrCreateStreamInfo_of_find? hs, ← ht]
  exact hne

/-- In every run whose discards spare the paused streams, the scheduler, the streams and the
counters agree after each operation and no check has failed. -/
theorem reachable_isConsistent {q : RRSendQueue τ}
    (h : (machine.restrict DiscardsActive).Reachable q) :
    q.isConsistent = true ∧ q.schedulerIsConsistent = true ∧
      (∀ id, (∃ t, toLex (t, id) ∈ q.ctx.scheduler.activeStreams) ↔
        ∃ s, q.streams.find? id = some s ∧ 0 < s.bytesToSendInNextMessage) ∧
      (∀ id s, q.streams.find? id = some s →
        s.bufferedAmount.value = (s.items.map QueuedMessage.remainingSize).sum ∧
        (s.nextFinishTime ≠ 0 ↔ ∃ t, toLex (t, id) ∈ q.ctx.scheduler.activeStreams)) ∧
      q.ctx.totalBufferedAmount.value = q.streams.sumBy (fun s => s.bufferedAmount.value) ∧
      q.ctx.checksHold = true := by
  have hi := (Ready.reachable h).1
  exact ⟨hi.isConsistent, hi.schedulerIsConsistent, hi.active_iff,
    fun id s hs => ⟨(hi.wf id s hs).buffered, hi.nextFinishTime_ne_zero_iff hs⟩, hi.total,
    hi.checks⟩

instance (q : RRSendQueue τ) (op : Op) : Decidable (machine.enabled q op) :=
  inferInstanceAs (Decidable (q.Precondition op))

instance (q : RRSendQueue τ) (streamId : StreamID) (messageId : OutgoingMessageId) :
    Decidable (q.MayDiscard streamId messageId) :=
  inferInstanceAs (Decidable (∀ s ∈ q.streams.find? streamId,
    s.pauseState = .kPaused ∨ s.pauseState = .kResetting →
      ∀ front ∈ s.items.head?, front.messageId ≠ messageId))

instance (q : RRSendQueue τ) : (op : Op) → Decidable (q.DiscardsActive op)
  | .discard streamId messageId => inferInstanceAs (Decidable (q.MayDiscard streamId messageId))
  | .add .. | .produce .. | .prepareResetStream .. | .getStreamsReadyToBeReset
  | .commitResetStreams | .rollbackResetStreams | .reset | .setStreamPriority ..
  | .setBufferedAmountLowThreshold .. | .setMessageInterleaving .. => instDecidableTrue

instance (q : RRSendQueue τ) (op : Op) :
    Decidable ((machine.restrict DiscardsActive).enabled q op) :=
  inferInstanceAs (Decidable (q.Precondition op ∧ q.DiscardsActive op))

theorem reachable_isConsistent_reset_while_sending :
    ∃ q : RRSendQueue ℚ, (machine.restrict DiscardsActive).Reachable q ∧
      q.streams.entries.map (fun e => (e.1, e.2.pauseState, e.2.bufferedAmount.value)) =
        [(1, .kPending, 2), (2, .kNotPaused, 0)] ∧ q.isConsistent = true := by
  have h0 : (machine.restrict DiscardsActive).Reachable (new 100 1191 256 0 : RRSendQueue ℚ) :=
    .initial ⟨100, 1191, 256, 0, rfl⟩
  have hrun : ((machine.restrict DiscardsActive).run (new 100 1191 256 0 : RRSendQueue ℚ)
      [.add (.micros 0) ⟨1, 53, [1, 2, 3, 4]⟩ ⟨false, none, none, 0⟩,
        .add (.micros 0) ⟨2, 53, [5]⟩ ⟨false, none, none, 0⟩, .produce (.micros 1) 2,
        .prepareResetStream 1, .discard 2 1]).map
      (fun q => q.streams.entries.map fun e => (e.1, e.2.pauseState, e.2.bufferedAmount.value)) =
        some [(1, .kPending, 2), (2, .kNotPaused, 0)] := by
    decide +kernel
  obtain ⟨q, hq, hstreams⟩ := Option.map_eq_some_iff.mp hrun
  exact ⟨q, h0.run hq, hstreams, (reachable_isConsistent (h0.run hq)).1⟩

/-- A paused stream gets a message, which is discarded before any of it is sent: the scheduler is
told to remove a stream that is not active. -/
theorem discard_of_paused_fails_check :
    ∃ q : RRSendQueue ℚ, machine.Reachable q ∧ q.ctx.checksHold = false := by
  have h0 : machine.Reachable (new 100 1191 256 0 : RRSendQueue ℚ) :=
    .initial ⟨100, 1191, 256, 0, rfl⟩
  have hrun : (machine.run (new 100 1191 256 0 : RRSendQueue ℚ)
      [.prepareResetStream 1, .add (.micros 0) ⟨1, 53, [1, 2, 3, 4]⟩ ⟨false, none, none, 0⟩,
        .discard 1 0]).map (fun q => q.ctx.checksHold) = some false := by
    decide
  obtain ⟨q, hq, hcheck⟩ := Option.map_eq_some_iff.mp hrun
  exact ⟨q, h0.run hq, hcheck⟩

end WebRtc.DcSctp.RRSendQueue
