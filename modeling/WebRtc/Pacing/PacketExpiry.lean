import WebRtc.Pacing.PacketQueueBooks

/-! The age at which the pacer drops a packet. The time that is stored for a packet leaves out the
pauses before its push, so that they count towards its age. -/

namespace WebRtc.Pacing

open Option

namespace PrioritizedPacketQueue

variable {q q' : PrioritizedPacketQueue} {s s' : StreamQueue} {i : Fin 5} {ssrc n : Nat}
  {p x : QueuedPacket} {rest : List QueuedPacket} {timeToLive now : Int}

theorem packetsAt_dequeue (hfind : q.streams.find? ssrc = some s) (hs : s.packets i = p :: rest)
    (hdequeue : s.dequeuePacket i = some (x, s'))
    (hq' : (q.setStream ssrc s').dequeuePacketInternal x = some q') (other : Nat) (j : Fin 5) :
    q'.packetsAt other j = if other = ssrc ∧ j = i then rest else q.packetsAt other j := by
  simp only [StreamQueue.dequeuePacket, hs, bind_eq_bind, bind_eq_some_iff]
    at hdequeue
  obtain ⟨_, _, ⟨⟩⟩ := hdequeue
  simp only [dequeuePacketInternal, bind_eq_bind, bind_eq_some_iff] at hq'
  obtain ⟨_, _, _, _, _, _, ⟨⟩⟩ := hq'
  refine (packetsAt_setStream q ssrc other _ j).trans ?_
  by_cases hother : other = ssrc
  · subst hother
    rw [if_pos rfl, packetsAt_of_find? hfind]
    dsimp only
    by_cases hj : j = i
    · rw [hj, Function.update_self, if_pos ⟨rfl, rfl⟩]
    · rw [Function.update_of_ne hj, if_neg fun h => hj h.2]
  · rw [if_neg hother, if_neg fun h => hother h.1]

/-- What is missing in `q'` was at the level `i` and too old. -/
def DropsOld (timeToLive now : Int) (i : Fin 5) (q q' : PrioritizedPacketQueue) : Prop :=
  ∀ ssrc j, ∀ p ∈ q.packetsAt ssrc j,
    p ∈ q'.packetsAt ssrc j ∨ j = i ∧ timeToLive < now - p.enqueueTime

theorem DropsOld.refl (q : PrioritizedPacketQueue) : DropsOld timeToLive now i q q :=
  fun _ _ _ hp => .inl hp

theorem DropsOld.trans {q'' : PrioritizedPacketQueue} (h : DropsOld timeToLive now i q q')
    (h' : DropsOld timeToLive now i q' q'') : DropsOld timeToLive now i q q'' :=
  fun ssrc j p hp => (h ssrc j p hp).elim (h' ssrc j p) .inr

theorem dropsOld_purgeStream (h : purgeStream i timeToLive now ssrc n q = some q') :
    DropsOld timeToLive now i q q' := by
  induction n generalizing q with
  | zero =>
    cases h
    exact .refl _
  | succ n ih =>
    obtain ⟨s, hfind, h⟩ := bind_eq_some_iff.mp h
    cases hs : s.packets i with
    | nil =>
      simp only [hs] at h
      cases h
      exact .refl _
    | cons leading rest =>
      simp only [hs] at h
      split_ifs at h with hold
      · obtain ⟨⟨x, s'⟩, hdequeue, h⟩ := bind_eq_some_iff.mp h
        obtain ⟨q₁, hq₁, h⟩ := bind_eq_some_iff.mp h
        refine DropsOld.trans (fun other j p hp => ?_) (ih h)
        rw [packetsAt_dequeue hfind hs hdequeue hq₁]
        split_ifs with hat
        · obtain ⟨rfl, rfl⟩ := hat
          rw [packetsAt_of_find? hfind, hs] at hp
          rcases List.mem_cons.mp hp with rfl | hp
          · exact .inr ⟨rfl, hold⟩
          · exact .inl hp
        · exact .inl hp
      · cases h
        exact .refl _

theorem dropsOld_purgeStreams {l : List Nat} {r : List Nat × PrioritizedPacketQueue}
    (h : purgeStreams i timeToLive now l q = some r) : DropsOld timeToLive now i q r.2 := by
  induction l generalizing q r with
  | nil =>
    cases h
    exact .refl _
  | cons ssrc rest ih =>
    obtain ⟨s, -, h⟩ := bind_eq_some_iff.mp h
    obtain ⟨q₁, hq₁, h⟩ := bind_eq_some_iff.mp h
    obtain ⟨s₁, -, h⟩ := bind_eq_some_iff.mp h
    obtain ⟨r₁, hr₁, ⟨⟩⟩ := bind_eq_some_iff.mp h
    have hrest := ih hr₁
    exact (dropsOld_purgeStream hq₁).trans hrest

theorem old_of_purge {j : Fin 5} (h : q.purgeOldPacketsAtPriorityLevel i now = some q')
    (hp : p ∈ q.packetsAt ssrc j) (hout : p ∉ q'.packetsAt ssrc j) :
    j = i ∧ ∃ timeToLive, q.timeToLivePerPrio i = some timeToLive ∧
      timeToLive < now - p.enqueueTime := by
  unfold purgeOldPacketsAtPriorityLevel at h
  cases httl : q.timeToLivePerPrio i with
  | none =>
    rw [httl] at h
    cases h
    exact absurd hp hout
  | some timeToLive =>
    simp only [httl] at h
    obtain ⟨r, hr, rfl⟩ := map_eq_some_iff.mp h
    obtain ⟨hj, hold⟩ := (dropsOld_purgeStreams hr ssrc j p hp).resolve_left hout
    exact ⟨hj, timeToLive, rfl, hold⟩

end PrioritizedPacketQueue

/-- The time that the queue was paused before the packet was pushed. -/
def QueueRun.pausedBefore (r : QueueRun) (p : QueuedPacket) : Int :=
  (r.log[p.enqueueTimeIterator]?.map fun record => record.time - r.origin - record.active).getD 0

/-- A queue that a call of the run purges holds some of the packets that were there before the
call. -/
structure QueueRun.Part (r : QueueRun) (q : PrioritizedPacketQueue) : Prop where
  ttl : q.timeToLivePerPrio = r.queue.timeToLivePerPrio
  packets : ∀ ssrc i, q.packetsAt ssrc i ⊆ r.queue.packetsAt ssrc i

theorem packetQueue_drops_old {r : QueueRun} (h : queueMachine.Reachable r)
    {q q' : PrioritizedPacketQueue} (hq : r.Part q) {i j : Fin 5} {now : Int} {ssrc : Nat}
    {p : QueuedPacket} (hpurge : q.purgeOldPacketsAtPriorityLevel i now = some q')
    (hp : p ∈ q.packetsAt ssrc j) (hout : p ∉ q'.packetsAt ssrc j) (hpause : r.pausedBefore p = 0) :
    i = r.queue.prioLevel p.packet ∧ ∃ timeToLive,
      r.queue.timeToLivePerPrio i = some timeToLive ∧ timeToLive < now - r.pushTime p := by
  obtain ⟨hright, -⟩ := h.invariant (I := QueueRun.Right)
    (by
      rintro r ⟨time, prioritize, ttl, rfl⟩
      exact .initial time prioritize ttl)
    fun r op hr hop => hr.step hop
  obtain ⟨rfl, timeToLive, httl, hold⟩ := PrioritizedPacketQueue.old_of_purge hpurge hp hout
  have hmem := hq.packets ssrc j hp
  obtain ⟨record, hrecord, -, htime⟩ := hright.queue.kept.logged.packets p
    (by rw [add_zero]; exact PrioritizedPacketQueue.mem_stored.mpr ⟨ssrc, j, hmem⟩)
  refine ⟨(hright.queue.kept.owner hmem).2.symm, timeToLive, hq.ttl ▸ httl, ?_⟩
  simp only [QueueRun.pausedBefore, hrecord, map_some, getD_some] at hpause
  simp only [QueueRun.pushTime, hrecord, map_some, getD_some]
  omega

theorem packetQueue_drops_old_video :
    ∃ r p, queueMachine.Reachable r ∧ p ∈ r.queue.packetsAt 7 3 ∧ r.pausedBefore p = 0 ∧
      ∃ timeToLive, r.queue.timeToLivePerPrio 3 = some timeToLive ∧
        timeToLive < 9 - r.pushTime p := by
  have h := Machine.Reachable.step
    (.initial (show queueMachine.initial _ from ⟨0, false, ⟨none, none, some 5⟩, rfl⟩))
    (show queueMachine.enabled _ (.push 3 ⟨7, .kVideo, none, 100, 0, true⟩) from
      (by decide : (0 : Int) ≤ 3)) rfl
  have hp : (⟨⟨7, .kVideo, none, 100, 0, true⟩, 3, 0⟩ : QueuedPacket) ∈ [_] :=
    List.mem_singleton_self _
  exact ⟨_, _, h, hp, rfl, (packetQueue_drops_old h ⟨rfl, fun _ _ => List.Subset.refl _⟩
    (show PrioritizedPacketQueue.purgeOldPacketsAtPriorityLevel _ 3 9 = some _ from rfl)
    (show _ ∈ PrioritizedPacketQueue.packetsAt _ 7 3 from hp) (by decide) rfl).2⟩

/-- After a pause of 10 a packet that may live for 5 is dropped at the time of its push. -/
theorem packetQueue_drops_new :
    ∃ r p q', queueMachine.Reachable r ∧ r.queue.timeToLivePerPrio 3 = some 5 ∧
      r.queue.purgeOldPacketsAtPriorityLevel 3 10 = some q' ∧ p ∈ r.queue.packetsAt 7 3 ∧
      p ∉ q'.packetsAt 7 3 ∧ 10 - r.pushTime p = 0 := by
  have h₁ := Machine.Reachable.step
    (.initial (show queueMachine.initial _ from ⟨0, false, ⟨none, none, some 5⟩, rfl⟩))
    (show queueMachine.enabled _ (.setPauseState true 0) from le_refl (0 : Int)) rfl
  have h₂ := h₁.step (show queueMachine.enabled _ (.setPauseState false 10) from
    (by decide : (0 : Int) ≤ 10)) rfl
  have h₃ := h₂.step (show queueMachine.enabled _
    (.push 10 ⟨7, .kVideo, none, 100, 0, true⟩) from le_refl (10 : Int)) rfl
  exact ⟨_, ⟨⟨7, .kVideo, none, 100, 0, true⟩, 0, 0⟩, _, h₃, rfl, rfl,
    List.mem_singleton_self _, List.not_mem_nil, rfl⟩

end WebRtc.Pacing
