import WebRtc.Lib.Checked
import WebRtc.DcSctp.StreamBytes

/-! The byte count of the reassembly queue over whole runs. It is the number of bytes held in
streams and in deferred actions as long as those stay below `2 ^ 31`, since sums of sizes pass
through `int`. -/

namespace WebRtc.DcSctp

open ReassemblyStreams List

open UnorderedStream

def DeferredAction.bytes : DeferredAction → Nat
  | .add _ data => data.size
  | .handleForwardTsn _ _ => 0

def DeferredResetStreams.bytes (deferred : DeferredResetStreams) : Nat :=
  (deferred.deferredActions.map DeferredAction.bytes).sum

namespace ReassemblyQueue

def deferredBytes (q : ReassemblyQueue) : Nat :=
  q.deferredResetStreams.elim 0 DeferredResetStreams.bytes

def heldBytes (q : ReassemblyQueue) : Nat := q.streams.bytes + q.deferredBytes

structure Accounted (q : ReassemblyQueue) (extra : Nat) : Prop where
  queued : q.queuedBytes = q.streams.bytes + extra
  bounded : q.queuedBytes < 2 ^ 31

variable {q : ReassemblyQueue}

variable {extra : Nat}

theorem Accounted.addToStreams (h : q.Accounted extra)
    {tsn : Int} {data : Data} (hlt : q.queuedBytes + data.size < 2 ^ 31) :
    (q.addToStreams tsn data).Accounted extra := by
  have hq := h.queued
  obtain ⟨heq, hle⟩ := add_bytes tsn
    (show q.streams.bytes + data.size < 2 ^ 31 by omega)
  have hcast : (q.queuedBytes + (q.streams.add tsn data).2.2 : Int) =
      (((q.streams.add tsn data).1.bytes + extra : Nat) : Int) := by omega
  have hqueued : (q.addToStreams tsn data).queuedBytes =
      (q.addToStreams tsn data).streams.bytes + extra := by
    simp only [ReassemblyQueue.addToStreams]
    rw [hcast, toSizeT_natCast (by omega)]
  have hbytes : (q.addToStreams tsn data).streams.bytes = (q.streams.add tsn data).1.bytes := rfl
  exact ⟨hqueued, by omega⟩

theorem Accounted.forwardStreams (h : q.Accounted extra)
    (tsn : Int) (skippedStreams : List SkippedStream) :
    (q.forwardStreams tsn skippedStreams).Accounted extra := by
  have hq := h.queued
  have hb := h.bounded
  have hf := handleForwardTsn_bytes (r := q.streams) (by omega) tsn skippedStreams
  have hcast : (q.queuedBytes - (q.streams.handleForwardTsn tsn skippedStreams).2.2 : Int) =
      (((q.streams.handleForwardTsn tsn skippedStreams).1.bytes + extra : Nat) : Int) := by omega
  have hqueued : (q.forwardStreams tsn skippedStreams).queuedBytes =
      (q.forwardStreams tsn skippedStreams).streams.bytes + extra := by
    simp only [ReassemblyQueue.forwardStreams]
    rw [hcast, toSizeT_natCast (by omega)]
  have hbytes : (q.forwardStreams tsn skippedStreams).streams.bytes =
    (q.streams.handleForwardTsn tsn skippedStreams).1.bytes := rfl
  exact ⟨hqueued, by omega⟩

theorem add_cases (q : ReassemblyQueue) (tsn : TSN) (data : Data) :
    q.add tsn data = addToStreams { q with tsnUnwrapper := (q.tsnUnwrapper.unwrap tsn).2 }
        (q.tsnUnwrapper.unwrap tsn).1 data ∨
      ∃ deferred, q.deferredResetStreams = some deferred ∧ q.add tsn data = { q with
        tsnUnwrapper := (q.tsnUnwrapper.unwrap tsn).2
        queuedBytes := toSizeT (q.queuedBytes + data.size)
        deferredResetStreams := some { deferred with
          deferredActions := deferred.deferredActions ++ [.add tsn data] } } := by
  cases hd : q.deferredResetStreams with
  | none => exact .inl (by simp only [add, hd])
  | some deferred =>
    by_cases hc : deferred.senderLastAssignedTsn < (q.tsnUnwrapper.unwrap tsn).1 ∧
        data.streamId ∈ deferred.streams
    · exact .inr ⟨deferred, rfl, by simp only [add, hd, if_pos hc]⟩
    · exact .inl (by simp only [add, hd, if_neg hc])

theorem Accounted.add (h : q.Accounted q.deferredBytes) {tsn : TSN}
    {data : Data} (hlt : q.queuedBytes + data.size < 2 ^ 31) :
    (q.add tsn data).Accounted (q.add tsn data).deferredBytes := by
  obtain he | ⟨deferred, hd, he⟩ := q.add_cases tsn data
  · rw [he]
    exact Accounted.addToStreams (q := { q with tsnUnwrapper := (q.tsnUnwrapper.unwrap tsn).2 })
      ⟨h.queued, h.bounded⟩ hlt
  · have hq := h.queued
    have hbytes : q.deferredBytes = deferred.bytes := by simp [deferredBytes, hd]
    rw [he, ← Nat.cast_add, toSizeT_natCast (by omega)]
    refine ⟨?_, hlt⟩
    simp only [deferredBytes, Option.elim_some, DeferredResetStreams.bytes, map_append,
      sum_append, map_cons, map_nil, sum_singleton, DeferredAction.bytes]
    simp only [DeferredResetStreams.bytes] at hbytes
    omega

theorem handleForwardTsn_cases (q : ReassemblyQueue) (newCumulativeTsn : TSN)
    (skippedStreams : List SkippedStream) :
    q.handleForwardTsn newCumulativeTsn skippedStreams =
        forwardStreams { q with tsnUnwrapper := (q.tsnUnwrapper.unwrap newCumulativeTsn).2 }
          (q.tsnUnwrapper.unwrap newCumulativeTsn).1 skippedStreams ∨
      ∃ deferred, q.deferredResetStreams = some deferred ∧
        q.handleForwardTsn newCumulativeTsn skippedStreams = { q with
          tsnUnwrapper := (q.tsnUnwrapper.unwrap newCumulativeTsn).2
          deferredResetStreams := some { deferred with
            deferredActions := deferred.deferredActions ++
              [.handleForwardTsn newCumulativeTsn skippedStreams] } } := by
  cases hd : q.deferredResetStreams with
  | none => exact .inl (by simp only [handleForwardTsn, hd])
  | some deferred =>
    by_cases hc : deferred.senderLastAssignedTsn < (q.tsnUnwrapper.unwrap newCumulativeTsn).1
    · exact .inr ⟨deferred, rfl, by simp only [handleForwardTsn, hd, if_pos hc]⟩
    · exact .inl (by simp only [handleForwardTsn, hd, if_neg hc])

theorem Accounted.handleForwardTsn (h : q.Accounted q.deferredBytes)
    (newCumulativeTsn : TSN) (skippedStreams : List SkippedStream) :
    (q.handleForwardTsn newCumulativeTsn skippedStreams).Accounted
      (q.handleForwardTsn newCumulativeTsn skippedStreams).deferredBytes := by
  obtain he | ⟨deferred, hd, he⟩ := q.handleForwardTsn_cases newCumulativeTsn skippedStreams
  · rw [he]
    exact Accounted.forwardStreams
      (q := { q with tsnUnwrapper := (q.tsnUnwrapper.unwrap newCumulativeTsn).2 })
      ⟨h.queued, h.bounded⟩ _ skippedStreams
  · have hq := h.queued
    rw [he]
    refine ⟨?_, h.bounded⟩
    simpa [deferredBytes, hd, DeferredResetStreams.bytes, DeferredAction.bytes] using hq

theorem Accounted.performAction {action : DeferredAction}
    (h : q.Accounted (action.bytes + extra)) (hd : q.deferredResetStreams = none) :
    (q.performAction action).Accounted extra ∧
      (q.performAction action).deferredResetStreams = none := by
  have hq := h.queued
  have hb := h.bounded
  cases action with
  | add tsn data =>
    have hcast : (q.queuedBytes - data.size : Int) = ((q.streams.bytes + extra : Nat) : Int) := by
      simp only [DeferredAction.bytes] at hq
      omega
    have hsize : toSizeT (q.queuedBytes - data.size) = q.streams.bytes + extra := by
      rw [hcast, toSizeT_natCast (by omega)]
    set q₁ : ReassemblyQueue := { q with
      queuedBytes := q.streams.bytes + extra
      tsnUnwrapper := (q.tsnUnwrapper.unwrap tsn).2 }
    have he : q.performAction (.add tsn data) =
        q₁.addToStreams (q.tsnUnwrapper.unwrap tsn).1 data := by
      simp only [ReassemblyQueue.performAction, ReassemblyQueue.add, hd, hsize, q₁]
    rw [he]
    simp only [DeferredAction.bytes] at hq
    have h₁ : q₁.Accounted extra := ⟨rfl, show q.streams.bytes + extra < 2 ^ 31 by omega⟩
    exact ⟨h₁.addToStreams (show q.streams.bytes + extra + data.size < 2 ^ 31 by omega), hd⟩
  | handleForwardTsn newCumulativeTsn skippedStreams =>
    set q₁ : ReassemblyQueue :=
      { q with tsnUnwrapper := (q.tsnUnwrapper.unwrap newCumulativeTsn).2 }
    have he : q.performAction (.handleForwardTsn newCumulativeTsn skippedStreams) =
        q₁.forwardStreams (q.tsnUnwrapper.unwrap newCumulativeTsn).1 skippedStreams := by
      simp only [ReassemblyQueue.performAction, ReassemblyQueue.handleForwardTsn, hd, q₁]
    rw [he]
    simp only [DeferredAction.bytes, Nat.zero_add] at hq
    have h₁ : q₁.Accounted extra := ⟨hq, hb⟩
    exact ⟨h₁.forwardStreams _ skippedStreams, hd⟩

theorem Accounted.performActions (actions : List DeferredAction)
    (h : q.Accounted (actions.map DeferredAction.bytes).sum) (hd : q.deferredResetStreams = none) :
    (actions.foldl ReassemblyQueue.performAction q).Accounted 0 ∧
      (actions.foldl ReassemblyQueue.performAction q).deferredResetStreams = none := by
  induction actions generalizing q with
  | nil => exact ⟨h, hd⟩
  | cons action rest ih =>
    rw [map_cons, sum_cons] at h
    obtain ⟨h', hd'⟩ := h.performAction hd
    exact ih h' hd'

theorem Accounted.resetStreamsAndLeaveDeferredReset
    (h : q.Accounted q.deferredBytes) (streamIds : List StreamID) :
    (q.resetStreamsAndLeaveDeferredReset streamIds).Accounted
      (q.resetStreamsAndLeaveDeferredReset streamIds).deferredBytes := by
  have hr := q.streams.resetStreams_bytes streamIds
  have hq := h.queued
  simp only [ReassemblyQueue.resetStreamsAndLeaveDeferredReset]
  cases hd : q.deferredResetStreams with
  | none =>
    simp only [deferredBytes, hd, Option.elim_none] at hq ⊢
    exact ⟨by simp only [hr, hq], h.bounded⟩
  | some deferred =>
    have hbytes : q.deferredBytes = (deferred.deferredActions.map DeferredAction.bytes).sum := by
      simp [deferredBytes, hd, DeferredResetStreams.bytes]
    obtain ⟨h', hd'⟩ := Accounted.performActions deferred.deferredActions
      (q := { q with streams := q.streams.resetStreams streamIds, deferredResetStreams := none })
      ⟨by simp only [hr, ← hbytes, hq], h.bounded⟩ rfl
    have hzero := congrArg (Option.elim · 0 DeferredResetStreams.bytes) hd'
    simp only [deferredBytes]
    rw [hzero]
    exact h'

theorem Accounted.enterDeferredReset (h : q.Accounted q.deferredBytes)
    (senderLastAssignedTsn : TSN) (streams : List StreamID) :
    (q.enterDeferredReset senderLastAssignedTsn streams).Accounted
      (q.enterDeferredReset senderLastAssignedTsn streams).deferredBytes := by
  cases hd : q.deferredResetStreams with
  | some deferred => simpa only [ReassemblyQueue.enterDeferredReset, hd] using h
  | none =>
    simp only [ReassemblyQueue.enterDeferredReset, hd]
    have hq := h.queued
    simp only [deferredBytes, hd] at hq
    exact ⟨hq, h.bounded⟩

theorem new_accounted (maxSizeBytes : Nat) (useMessageInterleaving : Bool) :
    (new maxSizeBytes useMessageInterleaving).Accounted 0 :=
  ⟨(new_bytes useMessageInterleaving).symm, by simp [new]⟩

inductive Op where
  | add (tsn : TSN) (data : Data)
  | handleForwardTsn (newCumulativeTsn : TSN) (skippedStreams : List SkippedStream)
  | enterDeferredReset (senderLastAssignedTsn : TSN) (streams : List StreamID)
  | resetStreamsAndLeaveDeferredReset (streamIds : List StreamID)
  | flushMessages

structure Run where
  queue : ReassemblyQueue
  added : List TSN

def Run.step (s : Run) : Op → Run
  | .add tsn data => ⟨s.queue.add tsn data, tsn :: s.added⟩
  | .handleForwardTsn newCumulativeTsn skippedStreams =>
    { s with queue := s.queue.handleForwardTsn newCumulativeTsn skippedStreams }
  | .enterDeferredReset senderLastAssignedTsn streams =>
    { s with queue := s.queue.enterDeferredReset senderLastAssignedTsn streams }
  | .resetStreamsAndLeaveDeferredReset streamIds =>
    { s with queue := s.queue.resetStreamsAndLeaveDeferredReset streamIds }
  | .flushMessages => { s with queue := s.queue.flushMessages.2 }

def Run.enabled (s : Run) : Op → Prop
  | .add tsn data => data.payload ≠ [] ∧ tsn ∉ s.added
  | _ => True

def machine : Machine Run Op where
  initial s := ∃ maxSizeBytes useMessageInterleaving, s = ⟨new maxSizeBytes useMessageInterleaving, []⟩
  enabled := Run.enabled
  step s op := some (s.step op)

def Run.HoldsBelow2GiB (s : Run) : Op → Prop
  | .add _ data => s.queue.heldBytes + data.size < 2 ^ 31
  | _ => True

theorem Accounted.step {s : Run} (h : s.queue.Accounted s.queue.deferredBytes) {op : Op}
    (hop : s.HoldsBelow2GiB op) : (s.step op).queue.Accounted (s.step op).queue.deferredBytes := by
  cases op with
  | add tsn data => exact h.add (by rw [h.queued]; exact hop)
  | handleForwardTsn newCumulativeTsn skippedStreams => exact h.handleForwardTsn _ skippedStreams
  | enterDeferredReset senderLastAssignedTsn streams => exact h.enterDeferredReset _ streams
  | resetStreamsAndLeaveDeferredReset streamIds =>
    exact h.resetStreamsAndLeaveDeferredReset streamIds
  | flushMessages => exact ⟨h.queued, h.bounded⟩

def middleFragment (size : Nat) : Data :=
  { streamId := 1, ssn := 0, mid := 0, fsn := 0, ppid := 53, payload := List.replicate size 0
    isBeginning := false, isEnd := false, isUnordered := true }

def fragments : Nat → ChunkMap
  | 0 => ∅
  | n + 1 => (fragments n).upsert (n + 1) fun _ => middleFragment 65519

variable (n : Nat)

theorem find?_fragments (t : Int) :
    (fragments n).find? t = if 1 ≤ t ∧ t ≤ n then some (middleFragment 65519) else none := by
  induction n with
  | zero =>
    have hn : ¬ (1 ≤ t ∧ t ≤ ((0 : Nat) : Int)) := by omega
    rw [if_neg hn]
    rfl
  | succ n ih =>
    rw [fragments, OrdMap.find?_upsert, ih]
    split_ifs <;> first | rfl | omega

theorem fragments_bytes : (fragments n).bytes = n * 65519 := by
  induction n with
  | zero => rfl
  | succ n ih =>
    have hsum := (fragments n).sumBy_upsert (n + 1) (fun _ => middleFragment 65519) Data.size
    have hnone : (fragments n).find? (n + 1) = none := by
      rw [find?_fragments, if_neg (by omega)]
    have hsize : (middleFragment 65519).size = 65519 := length_replicate ..
    rw [hnone, hsize] at hsum
    have hb : (fragments n).sumBy Data.size = n * 65519 := ih
    simp only [Option.elim_none, hb] at hsum
    have he : (fragments (n + 1)).bytes = n * 65519 + 65519 := hsum
    omega

theorem add_middleFragment : UnorderedStream.add ⟨fragments n⟩ (n + 1) (middleFragment 65519) =
      (⟨fragments (n + 1)⟩, [], 65519) := by
  have hnone : (fragments n).find? (n + 1) = none := by
    rw [find?_fragments, if_neg (by omega)]
  have hemp : (fragments n).emplace (n + 1) (middleFragment 65519) = (fragments (n + 1), true) := by
    simp only [ChunkMap.emplace, hnone, fragments]
  have hfind : findMessage (fragments (n + 1)) (n + 1) = none := by
    have hb : findBeginning
        ((fragments (n + 1)).entries.filter fun c => c.1 ≤ (n + 1 : Int)).reverse = none := by
      refine findBeginning_eq_none fun c hc => ?_
      have hm := mem_of_mem_filter (mem_reverse.mp hc)
      have hf := (OrdMap.mem_entries_iff _).mp hm
      rw [find?_fragments] at hf
      split_ifs at hf
      rw [← Option.some.inj hf]
      rfl
    simp only [findMessage, hb, Option.bind_eq_bind, Option.bind_none]
  have hsize : (middleFragment 65519).size = 65519 := length_replicate ..
  have hbe : ¬ ((middleFragment 65519).isBeginning && (middleFragment 65519).isEnd) = true :=
    Bool.false_ne_true
  simp only [UnorderedStream.add, if_neg hbe, hemp, tryToAssembleMessage, hfind, hsize]
  rfl

structure Filled (n : Nat) (s : Run) : Prop where
  reachable : machine.Reachable s
  added : ∀ t ∈ s.added, t.toNat ≤ n
  deferred : s.queue.deferredResetStreams = none
  next : s.queue.tsnUnwrapper.peekUnwrap (wrap 32 (n + 1)) = n + 1
  queued : s.queue.queuedBytes = n * 65519
  streams : ∃ m, s.queue.streams = .traditional ⟨m, ∅⟩ ∧
    (m.find? 1).getD .new = ⟨fragments n⟩ ∧ ∀ j ≠ 1, m.find? j = none

theorem filled_zero : Filled 0 ⟨new 0 false, []⟩ where
  reachable := .initial ⟨0, false, rfl⟩
  added := by simp
  deferred := rfl
  next := by decide
  queued := rfl
  streams := ⟨∅, rfl, rfl, fun _ _ => rfl⟩

theorem Filled.addFragment {n : Nat} {s : Run} (h : Filled n s) (hn : n < 2 ^ 31) :
    Filled (n + 1) (s.step (.add (wrap 32 (n + 1)) (middleFragment 65519))) := by
  have hw : (wrap 32 ((n : Int) + 1)).toNat = n + 1 := by
    have := wrap_toNat (w := 32) (n + 1)
    omega
  obtain ⟨m, hs, hm, hrest⟩ := h.streams
  have hstreams : (TraditionalReassemblyStreams.mk m ∅).add (n + 1) (middleFragment 65519) =
      (⟨m.upsert 1 fun _ => ⟨fragments (n + 1)⟩, ∅⟩, [], 65519) := by
    have hstream : (TraditionalReassemblyStreams.mk m ∅).unorderedStream
        (middleFragment 65519).streamId = ⟨fragments n⟩ := hm
    have hu : (middleFragment 65519).isUnordered = true := rfl
    simp only [TraditionalReassemblyStreams.add, if_pos hu, hstream, add_middleFragment]
    rfl
  have hq : s.queue.add (wrap 32 (n + 1)) (middleFragment 65519) = { s.queue with
      tsnUnwrapper := (s.queue.tsnUnwrapper.unwrap (wrap 32 (n + 1))).2
      streams := .traditional ⟨m.upsert 1 fun _ => ⟨fragments (n + 1)⟩, ∅⟩
      reassembledMessages := s.queue.reassembledMessages ++ []
      queuedBytes := toSizeT (s.queue.queuedBytes + 65519) } := by
    simp only [ReassemblyQueue.add, h.deferred, ReassemblyQueue.addToStreams,
      SeqNumUnwrapper.unwrap_fst, h.next, hs, ReassemblyStreams.add, hstreams]
  refine ⟨?_, ?_, ?_, ?_, ?_, ?_⟩
  · refine h.reachable.step
      (show machine.enabled s (.add (wrap 32 (n + 1)) (middleFragment 65519)) from ⟨?_, ?_⟩) rfl
    · exact ne_nil_of_length_pos (by rw [middleFragment, length_replicate]; decide)
    · intro hmem
      have hle := h.added _ hmem
      omega
  · intro t ht
    rcases mem_cons.mp ht with rfl | ht
    · exact hw.le
    · exact (h.added t ht).trans (Nat.le_succ n)
  · simp only [Run.step, hq, h.deferred]
  · simp only [Run.step, hq]
    refine SeqNumUnwrapper.peekUnwrap_wrap (by decide) _ (by simp) ?_
    rw [SeqNumUnwrapper.unwrap_snd_lastUnwrapped, h.next, Nat.cast_add, Nat.cast_one,
      add_sub_cancel_left]
    norm_num
  · simp only [Run.step, hq, h.queued]
    have hcast : ((n * 65519 : Nat) : Int) + 65519 = (((n + 1) * 65519 : Nat) : Int) := by
      push_cast
      ring
    rw [hcast, toSizeT_natCast (by omega)]
  · refine ⟨m.upsert 1 fun _ => ⟨fragments (n + 1)⟩, by simp only [Run.step, hq], by simp, ?_⟩
    intro j hj
    rw [OrdMap.find?_upsert, if_neg hj, hrest j hj]

theorem exists_filled (hn : n ≤ 2 ^ 31) : ∃ s, Filled n s := by
  induction n with
  | zero => exact ⟨_, filled_zero⟩
  | succ n ih =>
    obtain ⟨s, hs⟩ := ih (by omega)
    exact ⟨_, hs.addFragment (by omega)⟩

theorem eraseTo_fragments {n : Nat} {tsn : Int} (h : n ≤ tsn) : eraseTo ⟨fragments n⟩ tsn =
      (.new, toSizeT (toInt32 ((n * 65519 : Nat) : Int))) := by
  have hall : (fragments n).filterKeys (fun t => t ≤ tsn) = fragments n := by
    refine OrdMap.ext_find? fun t => ?_
    rw [OrdMap.find?_filterKeys, find?_fragments]
    simp only [decide_eq_true_eq]
    split_ifs <;> first | rfl | omega
  have hnone : (fragments n).filterKeys (fun t => !(t ≤ tsn)) = ∅ := by
    refine OrdMap.ext_find? fun t => ?_
    rw [OrdMap.find?_filterKeys, find?_fragments, OrdMap.find?_empty]
    simp only [Bool.not_eq_true', decide_eq_false_iff_not]
    split_ifs <;> first | rfl | omega
  have hsum : ((fragments n).entries.map fun c => c.2.size).sum = n * 65519 := fragments_bytes n
  simp only [eraseTo, hall, hnone, accumulateInt_eq_toInt32, hsum]
  rfl

theorem sumBy_one_stream {m : OrdMap StreamID UnorderedStream} {stream : UnorderedStream}
    (hm : (m.find? 1).getD .new = stream) (hrest : ∀ j ≠ 1, m.find? j = none)
    {f : UnorderedStream → Nat} (hf : f .new = 0) : m.sumBy f = f stream := by
  have hsum := m.sumBy_erase 1 f
  have hempty : m.erase 1 = ∅ := by
    refine OrdMap.ext_find? fun j => ?_
    rw [OrdMap.find?_erase, OrdMap.find?_empty]
    split_ifs with hj
    · rfl
    · exact hrest j hj
  have hzero : (∅ : OrdMap StreamID UnorderedStream).sumBy f = 0 := rfl
  rw [hempty, hzero, Nat.zero_add] at hsum
  rw [← hsum, ← hm]
  cases m.find? 1 with
  | none => exact hf.symm
  | some stream => rfl

end ReassemblyQueue

end WebRtc.DcSctp
