import WebRtc.DcSctp.OutstandingConsistency
import WebRtc.DcSctp.ReassemblyQueue

/-! FORWARD-TSN and I-FORWARD-TSN: what the sender puts into the chunk, and where it leaves the
receiver's ordered streams. -/

namespace WebRtc.DcSctp

open List

def keepLargest {w : Nat} (n : BitVec w) (kept : Option (BitVec w)) : BitVec w :=
  if kept.getD 0 < n then n else kept.getD 0

namespace OutstandingData

variable {μ : Type}

def forwardLoop (od : OutstandingData) (skip : μ → Item → μ) : Int → List Item → Int × μ → Int × μ
  | _, [], s => s
  | tsn, item :: rest, (newCumulativeAck, skipped) =>
    if tsn ∈ od.streamResetBreakpointTsns ∨ tsn ≠ newCumulativeAck + 1 ∨ ¬ item.isAbandoned then
      (newCumulativeAck, skipped)
    else forwardLoop od skip (tsn + 1) rest (tsn, skip skipped item)

def forward (od : OutstandingData) (skip : μ → Item → μ) (skipped : μ) : Int × μ :=
  od.forwardLoop skip (od.lastCumulativeTsnAck + 1) od.outstandingData
    (od.lastCumulativeTsnAck, skipped)

def skipSsn (skipped : OrdMap StreamID SSN) (item : Item) : OrdMap StreamID SSN :=
  if item.data.isUnordered then skipped
  else skipped.upsert item.data.streamId (keepLargest item.data.ssn)

def createForwardTsn (od : OutstandingData) : ForwardTsnChunk :=
  let (newCumulativeAck, skipped) := od.forward skipSsn ∅
  ⟨wrap 32 newCumulativeAck, skipped.entries.map fun e => ⟨e.1, e.2, false, 0⟩⟩

def skipMid (skipped : OrdMap FullStreamId MID) (item : Item) : OrdMap FullStreamId MID :=
  skipped.upsert ⟨item.data.isUnordered, item.data.streamId⟩ (keepLargest item.data.mid)

def createIForwardTsn (od : OutstandingData) : ForwardTsnChunk :=
  let (newCumulativeAck, skipped) := od.forward skipMid ∅
  ⟨wrap 32 newCumulativeAck, skipped.entries.map fun e => ⟨e.1.streamId, 0, e.1.unordered, e.2⟩⟩

def skippedFrom (od : OutstandingData) : Int → List Item → List Item
  | _, [] => []
  | tsn, item :: rest =>
    if tsn ∈ od.streamResetBreakpointTsns ∨ ¬ item.isAbandoned then []
    else item :: skippedFrom od (tsn + 1) rest

def skippedItems (od : OutstandingData) : List Item :=
  od.skippedFrom (od.lastCumulativeTsnAck + 1) od.outstandingData

def newCumulativeTsn (od : OutstandingData) : Int :=
  od.lastCumulativeTsnAck + od.skippedItems.length

variable (od : OutstandingData) (skip : μ → Item → μ)

theorem forwardLoop_eq (items : List Item) (ack : Int) (skipped : μ) :
    od.forwardLoop skip (ack + 1) items (ack, skipped) =
      (ack + (od.skippedFrom (ack + 1) items).length,
        (od.skippedFrom (ack + 1) items).foldl skip skipped) := by
  induction items generalizing ack skipped with
  | nil => simp [forwardLoop, skippedFrom]
  | cons item rest ih =>
    by_cases hstop : ack + 1 ∈ od.streamResetBreakpointTsns ∨ ¬ item.isAbandoned
    · rw [forwardLoop, skippedFrom, if_pos hstop, if_pos (by tauto)]
      simp
    · rw [forwardLoop, skippedFrom, if_neg hstop, if_neg (by simpa using hstop), ih]
      simp only [length_cons, foldl_cons, Nat.cast_add, Nat.cast_one, Prod.mk.injEq, and_true]
      ring

theorem forward_eq (skipped : μ) :
    od.forward skip skipped = (od.newCumulativeTsn, od.skippedItems.foldl skip skipped) :=
  forwardLoop_eq od skip od.outstandingData od.lastCumulativeTsnAck skipped

theorem prefix_skippedFrom (tsn : Int) (items : List Item) :
    od.skippedFrom tsn items <+: items := by
  induction items generalizing tsn with
  | nil => exact prefix_rfl
  | cons item rest ih =>
    simp only [skippedFrom]
    split_ifs
    · exact List.nil_prefix
    · exact cons_prefix_cons.mpr ⟨rfl, ih (tsn + 1)⟩

theorem mem_skippedItems_of_le {od : OutstandingData} {tsn : Int} {item : Item}
    (hget : od.getItem tsn = some item) (hle : tsn ≤ od.newCumulativeTsn) :
    item ∈ od.skippedItems := by
  obtain ⟨i, rfl, hi⟩ := getItem_eq_some.mp hget
  have hlt : i < od.skippedItems.length := by
    rw [newCumulativeTsn] at hle
    omega
  obtain ⟨rest, hrest⟩ : od.skippedItems <+: od.outstandingData := od.prefix_skippedFrom _ _
  rw [← hrest, List.getElem?_append_left hlt] at hi
  exact mem_of_getElem? hi

theorem isAbandoned_of_mem_skippedFrom {od : OutstandingData} {tsn : Int} {items : List Item}
    {item : Item} (h : item ∈ od.skippedFrom tsn items) : item.isAbandoned := by
  induction items generalizing tsn with
  | nil => simp [skippedFrom] at h
  | cons first rest ih =>
    simp only [skippedFrom] at h
    split_ifs at h with hstop
    · simp at h
    · rcases mem_cons.mp h with rfl | h
      · exact not_not.mp fun hn => hstop (.inr hn)
      · exact ih h

end OutstandingData

section Largest

variable {w : Nat} {κ : Type} [LinearOrder κ]

def largestPerKey (l : List (κ × BitVec w)) : OrdMap κ (BitVec w) :=
  l.foldl (fun m e => m.upsert e.1 (keepLargest e.2)) ∅

theorem le_keepLargest (n : BitVec w) (kept : Option (BitVec w)) :
    n ≤ keepLargest n kept ∧ ∀ m ∈ kept, m ≤ keepLargest n kept := by
  simp only [keepLargest]
  split_ifs with h
  · refine ⟨le_refl n, fun m hm => ?_⟩
    rw [Option.mem_def.mp hm] at h
    exact le_of_lt h
  · refine ⟨not_lt.mp h, fun m hm => ?_⟩
    rw [Option.mem_def.mp hm]
    exact le_refl m

theorem keepLargest_eq (n : BitVec w) (kept : Option (BitVec w)) :
    keepLargest n kept = n ∨ kept = some (keepLargest n kept) := by
  simp only [keepLargest]
  split_ifs with h
  · exact .inl rfl
  · cases kept with
    | some m => exact .inr rfl
    | none =>
      refine .inl (le_antisymm ?_ (not_lt.mp h))
      exact BitVec.le_def.mpr (by simp)

theorem largestPerKey_spec (l : List (κ × BitVec w)) :
    (∀ e ∈ l, ∃ m, (largestPerKey l).find? e.1 = some m ∧ e.2 ≤ m) ∧
      ∀ k m, (largestPerKey l).find? k = some m → (k, m) ∈ l := by
  induction l using List.reverseRecOn with
  | nil => simp [largestPerKey]
  | append_singleton l e ih =>
    obtain ⟨hle, hmem⟩ := ih
    have hfind : ∀ k, (largestPerKey (l ++ [e])).find? k =
        if k = e.1 then some (keepLargest e.2 ((largestPerKey l).find? e.1))
        else (largestPerKey l).find? k := by
      intro k
      rw [largestPerKey, foldl_append]
      exact OrdMap.find?_upsert _ _ _ _
    refine ⟨fun e' he' => ?_, fun k m hk => ?_⟩
    · rw [hfind]
      rcases mem_append.mp he' with he' | he'
      · obtain ⟨m, hm, hem⟩ := hle e' he'
        split_ifs with hk
        · rw [hk] at hm
          exact ⟨_, rfl, hem.trans ((le_keepLargest e.2 _).2 m hm)⟩
        · exact ⟨m, hm, hem⟩
      · simp only [mem_singleton] at he'
        subst he'
        exact ⟨_, if_pos rfl, (le_keepLargest e'.2 _).1⟩
    · rw [hfind] at hk
      split_ifs at hk with hke
      · subst hke
        simp only [Option.some.injEq] at hk
        rcases keepLargest_eq e.2 ((largestPerKey l).find? e.1) with h | h
        · rw [← hk, h]
          simp
        · rw [hk] at h
          exact mem_append_left _ (hmem e.1 m h)
      · exact mem_append_left _ (hmem k m hk)

end Largest

section Skipping

variable {w : Nat} {u : SeqNumUnwrapper w} {m n : BitVec w} {next : Int}

theorem peekUnwrap_lt_of_skipped (hw : 0 < w) (hlast : u.lastValue = some m)
    (hnext : u.lastUnwrapped < next) (h : SerialAtOrAfter m n) : u.peekUnwrap n < next := by
  rw [u.peekUnwrap_of_atOrBefore hw hlast h]
  omega

theorem not_peekUnwrap_lt_of_ahead (hw : 0 < w) (hlast : u.lastValue = some m)
    (h : SerialAtOrAfter n m) (hne : n ≠ m) : ¬ u.peekUnwrap n < u.lastUnwrapped + 1 := by
  have hpos : (n - m).toNat ≠ 0 := by
    intro hz
    have hsub : n - m = 0 := BitVec.eq_of_toNat_eq hz
    exact hne (sub_eq_zero.mp hsub)
  rw [u.peekUnwrap_of_atOrAfter hw hlast h]
  omega

theorem peekUnwrap_unwrap_self (hw : 0 < w) (u : SeqNumUnwrapper w) (m : BitVec w) :
    (u.unwrap m).2.peekUnwrap m = u.peekUnwrap m := by
  have hz : SerialAtOrAfter m m := by simp [SerialAtOrAfter]
  rw [(u.unwrap m).2.peekUnwrap_of_atOrAfter hw rfl hz]
  simp

end Skipping

def OrderedStream.IsPast (s : OrderedStream) (ssn : SSN) : Prop :=
  s.ssnUnwrapper.peekUnwrap ssn < s.nextSsn

def InterleavedStream.IsPast (s : InterleavedStream) (mid : MID) : Prop :=
  s.midUnwrapper.peekUnwrap mid < s.nextMid

namespace OrderedStream

variable (s : OrderedStream)

theorem tryToAssembleMessage_next : s.tryToAssembleMessage.1.ssnUnwrapper = s.ssnUnwrapper ∧
      s.nextSsn ≤ s.tryToAssembleMessage.1.nextSsn := by
  simp only [tryToAssembleMessage]
  split
  · exact ⟨rfl, le_refl _⟩
  · split_ifs
    · exact ⟨rfl, le_refl _⟩
    · exact ⟨rfl, le_refl _⟩
    · exact ⟨rfl, by simp⟩

theorem assembleLoop_next (rounds : Nat) (s : OrderedStream) :
    (assembleLoop rounds s).1.ssnUnwrapper = s.ssnUnwrapper ∧
      s.nextSsn ≤ (assembleLoop rounds s).1.nextSsn := by
  induction rounds generalizing s with
  | zero => exact ⟨rfl, le_refl _⟩
  | succ rounds ih =>
    obtain ⟨hu, hn⟩ := s.tryToAssembleMessage_next
    obtain ⟨hu', hn'⟩ := ih s.tryToAssembleMessage.1
    simp only [assembleLoop]
    split_ifs
    · exact ⟨hu, hn⟩
    · exact ⟨hu'.trans hu, hn.trans hn'⟩

theorem eraseTo_next (ssn : SSN) : (s.eraseTo ssn).1.ssnUnwrapper = (s.ssnUnwrapper.unwrap ssn).2 ∧
      s.ssnUnwrapper.peekUnwrap ssn < (s.eraseTo ssn).1.nextSsn := by
  simp only [eraseTo, tryToAssembleMessages]
  obtain ⟨hu, hn⟩ := assembleLoop_next
    (OrdMap.filterKeys s.chunksBySsn fun n => !(n ≤ s.ssnUnwrapper.peekUnwrap ssn)).entries.length
    { s with
      ssnUnwrapper := (s.ssnUnwrapper.unwrap ssn).2
      chunksBySsn := s.chunksBySsn.filterKeys fun n => !(n ≤ s.ssnUnwrapper.peekUnwrap ssn)
      nextSsn := if s.nextSsn ≤ s.ssnUnwrapper.peekUnwrap ssn then
        s.ssnUnwrapper.peekUnwrap ssn + 1 else s.nextSsn }
  refine ⟨hu, lt_of_lt_of_le ?_ hn⟩
  dsimp only
  split_ifs <;> omega

theorem eraseTo_isPast {m n : SSN} (h : SerialAtOrAfter m n) : (s.eraseTo m).1.IsPast n := by
  obtain ⟨hu, hn⟩ := s.eraseTo_next m
  rw [IsPast, hu]
  exact peekUnwrap_lt_of_skipped (by decide) rfl hn h

def waitingFor (m : SSN) : OrderedStream :=
  ⟨∅, (SeqNumUnwrapper.pristine.unwrap m).2, m.toNat⟩

theorem waitingFor_not_isPast {m n : SSN} (h : SerialAtOrAfter n m) (hne : n ≠ m) :
    ¬ ((waitingFor m).eraseTo m).1.IsPast n := by
  have hpeek : (waitingFor m).ssnUnwrapper.peekUnwrap m = m.toNat :=
    peekUnwrap_unwrap_self (by decide) _ m
  have hnext : ((waitingFor m).eraseTo m).1.nextSsn = m.toNat + 1 := by
    simp only [eraseTo, SeqNumUnwrapper.unwrap_fst, hpeek]
    simp [waitingFor, tryToAssembleMessages, assembleLoop, OrdMap.filterKeys,
      EmptyCollection.emptyCollection, OrdMap.empty]
  obtain ⟨hu, -⟩ := (waitingFor m).eraseTo_next m
  rw [IsPast, hu, hnext, ← hpeek]
  exact not_peekUnwrap_lt_of_ahead (by decide) rfl h hne

end OrderedStream

namespace InterleavedStream

variable (s : InterleavedStream)

theorem tryToAssembleMessage_next (mid : Int) :
    (s.tryToAssembleMessage mid).1.midUnwrapper = s.midUnwrapper ∧
      (s.tryToAssembleMessage mid).1.nextMid = s.nextMid := by
  simp only [tryToAssembleMessage]
  split
  · exact ⟨rfl, rfl⟩
  · split_ifs <;> exact ⟨rfl, rfl⟩

theorem assembleLoop_next (rounds : Nat) (s : InterleavedStream) :
    (assembleLoop rounds s).1.midUnwrapper = s.midUnwrapper ∧
      s.nextMid ≤ (assembleLoop rounds s).1.nextMid := by
  induction rounds generalizing s with
  | zero => exact ⟨rfl, le_refl _⟩
  | succ rounds ih =>
    obtain ⟨hu, hn⟩ := s.tryToAssembleMessage_next s.nextMid
    simp only [assembleLoop]
    split_ifs
    · exact ⟨hu, hn.ge⟩
    · obtain ⟨hu', hn'⟩ := ih { (s.tryToAssembleMessage s.nextMid).1 with
        nextMid := (s.tryToAssembleMessage s.nextMid).1.nextMid + 1 }
      refine ⟨hu'.trans hu, le_trans ?_ hn'⟩
      simp [hn]

theorem eraseTo_next (mid : MID) (ho : s.streamId.unordered = false) :
    (s.eraseTo mid).1.midUnwrapper = (s.midUnwrapper.unwrap mid).2 ∧
      s.midUnwrapper.peekUnwrap mid < (s.eraseTo mid).1.nextMid := by
  simp only [eraseTo, ho, tryToAssembleMessages]
  obtain ⟨hu, hn⟩ := assembleLoop_next
    (OrdMap.filterKeys s.chunksByMid fun n => !(n ≤ s.midUnwrapper.peekUnwrap mid)).entries.length
    { s with
      midUnwrapper := (s.midUnwrapper.unwrap mid).2
      chunksByMid := s.chunksByMid.filterKeys fun n => !(n ≤ s.midUnwrapper.peekUnwrap mid)
      nextMid := if s.nextMid ≤ s.midUnwrapper.peekUnwrap mid then
        s.midUnwrapper.peekUnwrap mid + 1 else s.nextMid }
  refine ⟨hu, lt_of_lt_of_le ?_ hn⟩
  dsimp only
  split_ifs <;> omega

theorem eraseTo_isPast (ho : s.streamId.unordered = false) {m n : MID}
    (h : SerialAtOrAfter m n) : (s.eraseTo m).1.IsPast n := by
  obtain ⟨hu, hn⟩ := s.eraseTo_next m ho
  rw [IsPast, hu]
  exact peekUnwrap_lt_of_skipped (by decide) rfl hn h

def waitingFor (streamId : StreamID) (m : MID) : InterleavedStream :=
  ⟨⟨false, streamId⟩, ∅, (SeqNumUnwrapper.pristine.unwrap m).2, m.toNat⟩

theorem waitingFor_not_isPast (streamId : StreamID) {m n : MID} (h : SerialAtOrAfter n m)
    (hne : n ≠ m) : ¬ ((waitingFor streamId m).eraseTo m).1.IsPast n := by
  have hpeek : (waitingFor streamId m).midUnwrapper.peekUnwrap m = m.toNat :=
    peekUnwrap_unwrap_self (by decide) _ m
  have hnext : ((waitingFor streamId m).eraseTo m).1.nextMid = m.toNat + 1 := by
    simp only [eraseTo, SeqNumUnwrapper.unwrap_fst, hpeek]
    simp [waitingFor, tryToAssembleMessages, assembleLoop, OrdMap.filterKeys,
      EmptyCollection.emptyCollection, OrdMap.empty]
  obtain ⟨hu, -⟩ := (waitingFor streamId m).eraseTo_next m rfl
  rw [IsPast, hu, hnext, ← hpeek]
  exact not_peekUnwrap_lt_of_ahead (by decide) rfl h hne

end InterleavedStream

variable {l : List SkippedStream}

namespace TraditionalReassemblyStreams

theorem orderedStream_eraseOrdered (s : TraditionalReassemblyStreams × List Assembled × Nat)
    (skipped : SkippedStream) (id : StreamID) : (eraseOrdered s skipped).1.orderedStream id =
      if id = skipped.streamId then ((s.1.orderedStream id).eraseTo skipped.ssn).1
      else s.1.orderedStream id := by
  simp only [eraseOrdered, orderedStream, OrdMap.find?_upsert]
  split_ifs with h
  · rw [h]
    rfl
  · rfl

theorem orderedStream_foldl_eraseOrdered (hl : l.Pairwise fun a b => a.streamId ≠ b.streamId)
    (s : TraditionalReassemblyStreams × List Assembled × Nat) :
    (∀ skipped ∈ l, (l.foldl eraseOrdered s).1.orderedStream skipped.streamId =
        ((s.1.orderedStream skipped.streamId).eraseTo skipped.ssn).1) ∧
      ∀ id, (∀ skipped ∈ l, id ≠ skipped.streamId) →
        (l.foldl eraseOrdered s).1.orderedStream id = s.1.orderedStream id := by
  induction l generalizing s with
  | nil => simp
  | cons a rest ih =>
    obtain ⟨hhead, hrest⟩ := pairwise_cons.mp hl
    obtain ⟨hmem, hother⟩ := ih hrest (eraseOrdered s a)
    rw [foldl_cons]
    refine ⟨fun skipped hs => ?_, fun id hid => ?_⟩
    · rcases mem_cons.mp hs with rfl | hs
      · rw [hother _ fun b hb => hhead b hb, orderedStream_eraseOrdered, if_pos rfl]
      · rw [hmem skipped hs, orderedStream_eraseOrdered, if_neg (hhead skipped hs).symm]
    · rw [hother id fun b hb => hid b (mem_cons_of_mem _ hb), orderedStream_eraseOrdered,
        if_neg (hid a mem_cons_self)]

end TraditionalReassemblyStreams

namespace InterleavedReassemblyStreams

theorem getOrCreateStream_eraseSkipped (s : InterleavedReassemblyStreams × List Assembled × Nat)
    (skipped : SkippedStream) (id : FullStreamId) :
    (eraseSkipped s skipped).1.getOrCreateStream id =
      if id = ⟨skipped.unordered, skipped.streamId⟩ then
        ((s.1.getOrCreateStream id).eraseTo skipped.mid).1 else s.1.getOrCreateStream id := by
  simp only [eraseSkipped]
  rw [getOrCreateStream_setStream, InterleavedStream.eraseTo_streamId, getOrCreateStream_streamId]
  split_ifs with h
  · rw [h]
  · rfl

theorem getOrCreateStream_foldl_eraseSkipped (hl : l.Pairwise fun a b =>
      (⟨a.unordered, a.streamId⟩ : FullStreamId) ≠ ⟨b.unordered, b.streamId⟩)
    (s : InterleavedReassemblyStreams × List Assembled × Nat) : (∀ skipped ∈ l,
        (l.foldl eraseSkipped s).1.getOrCreateStream ⟨skipped.unordered, skipped.streamId⟩ =
          ((s.1.getOrCreateStream ⟨skipped.unordered, skipped.streamId⟩).eraseTo skipped.mid).1) ∧
      ∀ id, (∀ skipped ∈ l, id ≠ ⟨skipped.unordered, skipped.streamId⟩) →
        (l.foldl eraseSkipped s).1.getOrCreateStream id = s.1.getOrCreateStream id := by
  induction l generalizing s with
  | nil => simp
  | cons a rest ih =>
    obtain ⟨hhead, hrest⟩ := pairwise_cons.mp hl
    obtain ⟨hmem, hother⟩ := ih hrest (eraseSkipped s a)
    rw [foldl_cons]
    refine ⟨fun skipped hs => ?_, fun id hid => ?_⟩
    · rcases mem_cons.mp hs with rfl | hs
      · rw [hother _ fun b hb => hhead b hb, getOrCreateStream_eraseSkipped, if_pos rfl]
      · rw [hmem skipped hs, getOrCreateStream_eraseSkipped, if_neg (hhead skipped hs).symm]
    · rw [hother id fun b hb => hid b (mem_cons_of_mem _ hb), getOrCreateStream_eraseSkipped,
        if_neg (hid a mem_cons_self)]

end InterleavedReassemblyStreams

end WebRtc.DcSctp
