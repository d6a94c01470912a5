import WebRtc.DcSctp.ForwardTsn
import WebRtc.DcSctp.OutstandingRuns

/-! When a FORWARD-TSN leaves no ordered stream waiting for a message it skipped. The sender
announces the numerically largest number of each stream, the receiver unwraps it. -/

namespace WebRtc.DcSctp

open InterleavedReassemblyStreams

open List

section Numbers

variable {w : Nat} {κ : Type}

def SpanLessThanHalf (l : List (κ × BitVec w)) : Prop :=
  ∀ k, ∃ b : BitVec w, ∀ n, (k, n) ∈ l → SerialAtOrAfter n b

/-- The numerically largest number of the key does not precede `n` in serial order. -/
def LargestIsLatest (l : List (κ × BitVec w)) (k : κ) (n : BitVec w) : Prop :=
  ∀ m, (k, m) ∈ l → (∀ n', (k, n') ∈ l → n' ≤ m) → SerialAtOrAfter m n

theorem serialAtOrAfter_total {m n b : BitVec w} (hm : SerialAtOrAfter m b)
    (hn : SerialAtOrAfter n b) : SerialAtOrAfter m n ∨ SerialAtOrAfter n m := by
  have hmn : m - n = m - b - (n - b) := by ring
  have hnm : n - m = n - b - (m - b) := by ring
  simp only [SerialAtOrAfter] at hm hn ⊢
  rcases le_total (n - b) (m - b) with h | h
  · left
    rw [hmn, BitVec.toNat_sub_of_le h]
    omega
  · right
    rw [hnm, BitVec.toNat_sub_of_le h]
    omega

end Numbers

namespace OutstandingData

def skippedSsns (od : OutstandingData) : List (StreamID × SSN) :=
  (od.skippedItems.filter fun item => !item.data.isUnordered).map fun item =>
    (item.data.streamId, item.data.ssn)

def skippedMids (od : OutstandingData) : List (FullStreamId × MID) :=
  od.skippedItems.map fun item => (⟨item.data.isUnordered, item.data.streamId⟩, item.data.mid)

variable (od : OutstandingData)

theorem createForwardTsn_eq : od.createForwardTsn = ⟨wrap 32 od.newCumulativeTsn,
      (largestPerKey od.skippedSsns).entries.map fun e => ⟨e.1, e.2, false, 0⟩⟩ := by
  have hfold : od.skippedItems.foldl skipSsn ∅ = largestPerKey od.skippedSsns := by
    rw [skippedSsns, largestPerKey, foldl_map, foldl_filter]
    congr 1
    funext m item
    cases h : item.data.isUnordered <;> simp [skipSsn, h]
  simp only [createForwardTsn, forward_eq, hfold]

theorem createIForwardTsn_eq : od.createIForwardTsn = ⟨wrap 32 od.newCumulativeTsn,
      (largestPerKey od.skippedMids).entries.map fun e =>
        ⟨e.1.streamId, 0, e.1.unordered, e.2⟩⟩ := by
  have hfold : od.skippedItems.foldl skipMid ∅ = largestPerKey od.skippedMids := by
    rw [skippedMids, largestPerKey, foldl_map]
    rfl
  simp only [createIForwardTsn, forward_eq, hfold]

structure Covered (od : OutstandingData) (item : Item) : Prop where
  mem : item ∈ od.outstandingData
  abandoned : item.isAbandoned
  tsns : ∀ tsn other, od.getItem tsn = some other →
    other.data.streamId = item.data.streamId → other.messageId = item.messageId →
    tsn ≤ od.newCumulativeTsn

variable {od : OutstandingData}

variable {item : Item}

theorem Covered.mem_skippedItems (h : Covered od item) : item ∈ od.skippedItems := by
  obtain ⟨tsn, hget⟩ := getItem_of_mem h.mem
  exact mem_skippedItems_of_le hget (h.tsns tsn item hget rfl rfl)

theorem Covered.mem_skippedSsns (h : Covered od item)
    (ho : item.data.isUnordered = false) : (item.data.streamId, item.data.ssn) ∈ od.skippedSsns :=
  mem_map.mpr ⟨item, mem_filter.mpr ⟨h.mem_skippedItems, by simp [ho]⟩, rfl⟩

theorem Covered.mem_skippedMids (h : Covered od item) (ho : item.data.isUnordered = false) :
    (⟨false, item.data.streamId⟩, item.data.mid) ∈ od.skippedMids :=
  mem_map.mpr ⟨item, h.mem_skippedItems, by rw [ho]⟩

theorem orderedStream_handleForwardTsn (od : OutstandingData) (r : TraditionalReassemblyStreams)
    (tsn : Int) {id : StreamID} {m : SSN} (hm : (largestPerKey od.skippedSsns).find? id = some m) :
    (r.handleForwardTsn tsn od.createForwardTsn.skippedStreams).1.orderedStream id =
      ((r.orderedStream id).eraseTo m).1 := by
  have hdistinct : ((largestPerKey od.skippedSsns).entries.map fun e =>
      (⟨e.1, e.2, false, 0⟩ : SkippedStream)).Pairwise fun a b => a.streamId ≠ b.streamId :=
    pairwise_map.mpr ((largestPerKey od.skippedSsns).sorted.imp fun h => h.ne)
  have hmem := mem_map_of_mem (f := fun e => (⟨e.1, e.2, false, 0⟩ : SkippedStream))
    ((OrdMap.mem_entries_iff _).mpr hm)
  rw [createForwardTsn_eq]
  exact (TraditionalReassemblyStreams.orderedStream_foldl_eraseOrdered hdistinct _).1 _ hmem

theorem getOrCreateStream_handleForwardTsn (od : OutstandingData) (r : InterleavedReassemblyStreams)
    {id : FullStreamId} {m : MID} (hm : (largestPerKey od.skippedMids).find? id = some m) :
    (r.handleForwardTsn od.createIForwardTsn.skippedStreams).1.getOrCreateStream id =
      ((r.getOrCreateStream id).eraseTo m).1 := by
  have hdistinct : ((largestPerKey od.skippedMids).entries.map fun e =>
      (⟨e.1.streamId, 0, e.1.unordered, e.2⟩ : SkippedStream)).Pairwise fun a b =>
        (⟨a.unordered, a.streamId⟩ : FullStreamId) ≠ ⟨b.unordered, b.streamId⟩ :=
    pairwise_map.mpr ((largestPerKey od.skippedMids).sorted.imp fun h => h.ne)
  have hmem := mem_map_of_mem
    (f := fun e => (⟨e.1.streamId, 0, e.1.unordered, e.2⟩ : SkippedStream))
    ((OrdMap.mem_entries_iff _).mpr hm)
  rw [createIForwardTsn_eq]
  exact (getOrCreateStream_foldl_eraseSkipped hdistinct _).1 _ hmem

def NeverStrands (od : OutstandingData) : Prop :=
  ∀ (r : TraditionalReassemblyStreams) (tsn : Int) (item : Item), Covered od item →
    item.data.isUnordered = false →
    ((r.handleForwardTsn tsn od.createForwardTsn.skippedStreams).1.orderedStream
      item.data.streamId).IsPast item.data.ssn

def NeverStrandsInterleaved (od : OutstandingData) : Prop :=
  ∀ (r : InterleavedReassemblyStreams) (item : Item), Covered od item →
    item.data.isUnordered = false →
    ((r.handleForwardTsn od.createIForwardTsn.skippedStreams).1.getOrCreateStream
      ⟨false, item.data.streamId⟩).IsPast item.data.mid

theorem neverStrands_iff (hspan : SpanLessThanHalf od.skippedSsns) :
    NeverStrands od ↔ ∀ item, Covered od item → item.data.isUnordered = false →
      LargestIsLatest od.skippedSsns item.data.streamId item.data.ssn := by
  obtain ⟨hle, hfrom⟩ := largestPerKey_spec od.skippedSsns
  constructor
  · intro hpast item hcov ho m hm hmax
    -- a receiver that waits for the announced SSN shows any SSN after it
    have hitem := hcov.mem_skippedSsns ho
    obtain ⟨m', hfind, hm'⟩ := hle _ hm
    obtain rfl : m' = m := le_antisymm (hmax m' (hfrom _ _ hfind)) hm'
    obtain ⟨b, hb⟩ := hspan item.data.streamId
    by_contra hno
    have hahead := (serialAtOrAfter_total (hb _ hm) (hb _ hitem)).resolve_left hno
    have hne : item.data.ssn ≠ m' := by
      rintro rfl
      exact hno (by simp [SerialAtOrAfter])
    refine OrderedStream.waitingFor_not_isPast hahead hne ?_
    have hp := hpast ⟨∅, (∅ : OrdMap StreamID OrderedStream).upsert item.data.streamId
      fun _ => .waitingFor m'⟩ 0 item hcov ho
    rw [orderedStream_handleForwardTsn od _ 0 hfind] at hp
    simpa [TraditionalReassemblyStreams.orderedStream] using hp
  · intro hlatest r tsn item hcov ho
    obtain ⟨m, hfind, -⟩ := hle _ (hcov.mem_skippedSsns ho)
    have hmax : ∀ n, (item.data.streamId, n) ∈ od.skippedSsns → n ≤ m := by
      intro n hn
      obtain ⟨m', hfind', hn'⟩ := hle _ hn
      cases hfind.symm.trans hfind'
      exact hn'
    rw [orderedStream_handleForwardTsn od r tsn hfind]
    exact (r.orderedStream _).eraseTo_isPast (hlatest item hcov ho m (hfrom _ _ hfind) hmax)

theorem neverStrandsInterleaved_iff (hspan : SpanLessThanHalf od.skippedMids) :
    NeverStrandsInterleaved od ↔ ∀ item, Covered od item → item.data.isUnordered = false →
      LargestIsLatest od.skippedMids ⟨false, item.data.streamId⟩ item.data.mid := by
  obtain ⟨hle, hfrom⟩ := largestPerKey_spec od.skippedMids
  constructor
  · intro hpast item hcov ho m hm hmax
    have hitem := hcov.mem_skippedMids ho
    obtain ⟨m', hfind, hm'⟩ := hle _ hm
    obtain rfl : m' = m := le_antisymm (hmax m' (hfrom _ _ hfind)) hm'
    obtain ⟨b, hb⟩ := hspan ⟨false, item.data.streamId⟩
    by_contra hno
    have hahead := (serialAtOrAfter_total (hb _ hm) (hb _ hitem)).resolve_left hno
    have hne : item.data.mid ≠ m' := by
      rintro rfl
      exact hno (by simp [SerialAtOrAfter])
    refine InterleavedStream.waitingFor_not_isPast item.data.streamId hahead hne ?_
    have hp := hpast (InterleavedReassemblyStreams.new.setStream
      (.waitingFor item.data.streamId m')) item hcov ho
    rw [getOrCreateStream_handleForwardTsn od _ hfind, getOrCreateStream_setStream] at hp
    simpa [InterleavedStream.waitingFor] using hp
  · intro hlatest r item hcov ho
    obtain ⟨m, hfind, -⟩ := hle _ (hcov.mem_skippedMids ho)
    have hmax : ∀ n, ((⟨false, item.data.streamId⟩ : FullStreamId), n) ∈ od.skippedMids → n ≤ m := by
      intro n hn
      obtain ⟨m', hfind', hn'⟩ := hle _ hn
      cases hfind.symm.trans hfind'
      exact hn'
    rw [getOrCreateStream_handleForwardTsn od r hfind]
    refine InterleavedStream.eraseTo_isPast _ ?_ (hlatest item hcov ho m (hfrom _ _ hfind) hmax)
    rw [getOrCreateStream_streamId]

def unreliableInsert (messageId : OutgoingMessageId) (ssn : SSN) : Op :=
  .insert messageId ⟨1, ssn, 0, 0, 53, [1], true, true, false⟩ (.micros 0) 0 .plusInfinity 0

def abandonedTwo (ssn ssn' : SSN) : OutstandingData :=
  let item (messageId : OutgoingMessageId) (ssn : SSN) : Item :=
    { Item.new messageId ⟨1, ssn, 0, 0, 53, [1], true, true, false⟩ (.micros 0) 0 .plusInfinity 0 with
      lifecycle := .kAbandoned
      ackState := .kNacked
      nackCount := 1 }
  { new 16 9 with outstandingData := [item 0 ssn, item 1 ssn'] }

theorem abandonedTwo_reachable : (machine fun _ _ (queue : Unit) => (false, queue)).Reachable
      ⟨abandonedTwo 65535 0, (), false⟩ := by
  have h0 : (machine fun _ _ (queue : Unit) => (false, queue)).Reachable ⟨new 16 9, (), false⟩ :=
    .initial ⟨16, 9, rfl, rfl⟩
  exact h0.run (show Machine.run _ _ [unreliableInsert 0 65535, unreliableInsert 1 0, .nackAll] = _
    from rfl)

end OutstandingData

end WebRtc.DcSctp
