import WebRtc.DcSctp.ReassemblyQueue

/-! The payload bytes that reassembly streams hold. While they stay below `2 ^ 31`, every byte count
that an operation of a stream reports is the change in what it holds. -/

namespace WebRtc.DcSctp

theorem toInt32_eq_self {x : Int} (hl : -2 ^ 31 ≤ x) (hu : x < 2 ^ 31) : toInt32 x = x := by
  simp only [toInt32, Int.bmod]
  omega

theorem toInt32_size_sub {size bytes : Nat} (hs : size < 2 ^ 31) (hb : bytes < 2 ^ 31) :
    toInt32 (toSizeT (toInt32 size) - bytes) = (size : Int) - bytes := by
  rw [toInt32_of_lt hs, toSizeT_natCast (by omega), toInt32_eq_self (by omega) (by omega)]

/-- An addition of `size` bytes that reports `delta` turned `before` bytes into `after`. -/
structure Grows (before after size : Nat) (delta : Int) : Prop where
  after_eq : (after : Int) = before + delta
  after_le : after ≤ before + size

theorem Grows.of_released {before after size bytes : Nat} (h : after + bytes = before + size)
    (hlt : before + size < 2 ^ 31) :
    Grows before after size (toInt32 (toSizeT (toInt32 size) - bytes)) := by
  rw [toInt32_size_sub (by omega) (by omega)]
  exact ⟨by omega, by omega⟩

theorem Grows.of_part {before after size total total' : Nat} {delta : Int}
    (h : Grows before after size delta) (ht : total' + before = total + after) :
    Grows total total' size delta := by
  obtain ⟨heq, hle⟩ := h
  exact ⟨by omega, by omega⟩

namespace ChunkMap

theorem emplace_bytes (chunks : ChunkMap) (tsn : Int) (data : Data) :
    bytes (chunks.emplace tsn data).1 =
      bytes chunks + if (chunks.emplace tsn data).2 then data.size else 0 := by
  cases h : chunks.find? tsn with
  | some d => simp [emplace, h]
  | none =>
    have hsum := chunks.sumBy_upsert tsn (fun _ => data) Data.size
    rw [h] at hsum
    simpa [emplace, h, bytes] using hsum

end ChunkMap

variable (tsn : Int)

namespace UnorderedStream

def bytes (s : UnorderedStream) : Nat := s.chunks.bytes

theorem prefix_findBeginning_reverse {l start : List (Int × Data)} (h : findBeginning l = some start) :
    start.reverse <+: l := by
  induction l generalizing start with
  | nil => simp [findBeginning] at h
  | cons iter before ih =>
    simp only [findBeginning] at h
    split_ifs at h with hb
    · cases h
      exact ⟨before, rfl⟩
    · cases before with
      | nil => simp at h
      | cons prev rest =>
        simp only at h
        split_ifs at h with hc
        obtain ⟨start', hs, rfl⟩ := Option.map_eq_some_iff.mp h
        simpa using ih hs

theorem findBeginning_eq_none {l : List (Int × Data)} (h : ∀ c ∈ l, c.2.isBeginning = false) :
    findBeginning l = none := by
  induction l with
  | nil => rfl
  | cons iter before ih =>
    have hrest := ih fun c hc => h c (List.mem_cons_of_mem _ hc)
    cases before with
    | nil => simp [findBeginning, h iter List.mem_cons_self]
    | cons prev rest =>
      rw [findBeginning, hrest]
      simp [h iter List.mem_cons_self]

theorem prefix_findEnd {l message : List (Int × Data)} (h : findEnd l = some message) :
    message <+: l := by
  induction l generalizing message with
  | nil => simp [findEnd] at h
  | cons iter after ih =>
    simp only [findEnd] at h
    split_ifs at h with he
    · cases h
      exact ⟨after, rfl⟩
    · cases after with
      | nil => simp at h
      | cons next rest =>
        simp only at h
        split_ifs at h with hc
        obtain ⟨message', hm, rfl⟩ := Option.map_eq_some_iff.mp h
        simpa using ih hm

theorem findMessage_sublist {chunks : ChunkMap} {tsn : Int} {message : List (Int × Data)}
    (h : findMessage chunks tsn = some message) : message.Sublist chunks.entries := by
  simp only [findMessage, Option.bind_eq_bind, Option.bind_eq_some_iff] at h
  obtain ⟨start, hstart, rest, hrest, he⟩ := h
  cases he
  have hs := (prefix_findBeginning_reverse hstart).sublist.reverse
  rw [List.reverse_reverse, List.reverse_reverse] at hs
  have hr := ((prefix_findEnd hrest).sublist.tail).trans (chunks.tail_filter_ge_sublist tsn)
  have happ := hs.append hr
  rwa [chunks.filter_le_append_filter_gt] at happ

variable {s : UnorderedStream}

theorem tryToAssembleMessage_bytes (h : s.bytes < 2 ^ 31) (tsn : Int) :
    (s.tryToAssembleMessage tsn).1.bytes + (s.tryToAssembleMessage tsn).2.2 = s.bytes := by
  cases hm : findMessage s.chunks tsn with
  | none => simp [tryToAssembleMessage, hm]
  | some message =>
    have hsub := findMessage_sublist hm
    have hsum := s.chunks.sumBy_filterKeys_add
      (fun t => (message.map Prod.fst).contains t) Data.size
    have hkept : (s.chunks.filterKeys fun t => (message.map Prod.fst).contains t).sumBy Data.size =
        (message.map fun c => c.2.size).sum := by
      rw [OrdMap.sumBy, s.chunks.filterKeys_eq_of_sublist hsub]
    have hb : s.bytes = s.chunks.sumBy Data.size := rfl
    have ha : assembledBytes message = (message.map fun c => c.2.size).sum :=
      assembledBytes_eq (by omega)
    simp only [tryToAssembleMessage, hm, bytes, ChunkMap.bytes, ha]
    omega

theorem add_bytes {data : Data} (h : s.bytes + data.size < 2 ^ 31) :
    Grows s.bytes (s.add tsn data).1.bytes data.size (s.add tsn data).2.2 := by
  by_cases hbe : (data.isBeginning && data.isEnd) = true
  · simp only [add, if_pos hbe]
    exact ⟨by simp, by omega⟩
  · have hemp := s.chunks.emplace_bytes tsn data
    cases hi : (s.chunks.emplace tsn data).2 with
    | false =>
      simp only [add, if_neg hbe, hi, Bool.not_false, if_true]
      exact ⟨by simp, by omega⟩
    | true =>
      rw [hi, if_pos rfl] at hemp
      have hb : (UnorderedStream.mk (s.chunks.emplace tsn data).1).bytes = s.bytes + data.size := hemp
      have ht := tryToAssembleMessage_bytes (s := ⟨(s.chunks.emplace tsn data).1⟩) (by omega) tsn
      simp only [add, if_neg hbe, hi, Bool.not_true, Bool.false_eq_true, if_false]
      exact .of_released (ht.trans hb) h

theorem eraseTo_bytes (h : s.bytes < 2 ^ 31) (tsn : Int) :
    (s.eraseTo tsn).1.bytes + (s.eraseTo tsn).2 = s.bytes := by
  have hsum := s.chunks.sumBy_filterKeys_add (fun t => t ≤ tsn) Data.size
  have hb : s.bytes = s.chunks.sumBy Data.size := rfl
  have he := toSizeT_accumulateInt
    (show ((s.chunks.filterKeys fun t => t ≤ tsn).entries.map fun c => c.2.size).sum < 2 ^ 31 by
      rw [OrdMap.sumBy] at hsum; omega)
  simp only [eraseTo, he, bytes, ChunkMap.bytes]
  rw [OrdMap.sumBy] at hsum
  omega

end UnorderedStream

namespace OrderedStream

def bytes (s : OrderedStream) : Nat := s.chunksBySsn.sumBy ChunkMap.bytes

variable {s : OrderedStream}

theorem tryToAssembleMessage_bytes (h : s.bytes < 2 ^ 31) :
    s.tryToAssembleMessage.1.bytes + s.tryToAssembleMessage.2.2 = s.bytes := by
  simp only [tryToAssembleMessage]
  split
  · rfl
  · next ssn chunks rest hentries =>
    split_ifs
    · rfl
    · rfl
    · have hfind : s.chunksBySsn.find? ssn = some chunks :=
        s.chunksBySsn.mem_entries_iff.mp (by simp [hentries])
      have hsum := s.chunksBySsn.sumBy_erase ssn ChunkMap.bytes
      rw [hfind, Option.elim_some] at hsum
      have hb : s.bytes = s.chunksBySsn.sumBy ChunkMap.bytes := rfl
      have ha : assembledBytes chunks.entries = chunks.bytes :=
        assembledBytes_eq (show chunks.bytes < 2 ^ 31 by omega)
      rw [ha]
      exact hsum

theorem assembleLoop_bytes (rounds : Nat) (h : s.bytes < 2 ^ 31) :
    (assembleLoop rounds s).1.bytes + (assembleLoop rounds s).2.2 = s.bytes := by
  induction rounds generalizing s with
  | zero => rfl
  | succ rounds ih =>
    have ht := tryToAssembleMessage_bytes h
    simp only [assembleLoop]
    generalize s.tryToAssembleMessage = first at ht ⊢
    obtain ⟨s₁, messages, released⟩ := first
    simp only at ht ⊢
    have hr := ih (s := s₁) (by omega)
    generalize assembleLoop rounds s₁ = rest at hr ⊢
    obtain ⟨s₂, messages', released'⟩ := rest
    simp only at hr ⊢
    split_ifs with hz
    · simp only
      omega
    · simp only
      rw [← Nat.cast_add, toSizeT_natCast (by omega)]
      omega

theorem tryToAssembleMessages_bytes (h : s.bytes < 2 ^ 31) :
    s.tryToAssembleMessages.1.bytes + s.tryToAssembleMessages.2.2 = s.bytes :=
  assembleLoop_bytes _ h

theorem emplace_bytes (s : OrderedStream) (ssn tsn : Int) (data : Data) :
    (s.emplace ssn tsn data).1.bytes =
      s.bytes + if (s.emplace ssn tsn data).2 then data.size else 0 := by
  have hmap := ((s.chunksBySsn.find? ssn).getD ∅).emplace_bytes tsn data
  have hsum := s.chunksBySsn.sumBy_overwrite ssn (d := ∅)
    (((s.chunksBySsn.find? ssn).getD ∅).emplace tsn data).1 (f := ChunkMap.bytes) rfl
  have hb : (s.emplace ssn tsn data).1.bytes = (s.chunksBySsn.upsert ssn fun _ =>
    (((s.chunksBySsn.find? ssn).getD ∅).emplace tsn data).1).sumBy ChunkMap.bytes := rfl
  have hi : (s.emplace ssn tsn data).2 =
    (((s.chunksBySsn.find? ssn).getD ∅).emplace tsn data).2 := rfl
  have hs : s.bytes = s.chunksBySsn.sumBy ChunkMap.bytes := rfl
  rw [hb, hi]
  omega

theorem tryToAssembleMessagesFastpath_bytes (ssn tsn : Int) {data : Data}
    (h : s.bytes + data.size < 2 ^ 31) : (s.tryToAssembleMessagesFastpath ssn tsn data).1.bytes +
      (s.tryToAssembleMessagesFastpath ssn tsn data).2.2 = s.bytes + data.size := by
  by_cases hbe : (data.isBeginning && data.isEnd) = true
  · have ht := tryToAssembleMessages_bytes (s := { s with nextSsn := s.nextSsn + 1 })
      (show s.bytes < 2 ^ 31 by omega)
    simp only [tryToAssembleMessagesFastpath, if_pos hbe]
    generalize tryToAssembleMessages { s with nextSsn := s.nextSsn + 1 } = rest at ht ⊢
    obtain ⟨s₁, messages, released⟩ := rest
    have hle : s₁.bytes + released = s.bytes := ht
    simp only
    rw [← Nat.cast_add, toSizeT_natCast (by omega)]
    omega
  · have hemp := s.emplace_bytes ssn tsn data
    cases hi : (s.emplace ssn tsn data).2 with
    | false =>
      rw [hi] at hemp
      simp only [tryToAssembleMessagesFastpath, if_neg hbe, hi, Bool.not_false, if_true, hemp]
      rfl
    | true =>
      rw [hi, if_pos rfl] at hemp
      have ht := tryToAssembleMessages_bytes (s := (s.emplace ssn tsn data).1) (by omega)
      simp only [tryToAssembleMessagesFastpath, if_neg hbe, hi, Bool.not_true, Bool.false_eq_true,
        if_false]
      omega

theorem add_bytes {data : Data} (h : s.bytes + data.size < 2 ^ 31) :
    Grows s.bytes (s.add tsn data).1.bytes data.size (s.add tsn data).2.2 := by
  set s₁ : OrderedStream := { s with ssnUnwrapper := (s.ssnUnwrapper.unwrap data.ssn).2 }
  have hb : s₁.bytes = s.bytes := rfl
  by_cases hn : (s.ssnUnwrapper.unwrap data.ssn).1 = s.nextSsn
  · have hf := tryToAssembleMessagesFastpath_bytes (s.ssnUnwrapper.unwrap data.ssn).1 tsn
      (show s₁.bytes + data.size < 2 ^ 31 by omega)
    have he : s.add tsn data = ((s₁.tryToAssembleMessagesFastpath _ tsn data).1,
        (s₁.tryToAssembleMessagesFastpath _ tsn data).2.1, _) := if_pos hn
    rw [he]
    exact .of_released hf (by omega)
  · have hemp := s₁.emplace_bytes (s.ssnUnwrapper.unwrap data.ssn).1 tsn data
    have he : s.add tsn data = ((s₁.emplace (s.ssnUnwrapper.unwrap data.ssn).1 tsn data).1, [],
        if (s₁.emplace (s.ssnUnwrapper.unwrap data.ssn).1 tsn data).2 then toInt32 data.size
          else 0) := if_neg hn
    rw [he, toInt32_of_lt (by omega)]
    rw [hb] at hemp
    split_ifs at hemp ⊢
    · exact ⟨by simp only [hemp, Nat.cast_add], hemp.le⟩
    · exact ⟨by simp only [hemp, Nat.add_zero, Int.add_zero], by simp only [hemp]; omega⟩

theorem erased_bytes {m : OrdMap Int ChunkMap} (h : m.sumBy ChunkMap.bytes < 2 ^ 31) :
    toSizeT (accumulateInt (m.entries.map fun c =>
      toSizeT (accumulateInt (c.2.entries.map fun d => d.2.size)))) = m.sumBy ChunkMap.bytes := by
  have hinner : m.entries.map (fun c =>
      toSizeT (accumulateInt (c.2.entries.map fun d => d.2.size))) =
      m.entries.map fun c => c.2.bytes := by
    refine List.map_congr_left fun c hc => ?_
    have hle := m.le_sumBy (m.mem_entries_iff.mp hc) ChunkMap.bytes
    exact toSizeT_accumulateInt (show c.2.bytes < 2 ^ 31 by omega)
  rw [hinner]
  exact toSizeT_accumulateInt h

theorem eraseTo_bytes (h : s.bytes < 2 ^ 31) (ssn : SSN) :
    (s.eraseTo ssn).1.bytes + (s.eraseTo ssn).2.2 = s.bytes := by
  have hsum := s.chunksBySsn.sumBy_filterKeys_add
    (fun n => n ≤ (s.ssnUnwrapper.unwrap ssn).1) ChunkMap.bytes
  have hb : s.bytes = s.chunksBySsn.sumBy ChunkMap.bytes := rfl
  set kept : OrderedStream := { s with
    ssnUnwrapper := (s.ssnUnwrapper.unwrap ssn).2
    chunksBySsn := s.chunksBySsn.filterKeys fun n => !(n ≤ (s.ssnUnwrapper.unwrap ssn).1)
    nextSsn := if s.nextSsn ≤ (s.ssnUnwrapper.unwrap ssn).1
      then (s.ssnUnwrapper.unwrap ssn).1 + 1 else s.nextSsn } with hkept
  have hk : kept.bytes = (s.chunksBySsn.filterKeys
    fun n => !(n ≤ (s.ssnUnwrapper.unwrap ssn).1)).sumBy ChunkMap.bytes := rfl
  have ht := tryToAssembleMessages_bytes (s := kept) (by omega)
  simp only [eraseTo]
  rw [← hkept, erased_bytes (by omega)]
  generalize kept.tryToAssembleMessages = rest at ht ⊢
  obtain ⟨s₁, messages, released⟩ := rest
  simp only at ht ⊢
  rw [← Nat.cast_add, toSizeT_natCast (by omega)]
  omega

end OrderedStream

namespace TraditionalReassemblyStreams

def bytes (r : TraditionalReassemblyStreams) : Nat :=
  r.unorderedStreams.sumBy UnorderedStream.bytes + r.orderedStreams.sumBy OrderedStream.bytes

variable {r : TraditionalReassemblyStreams}

theorem add_bytes {data : Data} (h : r.bytes + data.size < 2 ^ 31) :
    Grows r.bytes (r.add tsn data).1.bytes data.size (r.add tsn data).2.2 := by
  have hr : r.bytes = r.unorderedStreams.sumBy UnorderedStream.bytes +
    r.orderedStreams.sumBy OrderedStream.bytes := rfl
  by_cases hu : data.isUnordered = true
  · have hle : (r.unorderedStream data.streamId).bytes ≤ _ :=
      r.unorderedStreams.getD_le_sumBy data.streamId (d := .new) (f := UnorderedStream.bytes) rfl
    have hsum := r.unorderedStreams.sumBy_overwrite data.streamId (d := .new)
      ((r.unorderedStream data.streamId).add tsn data).1 (f := UnorderedStream.bytes) rfl
    have hs := UnorderedStream.add_bytes tsn
      (show (r.unorderedStream data.streamId).bytes + data.size < 2 ^ 31 by omega)
    simp only [add, if_pos hu]
    exact hs.of_part (by simp only [bytes, unorderedStream] at hsum ⊢; omega)
  · have hle : (r.orderedStream data.streamId).bytes ≤ _ :=
      r.orderedStreams.getD_le_sumBy data.streamId (d := .new) (f := OrderedStream.bytes) rfl
    have hsum := r.orderedStreams.sumBy_overwrite data.streamId (d := .new)
      ((r.orderedStream data.streamId).add tsn data).1 (f := OrderedStream.bytes) rfl
    have hs := OrderedStream.add_bytes tsn
      (show (r.orderedStream data.streamId).bytes + data.size < 2 ^ 31 by omega)
    simp only [add, if_neg hu]
    exact hs.of_part (by simp only [bytes, orderedStream] at hsum ⊢; omega)

theorem eraseUnordered_bytes (h : r.bytes < 2 ^ 31) (tsn : Int) :
    (r.eraseUnordered tsn).1.bytes + (r.eraseUnordered tsn).2 = r.bytes := by
  have hr : r.bytes = r.unorderedStreams.sumBy UnorderedStream.bytes +
    r.orderedStreams.sumBy OrderedStream.bytes := rfl
  have hsum : r.unorderedStreams.sumBy (fun s => (s.eraseTo tsn).1.bytes) +
      r.unorderedStreams.sumBy (fun s => (s.eraseTo tsn).2) =
      r.unorderedStreams.sumBy UnorderedStream.bytes := by
    rw [← OrdMap.sumBy_add]
    refine r.unorderedStreams.sumBy_congr fun k s hs => ?_
    have hle := r.unorderedStreams.le_sumBy hs UnorderedStream.bytes
    exact UnorderedStream.eraseTo_bytes (by omega) tsn
  have hmap := r.unorderedStreams.sumBy_mapValues (fun _ s => (s.eraseTo tsn).1)
    UnorderedStream.bytes (fun s => (s.eraseTo tsn).1.bytes) fun _ _ => rfl
  simp only [eraseUnordered, bytes, hmap]
  rw [toSizeT_natCast (by omega)]
  omega

theorem eraseOrdered_bytes {s : TraditionalReassemblyStreams × List Assembled × Nat} {total : Nat}
    (h : s.1.bytes + s.2.2 = total) (ht : total < 2 ^ 31) (skipped : SkippedStream) :
    (eraseOrdered s skipped).1.bytes + (eraseOrdered s skipped).2.2 = total := by
  obtain ⟨r, messages, removed⟩ := s
  simp only at h
  have hr : r.bytes = r.unorderedStreams.sumBy UnorderedStream.bytes +
    r.orderedStreams.sumBy OrderedStream.bytes := rfl
  have hle : (r.orderedStream skipped.streamId).bytes ≤ _ :=
    r.orderedStreams.getD_le_sumBy skipped.streamId (d := .new) (f := OrderedStream.bytes) rfl
  have hs := OrderedStream.eraseTo_bytes (s := r.orderedStream skipped.streamId) (by omega)
    skipped.ssn
  have hsum := r.orderedStreams.sumBy_overwrite skipped.streamId (d := .new)
    ((r.orderedStream skipped.streamId).eraseTo skipped.ssn).1 (f := OrderedStream.bytes) rfl
  simp only [eraseOrdered, bytes]
  simp only [orderedStream] at hs hsum hle ⊢
  generalize OrderedStream.eraseTo _ skipped.ssn = erased at hs hsum ⊢
  obtain ⟨stream, messages', removed'⟩ := erased
  simp only at hs hsum ⊢
  rw [← Nat.cast_add, toSizeT_natCast (by omega)]
  omega

theorem handleForwardTsn_bytes (h : r.bytes < 2 ^ 31) (tsn : Int)
    (skippedStreams : List SkippedStream) : (r.handleForwardTsn tsn skippedStreams).1.bytes +
      (r.handleForwardTsn tsn skippedStreams).2.2 = r.bytes := by
  have hfold : ∀ (l : List SkippedStream) (s : TraditionalReassemblyStreams × List Assembled × Nat),
      s.1.bytes + s.2.2 = r.bytes →
      (l.foldl eraseOrdered s).1.bytes + (l.foldl eraseOrdered s).2.2 = r.bytes := by
    intro l
    induction l with
    | nil => exact fun s hs => hs
    | cons skipped rest ih => exact fun s hs => ih _ (eraseOrdered_bytes hs h skipped)
  exact hfold skippedStreams _ (eraseUnordered_bytes h tsn)

theorem resetStreams_bytes (r : TraditionalReassemblyStreams) (streamIds : List StreamID) :
    (r.resetStreams streamIds).bytes = r.bytes := by
  have hmap := r.orderedStreams.sumBy_mapValues (fun streamId stream =>
    if streamIds.isEmpty || streamIds.contains streamId then stream.reset else stream)
    OrderedStream.bytes OrderedStream.bytes fun k s => by split_ifs <;> rfl
  simp only [resetStreams, bytes, hmap]

end TraditionalReassemblyStreams

namespace InterleavedStream

def bytes (s : InterleavedStream) : Nat := s.chunksByMid.sumBy FragmentMap.bytes

variable {s : InterleavedStream}

theorem tryToAssembleMessage_bytes (h : s.bytes < 2 ^ 31) (mid : Int) :
    (s.tryToAssembleMessage mid).1.bytes + (s.tryToAssembleMessage mid).2.2 = s.bytes := by
  have hb : s.bytes = s.chunksByMid.sumBy FragmentMap.bytes := rfl
  cases hf : s.chunksByMid.find? mid with
  | none => simp only [tryToAssembleMessage, hf, Nat.add_zero]
  | some chunks =>
    simp only [tryToAssembleMessage, hf]
    split_ifs
    · rfl
    · have hsum := s.chunksByMid.sumBy_erase mid FragmentMap.bytes
      rw [hf, Option.elim_some] at hsum
      have hmap : ((chunks.entries.map Prod.snd).map fun c => c.2.size).sum = chunks.bytes := by
        rw [List.map_map]
        rfl
      have ha : assembledBytes (chunks.entries.map Prod.snd) = chunks.bytes :=
        (assembledBytes_eq (by omega)).trans hmap
      rw [ha]
      exact hsum

theorem assembleLoop_bytes (rounds : Nat) (h : s.bytes < 2 ^ 31) :
    (assembleLoop rounds s).1.bytes + (assembleLoop rounds s).2.2 = s.bytes := by
  induction rounds generalizing s with
  | zero => rfl
  | succ rounds ih =>
    have ht := tryToAssembleMessage_bytes h s.nextMid
    simp only [assembleLoop]
    generalize s.tryToAssembleMessage s.nextMid = first at ht ⊢
    obtain ⟨s₁, messages, released⟩ := first
    simp only at ht ⊢
    have hr := ih (s := { s₁ with nextMid := s₁.nextMid + 1 }) (show s₁.bytes < 2 ^ 31 by omega)
    generalize assembleLoop rounds { s₁ with nextMid := s₁.nextMid + 1 } = rest at hr ⊢
    obtain ⟨s₂, messages', released'⟩ := rest
    have hr' : s₂.bytes + released' = s₁.bytes := hr
    split_ifs with hz
    · simp only
      omega
    · simp only
      rw [← Nat.cast_add, toSizeT_natCast (by omega)]
      omega

theorem emplace_bytes (s : InterleavedStream) (mid tsn : Int) (data : Data) :
    (s.emplace mid tsn data).1.bytes =
      s.bytes + if (s.emplace mid tsn data).2 then data.size else 0 := by
  cases hf : OrdMap.find? ((s.chunksByMid.find? mid).getD ∅) data.fsn with
  | some c =>
    have he : s.emplace mid tsn data = (s, false) := by simp only [emplace, hf]
    rw [he]
    rfl
  | none =>
    have hfrag := OrdMap.sumBy_upsert ((s.chunksByMid.find? mid).getD ∅) data.fsn
      (fun _ => (tsn, data)) fun c => c.2.size
    rw [hf] at hfrag
    have hsum := s.chunksByMid.sumBy_overwrite mid (d := ∅)
      (OrdMap.upsert ((s.chunksByMid.find? mid).getD ∅) data.fsn fun _ => (tsn, data))
      (f := FragmentMap.bytes) rfl
    simp only [emplace, hf, bytes, FragmentMap.bytes, if_true] at hsum ⊢
    simp only [Option.elim_none] at hfrag
    omega

theorem assembleAfterAdd_bytes {before : Nat} {data : Data}
    (hs : s.bytes = before + data.size) (h : before + data.size < 2 ^ 31) (mid : Int) :
    Grows before (s.assembleAfterAdd mid (toInt32 data.size)).1.bytes data.size
      (s.assembleAfterAdd mid (toInt32 data.size)).2.2 := by
  simp only [assembleAfterAdd]
  split_ifs
  · exact .of_released ((tryToAssembleMessage_bytes (by omega) mid).trans hs) h
  · exact .of_released ((assembleLoop_bytes _ (by omega)).trans hs) h
  · rw [toInt32_of_lt (by omega)]
    exact ⟨by simp only [hs, Nat.cast_add], hs.le⟩

theorem add_bytes {data : Data} (h : s.bytes + data.size < 2 ^ 31) :
    Grows s.bytes (s.add tsn data).1.bytes data.size (s.add tsn data).2.2 := by
  have hemp := emplace_bytes { s with midUnwrapper := (s.midUnwrapper.unwrap data.mid).2 }
    (s.midUnwrapper.unwrap data.mid).1 tsn data
  simp only [add]
  generalize emplace { s with midUnwrapper := (s.midUnwrapper.unwrap data.mid).2 }
    (s.midUnwrapper.unwrap data.mid).1 tsn data = e at hemp ⊢
  obtain ⟨s₁, inserted⟩ := e
  have hb : s₁.bytes = s.bytes + if inserted then data.size else 0 := hemp
  cases inserted with
  | false => exact ⟨by simpa using hb, by simp at hb ⊢; omega⟩
  | true => exact assembleAfterAdd_bytes hb h _

theorem erased_bytes {m : OrdMap Int FragmentMap} (h : m.sumBy FragmentMap.bytes < 2 ^ 31) :
    toSizeT ((m.entries.map fun c =>
      toSizeT (accumulateInt (c.2.entries.map fun d => d.2.2.size))).sum : Nat) =
      m.sumBy FragmentMap.bytes := by
  have hinner : m.entries.map (fun c =>
      toSizeT (accumulateInt (c.2.entries.map fun d => d.2.2.size))) =
      m.entries.map fun c => c.2.bytes := by
    refine List.map_congr_left fun c hc => ?_
    have hle := m.le_sumBy (m.mem_entries_iff.mp hc) FragmentMap.bytes
    exact toSizeT_accumulateInt (show c.2.bytes < 2 ^ 31 by omega)
  rw [hinner]
  exact toSizeT_natCast (show m.sumBy FragmentMap.bytes < 2 ^ 64 by omega)

theorem eraseTo_bytes (h : s.bytes < 2 ^ 31) (mid : MID) :
    (s.eraseTo mid).1.bytes + (s.eraseTo mid).2.2 = s.bytes := by
  have hsum := s.chunksByMid.sumBy_filterKeys_add
    (fun n => n ≤ (s.midUnwrapper.unwrap mid).1) FragmentMap.bytes
  have hb : s.bytes = s.chunksByMid.sumBy FragmentMap.bytes := rfl
  by_cases hu : s.streamId.unordered = true
  · simp only [eraseTo, if_pos hu, bytes]
    rw [erased_bytes (by omega)]
    omega
  · simp only [eraseTo, if_neg hu]
    rw [erased_bytes (by omega)]
    generalize hk : InterleavedStream.mk s.streamId
      (s.chunksByMid.filterKeys fun n => !decide (n ≤ (s.midUnwrapper.unwrap mid).1)) _ _ = kept
    have hkb : kept.bytes = (s.chunksByMid.filterKeys
      fun n => !(n ≤ (s.midUnwrapper.unwrap mid).1)).sumBy FragmentMap.bytes := hk ▸ rfl
    have ht : kept.tryToAssembleMessages.1.bytes + kept.tryToAssembleMessages.2.2 = kept.bytes :=
      assembleLoop_bytes _ (by omega)
    generalize kept.tryToAssembleMessages = rest at ht ⊢
    obtain ⟨s₁, messages, released⟩ := rest
    simp only at ht ⊢
    rw [← Nat.cast_add, toSizeT_natCast (by omega)]
    omega

end InterleavedStream

namespace InterleavedReassemblyStreams

def bytes (r : InterleavedReassemblyStreams) : Nat := r.streams.sumBy InterleavedStream.bytes

variable (r : InterleavedReassemblyStreams)

theorem getOrCreateStream_bytes_le (id : FullStreamId) : (r.getOrCreateStream id).bytes ≤ r.bytes :=
  r.streams.getD_le_sumBy id (d := .new id) (f := InterleavedStream.bytes) rfl

theorem setStream_bytes (stream : InterleavedStream) :
    (r.setStream stream).bytes + (r.getOrCreateStream stream.streamId).bytes =
      r.bytes + stream.bytes :=
  r.streams.sumBy_overwrite stream.streamId (d := .new stream.streamId) stream
    (f := InterleavedStream.bytes) rfl

theorem add_bytes {r : InterleavedReassemblyStreams} {data : Data}
    (h : r.bytes + data.size < 2 ^ 31) :
    Grows r.bytes (r.add tsn data).1.bytes data.size (r.add tsn data).2.2 := by
  have hle := r.getOrCreateStream_bytes_le ⟨data.isUnordered, data.streamId⟩
  have hs := InterleavedStream.add_bytes tsn (show (r.getOrCreateStream
    ⟨data.isUnordered, data.streamId⟩).bytes + data.size < 2 ^ 31 by omega)
  refine hs.of_part ?_
  have hset := r.setStream_bytes
    ((r.getOrCreateStream ⟨data.isUnordered, data.streamId⟩).add tsn data).1
  rwa [InterleavedStream.add_streamId, getOrCreateStream_streamId] at hset

theorem eraseSkipped_bytes {s : InterleavedReassemblyStreams × List Assembled × Nat} {total : Nat}
    (h : s.1.bytes + s.2.2 = total) (ht : total < 2 ^ 31) (skipped : SkippedStream) :
    (eraseSkipped s skipped).1.bytes + (eraseSkipped s skipped).2.2 = total := by
  obtain ⟨r, messages, removed⟩ := s
  simp only at h
  have hle := r.getOrCreateStream_bytes_le ⟨skipped.unordered, skipped.streamId⟩
  have hs := InterleavedStream.eraseTo_bytes
    (s := r.getOrCreateStream ⟨skipped.unordered, skipped.streamId⟩) (by omega) skipped.mid
  have hset := r.setStream_bytes
    ((r.getOrCreateStream ⟨skipped.unordered, skipped.streamId⟩).eraseTo skipped.mid).1
  rw [InterleavedStream.eraseTo_streamId, getOrCreateStream_streamId] at hset
  simp only [eraseSkipped]
  generalize (r.getOrCreateStream ⟨skipped.unordered, skipped.streamId⟩).eraseTo skipped.mid =
    erased at hs hset ⊢
  obtain ⟨stream, messages', removed'⟩ := erased
  simp only at hs hset ⊢
  rw [← Nat.cast_add, toSizeT_natCast (by omega)]
  omega

theorem handleForwardTsn_bytes {r : InterleavedReassemblyStreams} (h : r.bytes < 2 ^ 31)
    (skippedStreams : List SkippedStream) :
    (r.handleForwardTsn skippedStreams).1.bytes + (r.handleForwardTsn skippedStreams).2.2 =
      r.bytes := by
  have hfold : ∀ (l : List SkippedStream) (s : InterleavedReassemblyStreams × List Assembled × Nat),
      s.1.bytes + s.2.2 = r.bytes →
      (l.foldl eraseSkipped s).1.bytes + (l.foldl eraseSkipped s).2.2 = r.bytes := by
    intro l
    induction l with
    | nil => exact fun s hs => hs
    | cons skipped rest ih => exact fun s hs => ih _ (eraseSkipped_bytes hs h skipped)
  exact hfold skippedStreams _ rfl

theorem resetStream_bytes (id : FullStreamId) : (r.resetStream id).bytes = r.bytes := by
  have hset := r.setStream_bytes (r.getOrCreateStream id).reset
  have hid : (r.getOrCreateStream id).reset.streamId = id := r.getOrCreateStream_streamId id
  have hb : (r.getOrCreateStream id).reset.bytes = (r.getOrCreateStream id).bytes := rfl
  rw [hid, hb] at hset
  exact Nat.add_right_cancel hset

theorem resetStreams_bytes (streamIds : List StreamID) :
    (r.resetStreams streamIds).bytes = r.bytes := by
  have hfold : ∀ (l : List StreamID) (r' : InterleavedReassemblyStreams),
      (l.foldl (fun r id => (r.resetStream ⟨true, id⟩).resetStream ⟨false, id⟩) r').bytes =
        r'.bytes := by
    intro l
    induction l with
    | nil => exact fun _ => rfl
    | cons id rest ih =>
      intro r'
      rw [List.foldl_cons, ih, resetStream_bytes, resetStream_bytes]
  simp only [resetStreams]
  split_ifs
  · exact r.streams.sumBy_mapValues _ _ _ fun _ _ => rfl
  · exact hfold streamIds r

end InterleavedReassemblyStreams

namespace ReassemblyStreams

def bytes : ReassemblyStreams → Nat
  | .traditional r => r.bytes
  | .interleaved r => r.bytes

theorem new_bytes (useMessageInterleaving : Bool) : (new useMessageInterleaving).bytes = 0 := by
  cases useMessageInterleaving <;> rfl

variable {r : ReassemblyStreams}

theorem add_bytes {data : Data} (h : r.bytes + data.size < 2 ^ 31) :
    Grows r.bytes (r.add tsn data).1.bytes data.size (r.add tsn data).2.2 := by
  cases r with
  | traditional r => exact TraditionalReassemblyStreams.add_bytes tsn h
  | interleaved r => exact InterleavedReassemblyStreams.add_bytes tsn h

theorem handleForwardTsn_bytes (h : r.bytes < 2 ^ 31) (tsn : Int)
    (skippedStreams : List SkippedStream) : (r.handleForwardTsn tsn skippedStreams).1.bytes +
      (r.handleForwardTsn tsn skippedStreams).2.2 = r.bytes := by
  cases r with
  | traditional r => exact TraditionalReassemblyStreams.handleForwardTsn_bytes h tsn skippedStreams
  | interleaved r => exact InterleavedReassemblyStreams.handleForwardTsn_bytes h skippedStreams

theorem resetStreams_bytes (r : ReassemblyStreams) (streamIds : List StreamID) :
    (r.resetStreams streamIds).bytes = r.bytes := by
  cases r with
  | traditional r => exact r.resetStreams_bytes streamIds
  | interleaved r => exact r.resetStreams_bytes streamIds

end ReassemblyStreams

end WebRtc.DcSctp
