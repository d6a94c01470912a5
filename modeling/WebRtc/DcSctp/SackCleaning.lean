import WebRtc.DcSctp.ChunkValidators

/-! What `ChunkValidators::Clean` keeps of the offsets that a SACK acknowledges. A malformed SACK
loses its blocks of one offset, which `Validate` takes for sane ones. -/

namespace WebRtc.DcSctp.ChunkValidators

open List

def Covers (blocks : List GapAckBlock) (offset : Nat) : Prop :=
  ∃ b ∈ blocks, b.start.toNat ≤ offset ∧ offset ≤ b.end.toNat

/-- The blocks are increasing, and neither overlap nor touch. -/
def Apart (blocks : List GapAckBlock) : Prop :=
  blocks.Pairwise (fun a b => a.end.toNat + 1 < b.start.toNat) ∧
    ∀ b ∈ blocks, b.start.toNat ≤ b.end.toNat

/-- Each block of one offset lies in a longer one. -/
def SinglesCovered (blocks : List GapAckBlock) : Prop :=
  ∀ b ∈ blocks, b.start = b.end → Covers (blocks.filter fun c => c.start < c.end) b.start.toNat

variable {blocks : List GapAckBlock}

theorem covers_cons {b : GapAckBlock} {offset : Nat} : Covers (b :: blocks) offset ↔
      (b.start.toNat ≤ offset ∧ offset ≤ b.end.toNat) ∨ Covers blocks offset := by
  simp [Covers]

theorem toNat_max (a b : BitVec 16) : (max a b).toNat = max a.toNat b.toNat := by
  rw [max_def, max_def]
  simp only [BitVec.le_def]
  split <;> rfl

theorem apart_of_validateFrom {prevEnd : Nat} (h : validateFrom prevEnd blocks = true) :
    Apart blocks ∧ ∀ b ∈ blocks, prevEnd + 1 < b.start.toNat := by
  induction blocks generalizing prevEnd with
  | nil => simp [Apart]
  | cons b bs ih =>
    rw [validateFrom] at h
    split_ifs at h with hend hstart
    obtain ⟨⟨hp, hle⟩, hlt⟩ := ih h
    have hb : b.start.toNat ≤ b.end.toNat := by simpa [BitVec.lt_def] using hend
    refine ⟨⟨pairwise_cons.mpr ⟨hlt, hp⟩, forall_mem_cons.mpr ⟨hb, hle⟩⟩,
      forall_mem_cons.mpr ⟨by omega, fun c hc => ?_⟩⟩
    have := hlt c hc
    omega

/-- What merging blocks sorted by their start into the last one gives. -/
structure Merges (back : GapAckBlock) (blocks merged : List GapAckBlock) : Prop where
  covers : ∀ offset, Covers merged offset ↔ Covers (back :: blocks) offset
  apart : merged.Pairwise fun a b => a.end.toNat + 1 < b.start.toNat
  long : ∀ b ∈ merged, b.start.toNat < b.end.toNat
  above : ∀ b ∈ merged, back.start.toNat ≤ b.start.toNat

theorem merges {back : GapAckBlock} (hlong : ∀ b ∈ back :: blocks, b.start.toNat < b.end.toNat)
    (hsorted : (back :: blocks).Pairwise fun a b => a.start.toNat ≤ b.start.toNat) :
    Merges back blocks (merge back blocks) := by
  induction blocks generalizing back with
  | nil => exact ⟨fun _ => Iff.rfl, pairwise_singleton .., hlong, by simp [merge]⟩
  | cons b bs ih =>
    obtain ⟨hback, hrest⟩ := forall_mem_cons.mp hlong
    obtain ⟨hfirst, htail⟩ := pairwise_cons.mp hsorted
    have hle := hfirst b mem_cons_self
    rw [merge]
    split
    · next htouch =>
      have hmax := toNat_max back.end b.end
      have h : Merges { back with «end» := max back.end b.end } bs
          (merge { back with «end» := max back.end b.end } bs) := by
        refine ih (forall_mem_cons.mpr ⟨?_, fun c hc => hrest c (mem_cons_of_mem _ hc)⟩)
          (pairwise_cons.mpr ⟨fun c hc => hfirst c (mem_cons_of_mem _ hc),
            (pairwise_cons.mp htail).2⟩)
        dsimp only
        omega
      refine ⟨fun offset => ?_, h.apart, h.long, h.above⟩
      rw [h.covers, covers_cons, covers_cons, covers_cons, ← or_assoc, hmax]
      refine or_congr_left ?_
      dsimp only
      omega
    · next hgap =>
      have h := ih hrest htail
      refine ⟨fun offset => ?_, pairwise_cons.mpr ⟨fun c hc => ?_, h.apart⟩,
        forall_mem_cons.mpr ⟨hback, h.long⟩, forall_mem_cons.mpr ⟨le_rfl, fun c hc => ?_⟩⟩
      · rw [covers_cons, h.covers, ← covers_cons]
      · have := h.above c hc
        omega
      · exact hle.trans (h.above c hc)

theorem merge_of_apart {back : GapAckBlock}
    (h : (back :: blocks).Pairwise fun a b => a.end.toNat + 1 < b.start.toNat) :
    merge back blocks = back :: blocks := by
  induction blocks generalizing back with
  | nil => rfl
  | cons b bs ih =>
    obtain ⟨hfirst, htail⟩ := pairwise_cons.mp h
    have := hfirst b mem_cons_self
    rw [merge, if_neg (by omega), ih htail]

theorem exists_sorted (blocks : List GapAckBlock) :
    ∃ sorted, (blocks.filter fun b => b.start < b.end).insertionSort
        (fun a b => a.start ≤ b.start) = sorted ∧
      (∀ b, b ∈ sorted ↔ b ∈ blocks.filter fun c => c.start < c.end) ∧
      (∀ b ∈ sorted, b.start.toNat < b.end.toNat) ∧
      sorted.Pairwise fun a b => a.start.toNat ≤ b.start.toNat := by
  have hmem : ∀ b, b ∈ (blocks.filter fun b => b.start < b.end).insertionSort
      (fun a b => a.start ≤ b.start) ↔ b ∈ blocks.filter fun c => c.start < c.end :=
    fun b => (perm_insertionSort _ _).mem_iff
  refine ⟨_, rfl, hmem, fun b hb => ?_, ?_⟩
  · simpa [BitVec.lt_def] using (mem_filter.mp ((hmem b).mp hb)).2
  · have : Std.Total fun a b : GapAckBlock => a.start ≤ b.start := ⟨fun a b => le_total ..⟩
    have : IsTrans GapAckBlock fun a b => a.start ≤ b.start := ⟨fun _ _ _ => le_trans⟩
    exact (pairwise_insertionSort _ _).imp fun h => BitVec.le_def.mp h

structure Cleaned (blocks cleaned : List GapAckBlock) : Prop where
  covers : ∀ offset, Covers cleaned offset ↔
    Covers (blocks.filter fun b => b.start < b.end) offset
  apart : cleaned.Pairwise fun a b => a.end.toNat + 1 < b.start.toNat
  long : ∀ b ∈ cleaned, b.start.toNat < b.end.toNat

theorem cleaned (blocks : List GapAckBlock) : Cleaned blocks (cleanBlocks blocks) := by
  obtain ⟨sorted, he, hmem, hlong, hsorted⟩ := exists_sorted blocks
  have hcov : ∀ offset, Covers sorted offset ↔
      Covers (blocks.filter fun b => b.start < b.end) offset :=
    fun offset => exists_congr fun b => and_congr_left fun _ => hmem b
  rw [cleanBlocks, he]
  cases sorted with
  | nil => exact ⟨hcov, .nil, by simp⟩
  | cons first rest =>
    have h := merges hlong hsorted
    exact ⟨fun offset => (h.covers offset).trans (hcov offset), h.apart, h.long⟩

theorem cleanBlocks_of_apart (hapart : blocks.Pairwise fun a b => a.end.toNat + 1 < b.start.toNat)
    (hlong : ∀ b ∈ blocks, b.start.toNat < b.end.toNat) : cleanBlocks blocks = blocks := by
  have hfilter : (blocks.filter fun b => b.start < b.end) = blocks :=
    filter_eq_self.mpr fun b hb => by simpa [BitVec.lt_def] using hlong b hb
  have hsorted : blocks.Pairwise fun a b => a.start ≤ b.start := by
    refine hapart.imp_of_mem fun {a b} ha _ hab => BitVec.le_def.mpr ?_
    have := hlong a ha
    omega
  rw [cleanBlocks, hfilter, hsorted.insertionSort_eq]
  cases blocks with
  | nil => rfl
  | cons first rest => exact merge_of_apart hapart

theorem covers_filter_iff (blocks : List GapAckBlock) :
    (∀ offset, Covers (blocks.filter fun b => b.start < b.end) offset ↔ Covers blocks offset) ↔
      SinglesCovered blocks := by
  constructor
  · intro h b hb he
    exact (h _).mpr ⟨b, hb, le_rfl, by rw [he]⟩
  · intro h offset
    refine ⟨fun ⟨b, hb, hin⟩ => ⟨b, (mem_filter.mp hb).1, hin⟩, fun ⟨b, hb, hs, ht⟩ => ?_⟩
    by_cases he : b.start = b.end
    · obtain rfl : offset = b.start.toNat := by
        rw [← he] at ht
        omega
      exact h b hb he
    · have hlt : b.start.toNat < b.end.toNat :=
        lt_of_le_of_ne (hs.trans ht) fun hn => he (BitVec.eq_of_toNat_eq hn)
      exact ⟨b, mem_filter.mpr ⟨hb, by simpa [BitVec.lt_def] using hlt⟩, hs, ht⟩

/-- `Clean` keeps the acknowledged offsets exactly if the SACK is valid or its blocks of one offset
lie in longer ones. The rest holds for every SACK. -/
theorem clean_covers_iff (sack : SackChunk) :
    ((∀ offset, Covers (clean sack).gapAckBlocks offset ↔ Covers sack.gapAckBlocks offset) ↔
      validate sack = true ∨ SinglesCovered sack.gapAckBlocks) ∧ Apart (clean sack).gapAckBlocks ∧
    (clean sack).cumulativeTsnAck = sack.cumulativeTsnAck ∧ (clean sack).aRwnd = sack.aRwnd ∧
    (clean sack).duplicateTsns = sack.duplicateTsns ∧ clean (clean sack) = clean sack := by
  by_cases hv : validate sack = true
  · have hc : clean sack = sack := if_pos hv
    rw [hc, hc]
    exact ⟨iff_of_true (fun _ => Iff.rfl) (.inl hv), (apart_of_validateFrom hv).1, rfl, rfl, rfl,
      rfl⟩
  · have hc : clean sack = { sack with gapAckBlocks := cleanBlocks sack.gapAckBlocks } := if_neg hv
    have h := cleaned sack.gapAckBlocks
    have hid : clean (clean sack) = clean sack := by
      rw [hc, clean]
      split
      · rfl
      · rw [cleanBlocks_of_apart h.apart h.long]
    refine ⟨?_, ?_, by rw [hc], by rw [hc], by rw [hc], hid⟩
    · rw [hc, ← covers_filter_iff, or_iff_right hv]
      exact forall_congr' fun offset => iff_congr (h.covers offset) Iff.rfl
    · rw [hc]
      exact ⟨h.apart, fun b hb => (h.long b hb).le⟩

theorem clean_drops_single :
    ¬ ∀ offset, Covers (clean ⟨0, 0, [⟨6, 7⟩, ⟨3, 3⟩], []⟩).gapAckBlocks offset ↔
      Covers [⟨6, 7⟩, ⟨3, 3⟩] offset := by
  intro h
  have h3 := (h 3).mpr ⟨⟨3, 3⟩, by simp, by decide, by decide⟩
  rw [show (clean ⟨0, 0, [⟨6, 7⟩, ⟨3, 3⟩], []⟩).gapAckBlocks = [⟨6, 7⟩] by decide] at h3
  obtain ⟨b, hb, hs, _⟩ := h3
  obtain rfl := mem_singleton.mp hb
  exact absurd hs (by decide)

end WebRtc.DcSctp.ChunkValidators
