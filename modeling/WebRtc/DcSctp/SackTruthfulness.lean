import WebRtc.DcSctp.TrackedTsns

/-! What the gap-ack blocks of a SACK say about the TSNs received. -/

namespace WebRtc.DcSctp

open IntBlock

namespace DataTracker

def ackedRange (cumulativeTsnAck : Int) (g : GapAckBlock) : TsnRange :=
  ⟨cumulativeTsnAck + g.start.toNat, cumulativeTsnAck + g.end.toNat⟩

structure Truthful (d : DataTracker) (observed : Set Int) (sack : SackChunk) : Prop where
  cumulativeTsnAck : sack.cumulativeTsnAck = wrap 32 d.lastCumulativeAckedTsn
  start_le_end : ∀ g ∈ sack.gapAckBlocks, g.start ≤ g.end
  observed : ∀ g ∈ sack.gapAckBlocks, ∀ t,
    (ackedRange d.lastCumulativeAckedTsn g).first ≤ t →
    t ≤ (ackedRange d.lastCumulativeAckedTsn g).last → t ∈ observed
  ranges : sack.gapAckBlocks.map (ackedRange d.lastCumulativeAckedTsn) =
    d.additionalTsnBlocks.take kMaxGapAckBlocksReported

variable {p : TSN} {d : DataTracker} {observed skipped : Set Int}

theorem Inv.covered_observed (h : Inv p d observed skipped) {t : Int}
    (ht : t ∈ covered d.additionalTsnBlocks) : t ∈ observed := by
  have hlt := h.wellFormed.lt_of_mem ht
  have hfirst := h.firstTsn_le
  rcases (h.mem_seen t).mp (.inr ht) with hh | hh | hh
  · omega
  · exact hh
  · have := h.skipped_le t hh
    omega

theorem offset_eq_iff {cum t : Int} (hle : cum ≤ t) (hlt : t ≤ cum + kMaxAcceptedOutstandingFragments) :
    cum + (BitVec.ofNat 16 (difference 32 t cum)).toNat = t ↔ t - cum ≤ 65535 := by
  simp only [difference, BitVec.toNat_ofNat, kMaxAcceptedOutstandingFragments] at *
  omega

theorem createSelectiveAck_truthful_iff (h : Reachable p d observed skipped) (aRwnd : Nat) :
    Truthful d observed (d.createSelectiveAck aRwnd).1 ↔
      ∀ b ∈ d.additionalTsnBlocks.take kMaxGapAckBlocksReported,
        b.last - d.lastCumulativeAckedTsn ≤ 65535 := by
  have hi := h.inv
  obtain ⟨-, hblocks⟩ := hi.wellFormed.pairwise
  have hbound : ∀ b ∈ d.additionalTsnBlocks.take kMaxGapAckBlocksReported,
      d.lastCumulativeAckedTsn + 2 ≤ b.first ∧ b.first ≤ b.last ∧
        b.last ≤ d.lastCumulativeAckedTsn + kMaxAcceptedOutstandingFragments := by
    intro b hb
    have hb' := List.mem_of_mem_take hb
    obtain ⟨hf, hl⟩ := hblocks b hb'
    exact ⟨hf, hl, hi.seen_le _ (.inr ⟨b, hb', hl, le_refl _⟩)⟩
  have hranges : (d.createSelectiveAck aRwnd).1.gapAckBlocks.map
      (ackedRange d.lastCumulativeAckedTsn) =
        d.additionalTsnBlocks.take kMaxGapAckBlocksReported ↔
      ∀ b ∈ d.additionalTsnBlocks.take kMaxGapAckBlocksReported,
        b.last - d.lastCumulativeAckedTsn ≤ 65535 := by
    simp only [createSelectiveAck, createGapAckBlocks, List.map_map]
    conv_lhs => rw [← List.map_id (List.take _ _), List.map_map, List.map_inj_left]
    refine forall₂_congr fun b hb => ?_
    obtain ⟨hf, hl, hm⟩ := hbound b hb
    have hlast := offset_eq_iff (by omega) hm
    have hfirst := offset_eq_iff (t := b.first) (by omega) (hl.trans hm)
    rw [← hlast]
    refine ⟨fun he => congrArg IntBlock.last he, fun he => ?_⟩
    exact congrArg₂ IntBlock.mk (hfirst.mpr (by omega)) he
  refine ⟨fun ht => hranges.mp ht.ranges, fun hle => ?_⟩
  have hr := hranges.mpr hle
  have hmem : ∀ g ∈ (d.createSelectiveAck aRwnd).1.gapAckBlocks,
      ackedRange d.lastCumulativeAckedTsn g ∈
        d.additionalTsnBlocks.take kMaxGapAckBlocksReported := by
    intro g hg
    rw [← hr]
    exact List.mem_map_of_mem hg
  refine ⟨rfl, fun g hg => ?_, fun g hg t ht ht' => ?_, hr⟩
  · have hl := (hbound _ (hmem g hg)).2.1
    simp only [ackedRange] at hl
    exact BitVec.le_def.mpr (by omega)
  · exact hi.covered_observed ⟨_, List.mem_of_mem_take (hmem g hg), ht, ht'⟩

/-- With one TSN received 65537 ahead of the cumulative ack point, the SACK acknowledges the
next TSN instead, which was never received. -/
theorem createSelectiveAck_not_truthful : ∃ d observed skipped, Reachable 1 d observed skipped ∧
      ¬ Truthful d observed (d.createSelectiveAck 1000).1 ∧
      (d.createSelectiveAck 1000).1.gapAckBlocks = [⟨1, 1⟩] ∧ (1 : Int) ∉ observed := by
  have hr : Reachable 1 ((DataTracker.new 1).step (.observe 65537 false)) (∅ ∪ _) (∅ ∪ _) :=
    Reachable.new.step _
  have hgap : (((DataTracker.new 1).step (.observe 65537 false)).createSelectiveAck 1000).1.gapAckBlocks =
      [⟨1, 1⟩] := by decide
  have hno : (1 : Int) ∉ ∅ ∪ (DataTracker.new 1).observedBy (.observe 65537 false) := by
    have hp : (DataTracker.new 1).tsnUnwrapper.peekUnwrap 65537 = 65537 := by decide
    rintro (hh | ⟨-, hh⟩)
    · exact hh
    · rw [hp] at hh
      exact absurd hh (by decide)
  refine ⟨_, _, _, hr, fun ht => hno ?_, hgap, hno⟩
  exact ht.observed ⟨1, 1⟩ (by rw [hgap]; simp) 1 (by decide) (by decide)

theorem createSelectiveAck_truthful_iff_observe_three :
    ∃ d observed skipped, Reachable 1 d observed skipped ∧ d.additionalTsnBlocks = [⟨3, 3⟩] ∧
      Truthful d observed (d.createSelectiveAck 1000).1 := by
  have hr : Reachable 1 ((DataTracker.new 1).step (.observe 3 false)) (∅ ∪ _) (∅ ∪ _) :=
    Reachable.new.step _
  exact ⟨_, _, _, hr, by decide, (createSelectiveAck_truthful_iff hr 1000).mpr (by decide)⟩

end DataTracker

end WebRtc.DcSctp
