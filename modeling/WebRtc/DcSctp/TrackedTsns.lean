import WebRtc.DcSctp.DataTracker

/-! The set of TSNs a data tracker stands for, and how each operation changes it. -/

namespace WebRtc.DcSctp

open SeqNumUnwrapper

open IntBlock

namespace AdditionalTsnBlocks

theorem expandRight_spec {lo tsn : Int} {it : TsnRange} {rest : List TsnRange}
    (hf : lo + 2 ≤ it.first) (hl : it.first ≤ it.last) (hs : Separated it.last rest)
    (ht : it.last + 1 = tsn) : Separated lo (expandRight it tsn rest) ∧
      ∀ t, t ∈ covered (expandRight it tsn rest) ↔ t = tsn ∨ t ∈ covered (it :: rest) := by
  cases rest with
  | nil =>
    simp only [expandRight, Separated, mem_covered_cons, covered_nil, Set.mem_empty_iff_false,
      or_false]
    exact ⟨⟨hf, by omega, trivial⟩, fun t => by omega⟩
  | cons next rest =>
    obtain ⟨hnf, hnl, hns⟩ := hs
    simp only [expandRight]
    split_ifs with h
    · simp only [Separated, mem_covered_cons]
      refine ⟨⟨hf, by omega, hns⟩, fun t => ?_⟩
      by_cases hm : t ∈ covered rest <;> simp only [hm, or_true, or_false]
      omega
    · simp only [Separated, mem_covered_cons]
      refine ⟨⟨hf, by omega, by omega, hnl, hns⟩, fun t => ?_⟩
      by_cases hm : t ∈ covered rest <;> simp only [hm, or_true, or_false]
      omega

variable {bs : List TsnRange}

theorem add_spec {lo tsn : Int} (h : Separated lo bs) (ht : lo + 2 ≤ tsn) :
    Separated lo (add bs tsn).1 ∧ (∀ t, t ∈ covered (add bs tsn).1 ↔ t = tsn ∨ t ∈ covered bs) ∧
      ((add bs tsn).2 = true ↔ tsn ∉ covered bs) := by
  induction bs generalizing lo with
  | nil =>
    simp only [add, Separated, mem_covered_cons, covered_nil, Set.mem_empty_iff_false, or_false]
    exact ⟨⟨ht, le_refl _, trivial⟩, fun t => by omega, by simp⟩
  | cons it rest ih =>
    obtain ⟨hf, hl, hs⟩ := h
    simp only [add]
    split_ifs with h1 h2 h3 h4
    · obtain ⟨hsep, hmem, hins⟩ := ih hs (by omega)
      have hno : ¬ (it.first ≤ tsn ∧ tsn ≤ it.last) := by omega
      simp only [Separated, mem_covered_cons, hmem, hno, false_or]
      exact ⟨⟨hf, hl, hsep⟩, fun t => by tauto, hins⟩
    · refine ⟨⟨hf, hl, hs⟩, fun t => ⟨.inr, ?_⟩, by simp [h2]⟩
      rintro (rfl | hh)
      · exact mem_covered_cons.mpr (.inl h2)
      · exact hh
    · obtain ⟨hsep, hmem⟩ := expandRight_spec hf hl hs h3
      have hno : tsn ∉ covered rest := hs.notMem_next (by omega)
      exact ⟨hsep, hmem, by simp [h2, hno]⟩
    · have hno : tsn ∉ covered rest := hs.notMem_next (by omega)
      simp only [Separated, mem_covered_cons]
      refine ⟨⟨ht, by omega, hs⟩, fun t => ?_, by simp [h2, hno]⟩
      by_cases hm : t ∈ covered rest <;> simp only [hm, or_true, or_false]
      omega
    · have hno : tsn ∉ covered rest := hs.notMem_next (by omega)
      simp only [Separated, mem_covered_cons]
      refine ⟨⟨ht, le_refl _, by omega, hl, hs⟩, fun t => ?_, by simp [h2, hno]⟩
      by_cases hm : t ∈ covered rest <;> simp only [hm, or_true, or_false]
      omega

theorem eraseTo_cases {lo : Int} (tsn : Int) (h : Separated lo bs) :
    (∃ last rest, eraseTo bs tsn = ⟨tsn + 1, last⟩ :: rest ∧ tsn ≤ last ∧ Separated last rest ∧
      ∀ t, tsn < t → (t ∈ covered bs ↔ t ≤ last ∨ t ∈ covered rest)) ∨
    (Separated tsn (eraseTo bs tsn) ∧ ∀ t, tsn < t → (t ∈ covered bs ↔ t ∈ covered (eraseTo bs tsn))) := by
  induction bs generalizing lo with
  | nil => exact .inr ⟨trivial, fun t _ => Iff.rfl⟩
  | cons it rest ih =>
    obtain ⟨hf, hl, hs⟩ := h
    simp only [eraseTo]
    split_ifs with h1 h2
    · have hskip : ∀ t, tsn < t → (t ∈ covered (it :: rest) ↔ t ∈ covered rest) := by
        intro t ht
        rw [mem_covered_cons]
        exact ⟨fun hh => hh.resolve_left (by omega), .inr⟩
      rcases ih hs with ⟨last, rest', he, hle, hsep, hmem⟩ | ⟨hsep, hmem⟩
      · exact .inl ⟨last, rest', he, hle, hsep, fun t ht => (hskip t ht).trans (hmem t ht)⟩
      · exact .inr ⟨hsep, fun t ht => (hskip t ht).trans (hmem t ht)⟩
    · refine .inl ⟨it.last, rest, rfl, by omega, hs, fun t ht => ?_⟩
      rw [mem_covered_cons]
      have hi : (it.first ≤ t ∧ t ≤ it.last) ↔ t ≤ it.last := by omega
      rw [hi]
    · by_cases hadj : it.first = tsn + 1
      · refine .inl ⟨it.last, rest, by rw [← hadj], by omega, hs, fun t ht => ?_⟩
        rw [mem_covered_cons]
        have hi : (it.first ≤ t ∧ t ≤ it.last) ↔ t ≤ it.last := by omega
        rw [hi]
      · exact .inr ⟨⟨by omega, hl, hs⟩, fun t _ => Iff.rfl⟩

theorem eraseTo_next {lo : Int} (h : Separated lo bs) : eraseTo bs (lo + 1) = bs := by
  cases bs with
  | nil => rfl
  | cons it rest =>
    obtain ⟨hf, hl, -⟩ := h
    simp only [eraseTo]
    rw [if_neg (by omega), if_neg (by omega)]

end AdditionalTsnBlocks

open AdditionalTsnBlocks

namespace DataTracker

def seen (d : DataTracker) : Set Int :=
  {t | t ≤ d.lastCumulativeAckedTsn} ∪ covered d.additionalTsnBlocks

def WellFormed (d : DataTracker) : Prop :=
  Separated d.lastCumulativeAckedTsn d.additionalTsnBlocks

variable {d : DataTracker}

theorem mem_seen {t : Int} :
    t ∈ d.seen ↔ t ≤ d.lastCumulativeAckedTsn ∨ t ∈ covered d.additionalTsnBlocks := Iff.rfl

structure SameTsns (d d' : DataTracker) : Prop where
  tsnUnwrapper : d'.tsnUnwrapper = d.tsnUnwrapper
  last : d'.lastCumulativeAckedTsn = d.lastCumulativeAckedTsn
  blocks : d'.additionalTsnBlocks = d.additionalTsnBlocks

theorem SameTsns.refl (d : DataTracker) : SameTsns d d := ⟨rfl, rfl, rfl⟩

theorem SameTsns.trans {d d' d'' : DataTracker} (h : SameTsns d d') (h' : SameTsns d' d'') :
    SameTsns d d'' :=
  ⟨h'.1.trans h.1, h'.2.trans h.2, h'.3.trans h.3⟩

theorem SameTsns.seen {d d' : DataTracker} (h : SameTsns d d') : d'.seen = d.seen := by
  simp only [DataTracker.seen, h.last, h.blocks]

theorem SameTsns.wellFormed {d d' : DataTracker} (h : SameTsns d d') (hd : d.WellFormed) :
    d'.WellFormed := by
  simpa only [WellFormed, h.last, h.blocks] using hd

theorem updateAckState_same (d : DataTracker) (s : AckState) : SameTsns d (d.updateAckState s) := by
  simp only [updateAckState]
  split_ifs <;> exact ⟨rfl, rfl, rfl⟩

theorem insertDuplicate_same (d : DataTracker) (t : Int) : SameTsns d (d.insertDuplicate t) := by
  simp only [insertDuplicate]
  split_ifs <;> exact ⟨rfl, rfl, rfl⟩

theorem receivedDataWhenIdle_same (d : DataTracker) : SameTsns d d.receivedDataWhenIdle := by
  simp only [receivedDataWhenIdle]
  split_ifs
  · exact updateAckState_same _ _
  · exact updateAckState_same _ _
  · exact .refl d

theorem SameTsns.ite {d e e' : DataTracker} {c : Prop} [Decidable c] (h : SameTsns d e)
    (h' : SameTsns d e') : SameTsns d (if c then e else e') := by
  split_ifs
  · exact h
  · exact h'

theorem observeAckState_same (d : DataTracker) (imm : Bool) :
    SameTsns d (d.observeAckState imm) := by
  have hblocks : SameTsns d (if d.additionalTsnBlocks = [] then d else d.updateAckState .kImmediate) :=
    .ite (.refl d) (updateAckState_same _ _)
  have himm := hblocks.trans (.ite (c := imm = true) (updateAckState_same _ .kImmediate) (.refl _))
  refine himm.trans (SameTsns.trans (.ite (.refl _) ?_) (receivedDataWhenIdle_same _))
  refine SameTsns.trans ⟨?_, ?_, ?_⟩ (updateAckState_same _ _) <;> rfl

section

variable (h : d.WellFormed)
include h

theorem skipTo_next :
    d.skipTo (d.lastCumulativeAckedTsn + 1) = d.advanceTo (d.lastCumulativeAckedTsn + 1) := by
  simp only [skipTo, eraseTo_next h]

theorem skipTo_spec {tsn : Int} (ht : d.lastCumulativeAckedTsn < tsn) :
    (d.skipTo tsn).WellFormed ∧ (∀ t, t ∈ (d.skipTo tsn).seen ↔ t ≤ tsn ∨ t ∈ d.seen) ∧
      (d.skipTo tsn).tsnUnwrapper = d.tsnUnwrapper ∧
      tsn ≤ (d.skipTo tsn).lastCumulativeAckedTsn := by
  have hcases := eraseTo_cases tsn h
  rcases hcases with ⟨last, rest, he, hle, hsep, hmem⟩ | ⟨hsep, hmem⟩
  · simp only [skipTo, he, advanceTo, if_true]
    refine ⟨hsep, fun t => ?_, trivial, hle⟩
    simp only [mem_seen]
    by_cases htt : tsn < t
    · rw [hmem t htt]
      have := htt.not_ge
      have := (ht.trans htt).not_ge
      tauto
    · have : t ≤ tsn := not_lt.mp htt
      simp [this, this.trans hle]
  · have hadv : d.skipTo tsn =
        { d with
          lastCumulativeAckedTsn := tsn
          additionalTsnBlocks := eraseTo d.additionalTsnBlocks tsn } := by
      simp only [skipTo, advanceTo]
      cases he : eraseTo d.additionalTsnBlocks tsn with
      | nil => rfl
      | cons front rest =>
        rw [he] at hsep
        have := hsep.1
        exact if_neg (by omega)
    rw [hadv]
    refine ⟨hsep, fun t => ?_, rfl, le_refl _⟩
    simp only [mem_seen]
    by_cases htt : tsn < t
    · rw [hmem t htt]
      have := (ht.trans htt).not_ge
      tauto
    · simp [not_lt.mp htt]

theorem observeTsn_spec (tsn : Int) : (d.observeTsn tsn).1.WellFormed ∧
      (∀ t, t ∈ (d.observeTsn tsn).1.seen ↔ t = tsn ∨ t ∈ d.seen) ∧
      ((d.observeTsn tsn).2 = true ↔ tsn ∈ d.seen) ∧
      (d.observeTsn tsn).1.tsnUnwrapper = d.tsnUnwrapper ∧
      d.lastCumulativeAckedTsn ≤ (d.observeTsn tsn).1.lastCumulativeAckedTsn := by
  simp only [observeTsn]
  split_ifs with hold hnext hins
  · have hsame := (insertDuplicate_same d tsn).trans (updateAckState_same _ .kImmediate)
    have hmem : tsn ∈ d.seen := .inl hold
    refine ⟨hsame.wellFormed h, fun t => ?_, by simp [hmem], hsame.tsnUnwrapper, hsame.last.ge⟩
    rw [hsame.seen]
    exact ⟨.inr, fun hh => hh.elim (fun he => he ▸ hmem) id⟩
  · have hlt : d.lastCumulativeAckedTsn < tsn := by omega
    have hskip := skipTo_next h
    obtain ⟨hwf, hmem, hu, hle⟩ := skipTo_spec h hlt
    rw [← hnext] at hskip
    rw [← hskip]
    have hno : tsn ∉ covered d.additionalTsnBlocks := by
      intro hc
      have := h.lt_of_mem hc
      omega
    refine ⟨hwf, fun t => ?_, by simp [mem_seen, hno, hold], hu, hlt.le.trans hle⟩
    rw [hmem t, mem_seen, ← or_assoc, ← or_assoc]
    have : (t ≤ tsn ∨ t ≤ d.lastCumulativeAckedTsn) ↔ (t = tsn ∨ t ≤ d.lastCumulativeAckedTsn) := by
      omega
    rw [this]
  · obtain ⟨hsep, hmem, hins'⟩ := add_spec h (show _ ≤ tsn by omega)
    refine ⟨hsep, fun t => ?_, ?_, rfl, le_refl _⟩
    · simp only [mem_seen, hmem]
      tauto
    · simp [mem_seen, hins'.mp hins, hold]
  · obtain ⟨hsep, hmem, hins'⟩ := add_spec h (show _ ≤ tsn by omega)
    have hsame := insertDuplicate_same
      { d with additionalTsnBlocks := (AdditionalTsnBlocks.add d.additionalTsnBlocks tsn).1 } tsn
    refine ⟨hsame.wellFormed hsep, fun t => ?_, ?_, hsame.tsnUnwrapper, hsame.last.ge⟩
    · rw [hsame.seen]
      simp only [mem_seen, hmem]
      tauto
    · have : tsn ∈ d.seen := .inr (not_not.mp (fun hn => hins (hins'.mpr hn)))
      simp [this]

theorem observe_spec (tsn : TSN) (imm : Bool) : (d.observe tsn imm).1.WellFormed ∧
      (∀ t, t ∈ (d.observe tsn imm).1.seen ↔ t = d.tsnUnwrapper.peekUnwrap tsn ∨ t ∈ d.seen) ∧
      ((d.observe tsn imm).2 = true ↔ d.tsnUnwrapper.peekUnwrap tsn ∉ d.seen) ∧
      (d.observe tsn imm).1.tsnUnwrapper = (d.tsnUnwrapper.unwrap tsn).2 ∧
      d.lastCumulativeAckedTsn ≤ (d.observe tsn imm).1.lastCumulativeAckedTsn := by
  have hwf : WellFormed { d with tsnUnwrapper := (d.tsnUnwrapper.unwrap tsn).2 } := h
  obtain ⟨hwf', hmem, hdup, hu, hle⟩ := observeTsn_spec hwf (d.tsnUnwrapper.peekUnwrap tsn)
  have hsame := observeAckState_same
    ({ d with tsnUnwrapper := (d.tsnUnwrapper.unwrap tsn).2 }.observeTsn
      (d.tsnUnwrapper.peekUnwrap tsn)).1 imm
  refine ⟨hsame.wellFormed hwf', fun t => ?_, ?_, hsame.tsnUnwrapper.trans hu, hle.trans hsame.last.ge⟩
  · exact (Set.ext_iff.mp hsame.seen t).trans (hmem t)
  · simp only [observe, unwrap_fst, Bool.not_eq_true']
    rw [← Bool.not_eq_true, hdup]
    exact Iff.rfl

theorem handleForwardTsn_spec (tsn : TSN) : (d.handleForwardTsn tsn).1.WellFormed ∧
      (∀ t, t ∈ (d.handleForwardTsn tsn).1.seen ↔ t ≤ d.tsnUnwrapper.peekUnwrap tsn ∨ t ∈ d.seen) ∧
      ((d.handleForwardTsn tsn).2 = true ↔
        d.lastCumulativeAckedTsn < d.tsnUnwrapper.peekUnwrap tsn) ∧
      (d.handleForwardTsn tsn).1.tsnUnwrapper = (d.tsnUnwrapper.unwrap tsn).2 ∧
      d.lastCumulativeAckedTsn ≤ (d.handleForwardTsn tsn).1.lastCumulativeAckedTsn ∧
      d.tsnUnwrapper.peekUnwrap tsn ≤ (d.handleForwardTsn tsn).1.lastCumulativeAckedTsn := by
  by_cases hold : d.tsnUnwrapper.peekUnwrap tsn ≤ d.lastCumulativeAckedTsn
  · have hsame := updateAckState_same
      { d with tsnUnwrapper := (d.tsnUnwrapper.unwrap tsn).2 } .kImmediate
    have he : d.handleForwardTsn tsn = (_, false) := if_pos hold
    rw [he]
    refine ⟨hsame.wellFormed h, fun t => ?_, by simpa using hold, hsame.tsnUnwrapper, hsame.last.ge,
      hold.trans hsame.last.ge⟩
    refine (Set.ext_iff.mp hsame.seen t).trans ?_
    exact ⟨.inr, fun hh => hh.elim (fun hle => .inl (hle.trans hold)) id⟩
  · have hwf : WellFormed { d with tsnUnwrapper := (d.tsnUnwrapper.unwrap tsn).2 } := h
    obtain ⟨hwf', hmem, hu, hle⟩ := skipTo_spec hwf (not_le.mp hold)
    have hsame := receivedDataWhenIdle_same
      ({ d with tsnUnwrapper := (d.tsnUnwrapper.unwrap tsn).2 }.skipTo
        (d.tsnUnwrapper.peekUnwrap tsn))
    have hlt := hle.trans hsame.last.ge
    have he : d.handleForwardTsn tsn = (_, true) := if_neg hold
    rw [he]
    refine ⟨hsame.wellFormed hwf', fun t => ?_, by simpa using hold, hsame.tsnUnwrapper.trans hu,
      (not_le.mp hold).le.trans hlt, hlt⟩
    exact (Set.ext_iff.mp hsame.seen t).trans (hmem t)

end

inductive Op where
  | observe (tsn : TSN) (immediateAck : Bool)
  | handleForwardTsn (newCumulativeAck : TSN)
  | createSelectiveAck (aRwnd : Nat)
  | shouldSendAck (alsoIfDelayed : Bool)
  | forceImmediateSack
  | handleDelayedAckTimerExpiry
  | observePacketEnd

/-- `Observe` is only called on valid TSNs. -/
def step (d : DataTracker) : Op → DataTracker
  | .observe tsn immediateAck => if d.isTSNValid tsn then (d.observe tsn immediateAck).1 else d
  | .handleForwardTsn newCumulativeAck => (d.handleForwardTsn newCumulativeAck).1
  | .createSelectiveAck aRwnd => (d.createSelectiveAck aRwnd).2
  | .shouldSendAck alsoIfDelayed => (d.shouldSendAck alsoIfDelayed).1
  | .forceImmediateSack => d.forceImmediateSack
  | .handleDelayedAckTimerExpiry => d.handleDelayedAckTimerExpiry
  | .observePacketEnd => d.observePacketEnd

def observedBy (d : DataTracker) : Op → Set Int
  | .observe tsn _ => {t | d.isTSNValid tsn ∧ t = d.tsnUnwrapper.peekUnwrap tsn}
  | _ => ∅

def skippedBy (d : DataTracker) : Op → Set Int
  | .handleForwardTsn tsn =>
    {t | (d.handleForwardTsn tsn).2 ∧ d.lastCumulativeAckedTsn < t ∧
      t ≤ d.tsnUnwrapper.peekUnwrap tsn}
  | _ => ∅

def firstTsn (peerInitialTsn : TSN) : Int := (peerInitialTsn - 1).toNat + 1

inductive Reachable (peerInitialTsn : TSN) : DataTracker → Set Int → Set Int → Prop
  | new : Reachable peerInitialTsn (new peerInitialTsn) ∅ ∅
  | step {d : DataTracker} {observed skipped : Set Int} (op : Op)
      (h : Reachable peerInitialTsn d observed skipped) :
      Reachable peerInitialTsn (d.step op) (observed ∪ d.observedBy op) (skipped ∪ d.skippedBy op)

/-- What every reachable tracker satisfies. The unwrapper is never more than the accepted
distance ahead of the cumulative ack point, though it may be far behind it. -/
structure Inv (peerInitialTsn : TSN) (d : DataTracker) (observed skipped : Set Int) : Prop where
  wellFormed : d.WellFormed
  mem_seen : ∀ t, t ∈ d.seen ↔ t < firstTsn peerInitialTsn ∨ t ∈ observed ∨ t ∈ skipped
  firstTsn_le : firstTsn peerInitialTsn ≤ d.lastCumulativeAckedTsn + 1
  skipped_le : ∀ t ∈ skipped, t ≤ d.lastCumulativeAckedTsn
  unwrapper_started : d.tsnUnwrapper.lastValue ≠ none
  unwrapper_le : d.tsnUnwrapper.lastUnwrapped ≤
    d.lastCumulativeAckedTsn + kMaxAcceptedOutstandingFragments
  seen_le : ∀ t ∈ d.seen, t ≤ d.lastCumulativeAckedTsn + kMaxAcceptedOutstandingFragments

section Steps

variable {p : TSN} {d d' : DataTracker} {observed skipped : Set Int}

theorem Inv.of_same (h : Inv p d observed skipped) (hs : SameTsns d d') :
    Inv p d' observed skipped where
  wellFormed := hs.wellFormed h.wellFormed
  mem_seen := by
    intro t
    rw [hs.seen]
    exact h.mem_seen t
  firstTsn_le := by
    rw [hs.last]
    exact h.firstTsn_le
  skipped_le := by
    rw [hs.last]
    exact h.skipped_le
  unwrapper_started := by
    rw [hs.tsnUnwrapper]
    exact h.unwrapper_started
  unwrapper_le := by
    rw [hs.last, hs.tsnUnwrapper]
    exact h.unwrapper_le
  seen_le := by
    rw [hs.seen, hs.last]
    exact h.seen_le

theorem new_inv (p : TSN) : Inv p (new p) ∅ ∅ where
  wellFormed := trivial
  mem_seen := by
    intro t
    simp only [DataTracker.mem_seen, new, firstTsn, unwrap_fst,
      peekUnwrap, pristine, covered_nil, Set.mem_empty_iff_false,
      or_false]
    omega
  firstTsn_le := le_refl _
  skipped_le := by simp
  unwrapper_started := by simp [new]
  unwrapper_le := by
    have : (0 : Int) ≤ kMaxAcceptedOutstandingFragments := Int.natCast_nonneg _
    simp only [new, unwrap_fst, unwrap_snd_lastUnwrapped]
    omega
  seen_le := by
    intro t ht
    have hk : (0 : Int) ≤ kMaxAcceptedOutstandingFragments := Int.natCast_nonneg _
    rcases ht with ht | ht
    · exact le_trans ht (by omega)
    · simp [new] at ht

section

variable (h : Inv p d observed skipped)
include h

theorem Inv.le_of_isTSNValid {tsn : TSN} (hv : d.isTSNValid tsn) :
    d.tsnUnwrapper.peekUnwrap tsn ≤ d.lastCumulativeAckedTsn + kMaxAcceptedOutstandingFragments := by
  have hd := d.tsnUnwrapper.peekUnwrap_abs_le (by decide) h.unwrapper_started tsn
  have hu := h.unwrapper_le
  have hdiff : difference 32 (d.tsnUnwrapper.peekUnwrap tsn) d.lastCumulativeAckedTsn ≤
      kMaxAcceptedOutstandingFragments := of_decide_eq_true hv
  simp only [kMaxAcceptedOutstandingFragments, difference, abs_le] at *
  omega

theorem Inv.observe {tsn : TSN} (hv : d.isTSNValid tsn) (imm : Bool) :
    Inv p (d.observe tsn imm).1 (observed ∪ {d.tsnUnwrapper.peekUnwrap tsn}) skipped := by
  obtain ⟨hwf, hmem, -, hu, hle⟩ := observe_spec h.wellFormed tsn imm
  have hv' := h.le_of_isTSNValid hv
  have hfirst := h.firstTsn_le
  refine ⟨hwf, fun t => ?_, by omega, fun t ht => (h.skipped_le t ht).trans hle, ?_, ?_, ?_⟩
  · rw [hmem, h.mem_seen, Set.mem_union, Set.mem_singleton_iff]
    tauto
  · simp [hu]
  · rw [hu, unwrap_snd_lastUnwrapped]
    omega
  · intro t ht
    rcases (hmem t).mp ht with rfl | ht
    · omega
    · have := h.seen_le t ht
      omega

theorem Inv.handleForwardTsn (tsn : TSN) :
    Inv p (d.handleForwardTsn tsn).1 observed (skipped ∪ d.skippedBy (.handleForwardTsn tsn)) := by
  obtain ⟨hwf, hmem, hacc, hu, hle, hge⟩ := handleForwardTsn_spec h.wellFormed tsn
  have hfirst := h.firstTsn_le
  have hk : (0 : Int) ≤ kMaxAcceptedOutstandingFragments := Int.natCast_nonneg _
  refine ⟨hwf, fun t => ?_, by omega, ?_, ?_, ?_, ?_⟩
  · have hold : t ≤ d.lastCumulativeAckedTsn → t ∈ d.seen := .inl
    rw [hmem, ← or_assoc, Set.mem_union, ← or_assoc, or_assoc (b := t ∈ observed), ← h.mem_seen]
    simp only [skippedBy, Set.mem_ofPred_eq, hacc]
    by_cases hs : t ∈ d.seen
    · simp [hs]
    · have := lt_of_not_ge (mt hold hs)
      simp only [hs, or_false, false_or]
      omega
  · rintro t (ht | ⟨-, -, ht⟩)
    · exact (h.skipped_le t ht).trans hle
    · exact ht.trans hge
  · simp [hu]
  · rw [hu, unwrap_snd_lastUnwrapped]
    omega
  · intro t ht
    rcases (hmem t).mp ht with ht | ht
    · omega
    · have := h.seen_le t ht
      omega

end

theorem step_same {op : Op} (ho : ∀ tsn imm, op ≠ .observe tsn imm)
    (hf : ∀ tsn, op ≠ .handleForwardTsn tsn) : SameTsns d (d.step op) := by
  cases op with
  | observe tsn imm => exact absurd rfl (ho tsn imm)
  | handleForwardTsn tsn => exact absurd rfl (hf tsn)
  | createSelectiveAck a => exact ⟨rfl, rfl, rfl⟩
  | shouldSendAck a =>
    simp only [step, shouldSendAck]
    split_ifs
    · exact updateAckState_same d _
    · exact .refl d
  | forceImmediateSack => exact ⟨rfl, rfl, rfl⟩
  | handleDelayedAckTimerExpiry => exact updateAckState_same d _
  | observePacketEnd => exact .ite (updateAckState_same d _) (.refl d)

theorem Inv.step (h : Inv p d observed skipped) (op : Op) :
    Inv p (d.step op) (observed ∪ d.observedBy op) (skipped ∪ d.skippedBy op) := by
  cases op with
  | observe tsn imm =>
    simp only [DataTracker.step, observedBy, skippedBy, Set.union_empty]
    split_ifs with hv
    · simpa [hv] using h.observe hv imm
    · simpa [hv] using h
  | handleForwardTsn tsn =>
    simpa only [DataTracker.step, observedBy, Set.union_empty] using h.handleForwardTsn tsn
  | _ =>
    simp only [observedBy, skippedBy, Set.union_empty]
    exact h.of_same (step_same (by simp) (by simp))

theorem Reachable.inv (h : Reachable p d observed skipped) : Inv p d observed skipped := by
  induction h with
  | new => exact new_inv p
  | step op _ ih => exact ih.step op

end Steps

/-- In every reachable state the tracker stands for exactly the TSNs before the initial one,
the observed and the skipped ones; its blocks are nonempty, sorted and separated from each other
and from the cumulative ack point; and `Observe` reports exactly the unseen TSNs as new. -/
theorem reachable_seen_eq {p : TSN} {d : DataTracker} {observed skipped : Set Int}
    (h : Reachable p d observed skipped) : d.seen = {t | t < firstTsn p} ∪ observed ∪ skipped ∧
      d.additionalTsnBlocks.Pairwise (fun a b => a.last + 1 < b.first) ∧
      (∀ b ∈ d.additionalTsnBlocks, b.first ≤ b.last ∧ d.lastCumulativeAckedTsn + 2 ≤ b.first) ∧
      ∀ tsn imm, d.isTSNValid tsn →
        ((d.observe tsn imm).2 = true ↔ d.tsnUnwrapper.peekUnwrap tsn ∉ d.seen) := by
  have hi := h.inv
  obtain ⟨hpair, hblocks⟩ := hi.wellFormed.pairwise
  refine ⟨?_, hpair, fun b hb => (hblocks b hb).symm, fun tsn imm _ => ?_⟩
  · ext t
    rw [hi.mem_seen t, Set.union_assoc]
    exact Iff.rfl
  · obtain ⟨-, -, hnew, -⟩ := observe_spec hi.wellFormed tsn imm
    exact hnew

theorem reachable_seen_eq_observe_three :
    ∃ d, Reachable 1 d {3} ∅ ∧ d.additionalTsnBlocks = [⟨3, 3⟩] ∧
      d.seen = {t | t < firstTsn 1} ∪ {3} ∪ ∅ := by
  have hr : Reachable 1 ((DataTracker.new 1).step (.observe 3 false)) (∅ ∪ _) (∅ ∪ _) :=
    Reachable.new.step _
  have hobs : (DataTracker.new 1).observedBy (.observe 3 false) = {3} := by
    ext t
    have hv : (DataTracker.new 1).isTSNValid 3 = true := by decide
    have hp : (DataTracker.new 1).tsnUnwrapper.peekUnwrap 3 = 3 := by decide
    simp only [observedBy, hv, hp, true_and]
    exact Iff.rfl
  rw [hobs, Set.empty_union, show (DataTracker.new 1).skippedBy (.observe 3 false) = ∅ from rfl,
    Set.empty_union] at hr
  exact ⟨_, hr, by decide, (reachable_seen_eq hr).1⟩

end DataTracker

end WebRtc.DcSctp
