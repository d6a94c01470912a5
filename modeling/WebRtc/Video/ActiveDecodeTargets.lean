import WebRtc.Lib.Checked

/-! Signalling the active decode targets (`active_decode_targets_helper.cc`) with the chain diffs of
`chain_diff_calculator.cc`. The helper learns from equal differences of frame ids which chains the
previous frame was on. A `bitset<32>` is the set of its positions. -/

namespace WebRtc.Video

open List

/-- The difference of two frame ids as an `int`. -/
def toInt (difference : Int) : Int := Int.bmod difference (2 ^ 32)

namespace ChainDiffCalculator

def reset (lastFrameInChain : List (Option Int)) (chains : List Bool) : List (Option Int) :=
  (List.range chains.length).map fun i =>
    if chains.getD i false then none else lastFrameInChain.getD i none

def chainDiffs (lastFrameInChain : List (Option Int)) (frameId : Int) : List Int :=
  lastFrameInChain.map fun
    | some frameIdInChain => toInt (frameId - frameIdInChain)
    | none => 0

def «from» (lastFrameInChain : List (Option Int)) (frameId : Int) (chains : List Bool) :
    List Int × List (Option Int) :=
  (chainDiffs lastFrameInChain frameId,
    lastFrameInChain.mapIdx fun i last => if chains.getD i false then some frameId else last)

end ChainDiffCalculator

open ChainDiffCalculator

def lastSendOnChain (frameDiff : Int) (chainDiffs : List Int) : Finset Nat :=
  (Finset.range chainDiffs.length).filter fun i => chainDiffs.getD i 0 = frameDiff

def allActive (num : Nat) : Option (Finset Nat) :=
  if num ≤ 32 then some (Finset.range num) else none

def activeChains (decodeTargetProtectedByChain : List Nat) (numChains : Nat)
    (activeDecodeTargets : Finset Nat) : Option (Finset Nat) :=
  let chains := (List.range decodeTargetProtectedByChain.length).filterMap fun dt =>
    if dt < 32 ∧ dt ∉ activeDecodeTargets then none else decodeTargetProtectedByChain[dt]?
  if ∀ chainIdx ∈ chains, chainIdx < numChains then some chains.toFinset else none

structure ActiveDecodeTargetsHelper where
  unsentOnChain : Finset Nat
  lastActiveDecodeTargets : Finset Nat
  lastActiveChains : Finset Nat
  lastFrameId : Int
  deriving DecidableEq

namespace ActiveDecodeTargetsHelper

def initial : ActiveDecodeTargetsHelper := ⟨∅, ∅, ∅, 0⟩

def activeDecodeTargetsBitmask (h : ActiveDecodeTargetsHelper) : Option (Finset Nat) :=
  if h.unsentOnChain = ∅ then none else some h.lastActiveDecodeTargets

def advance (h : ActiveDecodeTargetsHelper) (allDecodeTargets : Finset Nat) (isKeyframe : Bool)
    (frameId : Int) (chainDiffs : List Int) : Option ActiveDecodeTargetsHelper :=
  if isKeyframe then do
    let chains ← allActive chainDiffs.length
    return ⟨∅, allDecodeTargets, chains, frameId⟩
  else some { h with
    unsentOnChain := h.unsentOnChain \ lastSendOnChain (toInt (frameId - h.lastFrameId)) chainDiffs
    lastFrameId := frameId }

def compare (h : ActiveDecodeTargetsHelper) (decodeTargetProtectedByChain : List Nat)
    (numChains : Nat) (activeDecodeTargets : Finset Nat) : Option ActiveDecodeTargetsHelper :=
  if activeDecodeTargets = h.lastActiveDecodeTargets then some h
  else if activeDecodeTargets = ∅ then some { h with lastActiveDecodeTargets := ∅ }
  else do
    let chains ← activeChains decodeTargetProtectedByChain numChains activeDecodeTargets
    guard (chains ≠ ∅)
    return ⟨chains, activeDecodeTargets, chains, h.lastFrameId⟩

def onFrame (h : ActiveDecodeTargetsHelper) (decodeTargetProtectedByChain : List Nat)
    (activeDecodeTargets : Finset Nat) (isKeyframe : Bool) (frameId : Int)
    (chainDiffs : List Int) : Option ActiveDecodeTargetsHelper :=
  if chainDiffs = [] then some { h with lastActiveDecodeTargets := activeDecodeTargets }
  else if decodeTargetProtectedByChain = [] then none
  else do
    let allDecodeTargets ← allActive decodeTargetProtectedByChain.length
    let h ← h.advance allDecodeTargets isKeyframe frameId chainDiffs
    h.compare decodeTargetProtectedByChain chainDiffs.length
      (activeDecodeTargets ∩ allDecodeTargets)

end ActiveDecodeTargetsHelper

open ActiveDecodeTargetsHelper

structure ChainStructure where
  numChains : Nat
  protectedBy : List Nat
  deriving DecidableEq

def ChainStructure.targets (st : ChainStructure) : Finset Nat := Finset.range st.protectedBy.length

structure ChainStructure.Valid (st : ChainStructure) : Prop where
  targets_pos : 0 < st.protectedBy.length
  targets_le : st.protectedBy.length ≤ 32
  chains_le : st.numChains ≤ 32
  chain_lt : ∀ chain ∈ st.protectedBy, chain < st.numChains

instance (st : ChainStructure) : Decidable st.Valid :=
  decidable_of_iff (0 < st.protectedBy.length ∧ st.protectedBy.length ≤ 32 ∧ st.numChains ≤ 32 ∧
    ∀ chain ∈ st.protectedBy, chain < st.numChains)
    ⟨fun ⟨h₁, h₂, h₃, h₄⟩ => ⟨h₁, h₂, h₃, h₄⟩, fun ⟨h₁, h₂, h₃, h₄⟩ => ⟨h₁, h₂, h₃, h₄⟩⟩

structure ChainFrame where
  id : Int
  active : Finset Nat
  chains : List Bool
  deriving DecidableEq

def ChainFrame.On (f : ChainFrame) (chain : Nat) : Prop := f.chains.getD chain false = true

instance (f : ChainFrame) (chain : Nat) : Decidable (f.On chain) :=
  inferInstanceAs (Decidable (_ = _))

def ChainFrame.among (f : ChainFrame) (st : ChainStructure) : ChainFrame :=
  { f with active := f.active ∩ st.targets }

structure ChainState where
  lastFrameInChain : List (Option Int)
  helper : ActiveDecodeTargetsHelper
  chainStructure : ChainStructure
  frames : List ChainFrame

inductive ChainOp where
  | keyFrame (st : ChainStructure) (frame : ChainFrame)
  | deltaFrame (frame : ChainFrame)

def ChainState.send (s : ChainState) (isKeyframe : Bool) (frame : ChainFrame) :
    Option ChainState := do
  let (diffs, last) := ChainDiffCalculator.from s.lastFrameInChain frame.id frame.chains
  let helper ← s.helper.onFrame s.chainStructure.protectedBy frame.active isKeyframe frame.id diffs
  return { s with
    lastFrameInChain := last
    helper := helper
    frames := frame.among s.chainStructure :: s.frames }

def ChainState.step (s : ChainState) : ChainOp → Option ChainState
  | .keyFrame st frame =>
    ChainState.send { s with
      lastFrameInChain := ChainDiffCalculator.reset s.lastFrameInChain
        (List.replicate st.numChains true)
      chainStructure := st
      frames := [] } true frame
  | .deltaFrame frame => s.send false frame

def ChainState.Enabled (s : ChainState) : ChainOp → Prop
  | .keyFrame st frame =>
    st.Valid ∧ (frame.among st).active ≠ ∅ ∧ ∀ f ∈ s.frames, f.id < frame.id
  | .deltaFrame frame =>
    s.frames ≠ [] ∧ (frame.among s.chainStructure).active ≠ ∅ ∧ ∀ f ∈ s.frames, f.id < frame.id

instance (s : ChainState) (op : ChainOp) : Decidable (s.Enabled op) := by
  cases op <;> exact inferInstanceAs (Decidable (_ ∧ _ ∧ _))

def chainMachine : Machine ChainState ChainOp where
  initial s := s = ⟨[], .initial, ⟨0, []⟩, []⟩
  enabled := ChainState.Enabled
  step := ChainState.step

/-- The ids since the key frame differ by less than what an `int` distinguishes. -/
def ChainState.Near (s : ChainState) : ChainOp → Prop
  | .keyFrame _ _ => True
  | .deltaFrame frame => ∀ f ∈ s.frames, frame.id - f.id < 2 ^ 32

def sinceChange (all : Finset Nat) : List ChainFrame → Option (List ChainFrame)
  | [] => none
  | [key] => if key.active = all then none else some [key]
  | f :: g :: rest =>
    if f.active = g.active then (sinceChange all (g :: rest)).map (f :: ·) else some [f]

def MustCarry (st : ChainStructure) (frames : List ChainFrame) : Prop :=
  ∃ f before fs, frames = f :: before ∧ sinceChange st.targets frames = some fs ∧
    ∃ t ∈ f.active, ∃ chain, st.protectedBy[t]? = some chain ∧ ∀ g ∈ fs.tail, ¬ g.On chain

def ChainStructure.Protects (st : ChainStructure) (active : Finset Nat) (chain : Nat) : Prop :=
  ∃ t ∈ active, st.protectedBy[t]? = some chain

def lastOn (chain : Nat) (frames : List ChainFrame) : Option Int :=
  (frames.find? fun f => decide (f.On chain)).map (·.id)

variable {f : ChainFrame} {chain : Nat}

theorem lastOn_cons_pos (h : f.On chain) (fs : List ChainFrame) :
    lastOn chain (f :: fs) = some f.id := by
  rw [lastOn, List.find?_cons_of_pos (by simpa using h), Option.map_some]

theorem lastOn_cons_neg (h : ¬ f.On chain) (fs : List ChainFrame) :
    lastOn chain (f :: fs) = lastOn chain fs := by
  rw [lastOn, List.find?_cons_of_neg (by simpa using h), lastOn]

theorem lastOn_mem {fs : List ChainFrame} {id : Int} (h : lastOn chain fs = some id) :
    ∃ f ∈ fs, f.id = id := by
  obtain ⟨f, hf, he⟩ := Option.map_eq_some_iff.mp h
  exact ⟨f, mem_of_find?_eq_some hf, he⟩

theorem emod_of_toInt_eq {a b : Int} (h : toInt a = toInt b) : a % 2 ^ 32 = b % 2 ^ 32 := by
  have h' := congrArg (· % (2 ^ 32 : Int)) h
  have ha : toInt a % 2 ^ 32 = a % 2 ^ 32 := Int.bmod_emod ..
  have hb : toInt b % 2 ^ 32 = b % 2 ^ 32 := Int.bmod_emod ..
  simpa only [ha, hb] using h'

section Structure

variable {st : ChainStructure} (hv : st.Valid) {active : Finset Nat} (hsub : active ⊆ st.targets)

include hv hsub

theorem activeChains_eq : ∃ chains, activeChains st.protectedBy st.numChains active = some chains ∧
    ∀ i, i ∈ chains ↔ st.Protects active i := by
  have hmem : ∀ i, i ∈ ((List.range st.protectedBy.length).filterMap fun dt =>
      if dt < 32 ∧ dt ∉ active then none else st.protectedBy[dt]?) ↔ st.Protects active i := by
    intro i
    rw [mem_filterMap]
    constructor
    · rintro ⟨t, ht, hi⟩
      have hlt := mem_range.mp ht
      have hle := hv.targets_le
      split at hi
      · cases hi
      · next hin => exact ⟨t, by_contra fun hno => hin ⟨by omega, hno⟩, hi⟩
    · rintro ⟨t, ht, hi⟩
      refine ⟨t, mem_range.mpr (Finset.mem_range.mp (hsub ht)), ?_⟩
      rw [if_neg fun hno => hno.2 ht, hi]
  have hlt : ∀ chain ∈ ((List.range st.protectedBy.length).filterMap fun dt =>
      if dt < 32 ∧ dt ∉ active then none else st.protectedBy[dt]?), chain < st.numChains := by
    intro chain hc
    obtain ⟨t, _, ht⟩ := (hmem chain).mp hc
    exact hv.chain_lt chain (mem_of_getElem? ht)
  rw [activeChains, if_pos hlt]
  exact ⟨_, rfl, fun i => mem_toFinset.trans (hmem i)⟩

omit hv in
theorem exists_protects (hne : active ≠ ∅) : ∃ i, st.Protects active i := by
  obtain ⟨t, ht⟩ := Finset.nonempty_iff_ne_empty.mpr hne
  have hlt := Finset.mem_range.mp (hsub ht)
  exact ⟨st.protectedBy[t], t, ht, List.getElem?_eq_getElem hlt⟩

theorem compare_eq (h : ActiveDecodeTargetsHelper) (hne : active ≠ ∅) :
    ∃ h', h.compare st.protectedBy st.numChains active = some h' ∧
      h'.lastActiveDecodeTargets = active ∧ h'.lastFrameId = h.lastFrameId ∧
      ∀ i, i ∈ h'.unsentOnChain ↔ if active = h.lastActiveDecodeTargets then i ∈ h.unsentOnChain
        else st.Protects active i := by
  rw [ActiveDecodeTargetsHelper.compare]
  by_cases he : active = h.lastActiveDecodeTargets
  · rw [if_pos he]
    exact ⟨h, rfl, he.symm, rfl, fun i => by rw [if_pos he]⟩
  · obtain ⟨chains, hc, hmem⟩ := activeChains_eq hv hsub
    obtain ⟨i, hi⟩ := exists_protects hsub hne
    have hch : chains ≠ ∅ := Finset.ne_empty_of_mem ((hmem i).mpr hi)
    rw [if_neg he, if_neg hne, hc]
    refine ⟨⟨chains, active, chains, h.lastFrameId⟩, ?_, rfl, rfl, fun i => ?_⟩
    · simp only [Option.bind_eq_bind, Option.bind_some, guard, if_pos hch]
      rfl
    · rw [if_neg he]
      exact hmem i

end Structure

/-- What the two components know, after frame `f` and the frames before it since the key frame. -/
structure ChainState.Tracks (s : ChainState) (f : ChainFrame) (before : List ChainFrame) :
    Prop where
  frames : s.frames = f :: before
  valid : s.chainStructure.Valid
  length : s.lastFrameInChain.length = s.chainStructure.numChains
  last : ∀ i < s.chainStructure.numChains, s.lastFrameInChain[i]? = some (lastOn i s.frames)
  active : s.helper.lastActiveDecodeTargets = f.active
  frameId : s.helper.lastFrameId = f.id
  unsent : ∀ i, i ∈ s.helper.unsentOnChain ↔
    s.chainStructure.Protects f.active i ∧
      ∃ fs, sinceChange s.chainStructure.targets s.frames = some fs ∧ ∀ g ∈ fs.tail, ¬ g.On i
  decreasing : s.frames.Pairwise fun newer older => older.id < newer.id

theorem sinceChange_head {all : Finset Nat} {before fs : List ChainFrame}
    (h : sinceChange all (f :: before) = some fs) : fs = f :: fs.tail := by
  cases before with
  | nil =>
    rw [sinceChange] at h
    split at h <;> cases h
    rfl
  | cons g rest =>
    rw [sinceChange] at h
    split at h
    · obtain ⟨fs', _, rfl⟩ := Option.map_eq_some_iff.mp h
      rfl
    · cases h
      rfl

variable {st : ChainStructure}

theorem ChainStructure.Valid.chain_bound (hv : st.Valid) {active : Finset Nat}
    {i : Nat} (h : st.Protects active i) : i < st.numChains := by
  obtain ⟨t, _, ht⟩ := h
  exact hv.chain_lt i (mem_of_getElem? ht)

theorem ChainStructure.Valid.numChains_pos (hv : st.Valid) : 0 < st.numChains := by
  have hp := hv.targets_pos
  exact Nat.zero_lt_of_lt (hv.chain_lt _ (getElem_mem hp))

variable {s : ChainState}

theorem ChainState.Tracks.mem_lastSendOnChain
    {before : List ChainFrame} (h : s.Tracks f before) {id : Int} (hlt : ∀ g ∈ s.frames, g.id < id)
    (hnear : ∀ g ∈ s.frames, id - g.id < 2 ^ 32) {i : Nat} (hi : i < s.chainStructure.numChains) :
    i ∈ lastSendOnChain (toInt (id - s.helper.lastFrameId))
      (chainDiffs s.lastFrameInChain id) ↔ f.On i := by
  have hd : (chainDiffs s.lastFrameInChain id).getD i 0 =
      match lastOn i s.frames with
      | some l => toInt (id - l)
      | none => 0 := by
    rw [getD_eq_getElem?_getD, chainDiffs, List.getElem?_map, h.last i hi]
    rfl
  have hlen : i < (chainDiffs s.lastFrameInChain id).length := by
    rw [chainDiffs, length_map, h.length]
    exact hi
  rw [lastSendOnChain, Finset.mem_filter, Finset.mem_range, hd, h.frameId]
  have hf : f ∈ s.frames := by simp [h.frames]
  have hf₁ := hlt f hf
  have hf₂ := hnear f hf
  by_cases hon : f.On i
  · rw [h.frames, lastOn_cons_pos hon]
    exact iff_of_true ⟨hlen, rfl⟩ hon
  · refine iff_of_false ?_ hon
    rintro ⟨-, heq⟩
    rw [h.frames, lastOn_cons_neg hon] at heq
    cases hl : lastOn i before with
    | none =>
      rw [hl] at heq
      have hz : toInt 0 = toInt (id - f.id) := heq
      have := emod_of_toInt_eq hz
      omega
    | some l =>
      rw [hl] at heq
      obtain ⟨g, hg, rfl⟩ := lastOn_mem hl
      have hdec := h.decreasing
      rw [h.frames] at hdec
      have hgf := (pairwise_cons.mp hdec).1 g hg
      have hg₂ := hnear g (by simp [h.frames, hg])
      have := emod_of_toInt_eq heq
      omega

theorem among_subset (f : ChainFrame) (st : ChainStructure) : (f.among st).active ⊆ st.targets :=
  Finset.inter_subset_right

theorem onFrame_eq (hv : st.Valid) {h h₁ : ActiveDecodeTargetsHelper}
    (active : Finset Nat) {isKeyframe : Bool} {id : Int} {diffs : List Int}
    (hd : diffs.length = st.numChains) (ha : h.advance st.targets isKeyframe id diffs = some h₁) :
    h.onFrame st.protectedBy active isKeyframe id diffs =
      h₁.compare st.protectedBy st.numChains (active ∩ st.targets) := by
  have hp := hv.targets_pos
  have hc := hv.numChains_pos
  have hdne : diffs ≠ [] := ne_nil_of_length_pos (by omega)
  rw [onFrame, if_neg hdne, if_neg (ne_nil_of_length_pos hp), allActive, if_pos hv.targets_le, ← hd]
  change (h.advance st.targets isKeyframe id diffs).bind _ = _
  rw [ha]
  rfl

theorem getElem?_from {last : List (Option Int)} {frames : List ChainFrame} {i : Nat}
    (h : last[i]? = some (lastOn i frames)) (f : ChainFrame) (st : ChainStructure) :
    (ChainDiffCalculator.from last f.id f.chains).2[i]? =
      some (lastOn i (f.among st :: frames)) := by
  rw [ChainDiffCalculator.from, List.getElem?_mapIdx, h, Option.map_some]
  by_cases hon : f.On i
  · rw [lastOn_cons_pos (show (f.among st).On i from hon)]
    exact congrArg some (if_pos hon)
  · rw [lastOn_cons_neg (show ¬ (f.among st).On i from hon)]
    exact congrArg some (if_neg hon)

theorem length_from (last : List (Option Int)) (f : ChainFrame) :
    (ChainDiffCalculator.from last f.id f.chains).1.length = last.length ∧
      (ChainDiffCalculator.from last f.id f.chains).2.length = last.length := by
  simp [ChainDiffCalculator.from, chainDiffs]

namespace ChainState

theorem keyFrame_tracks (s : ChainState) (hv : st.Valid) (hne : (f.among st).active ≠ ∅) :
    Ensures (s.step (.keyFrame st f)) fun s' => s'.Tracks (f.among st) [] := by
  have hlen : (reset s.lastFrameInChain
      (List.replicate st.numChains true)).length = st.numChains := by
    simp [reset]
  have hlast : ∀ i < st.numChains, (reset s.lastFrameInChain
      (List.replicate st.numChains true))[i]? = some (lastOn i []) := by
    intro i hi
    simp [reset, hi, lastOn]
  obtain ⟨hd, hl⟩ := length_from (reset s.lastFrameInChain (List.replicate st.numChains true)) f
  have hadv : s.helper.advance st.targets true f.id (ChainDiffCalculator.from
      (reset s.lastFrameInChain (List.replicate st.numChains true)) f.id
        f.chains).1 = some ⟨∅, st.targets, Finset.range st.numChains, f.id⟩ := by
    rw [advance, if_pos rfl, allActive, hd, hlen, if_pos hv.chains_le]
    rfl
  obtain ⟨h', hcmp, hact, hid, hun⟩ := compare_eq hv (among_subset f st)
    ⟨∅, st.targets, Finset.range st.numChains, f.id⟩ hne
  have hon := (onFrame_eq hv f.active (hd.trans hlen) hadv).trans hcmp
  refine ⟨⟨_, h', st, [f.among st]⟩, ?_, rfl, hv, hl.trans hlen, fun i hi => ?_, hact, hid,
    fun i => ?_, pairwise_singleton ..⟩
  · rw [step, send]
    dsimp only
    rw [hon]
    rfl
  · exact getElem?_from (hlast i hi) f st
  · rw [hun]
    dsimp only [sinceChange]
    by_cases he : (f.among st).active = st.targets
    · simp [he]
    · simp [he]

theorem Tracks.deltaFrame {f f' : ChainFrame} {before : List ChainFrame}
    (h : s.Tracks f before) (hne : (f'.among s.chainStructure).active ≠ ∅)
    (hlt : ∀ g ∈ s.frames, g.id < f'.id) (hnear : ∀ g ∈ s.frames, f'.id - g.id < 2 ^ 32) :
    Ensures (s.step (.deltaFrame f')) fun s' =>
      s'.Tracks (f'.among s.chainStructure) (f :: before) := by
  obtain ⟨hd, hl⟩ := length_from s.lastFrameInChain f'
  obtain ⟨h', hcmp, hact, hid, hun⟩ := compare_eq h.valid (among_subset f' s.chainStructure)
    { s.helper with
      unsentOnChain := s.helper.unsentOnChain \ lastSendOnChain
        (toInt (f'.id - s.helper.lastFrameId))
        (ChainDiffCalculator.from s.lastFrameInChain f'.id f'.chains).1
      lastFrameId := f'.id } hne
  have hon := (onFrame_eq h.valid f'.active (hd.trans h.length)
    (show s.helper.advance s.chainStructure.targets false f'.id _ = some _ from rfl)).trans hcmp
  refine ⟨⟨_, h', s.chainStructure, f'.among s.chainStructure :: s.frames⟩, ?_, ?_, h.valid,
    hl.trans h.length, fun i hi => getElem?_from (h.last i hi) f' _, hact, hid, fun i => ?_, ?_⟩
  · rw [step, send]
    dsimp only
    rw [hon]
    rfl
  · rw [h.frames]
  · rw [hun]
    dsimp only
    rw [h.frames, sinceChange, h.active, ← h.frames]
    by_cases he : (f'.among s.chainStructure).active = f.active
    · -- the chains of the previous frame leave the unsent ones
      rw [if_pos he, if_pos he, he, Finset.mem_sdiff, h.unsent]
      constructor
      · rintro ⟨⟨hp, fs, hfs, hall⟩, hnot⟩
        refine ⟨hp, f'.among s.chainStructure :: fs, by rw [hfs, Option.map_some], ?_⟩
        have hnf : ¬ f.On i := fun hon =>
          hnot ((h.mem_lastSendOnChain hlt hnear (h.valid.chain_bound hp)).mpr hon)
        rw [h.frames] at hfs
        rw [tail_cons, sinceChange_head hfs]
        exact forall_mem_cons.mpr ⟨hnf, hall⟩
      · rintro ⟨hp, fs', hfs', hall⟩
        obtain ⟨fs, hfs, rfl⟩ := Option.map_eq_some_iff.mp hfs'
        have hfs₂ := hfs
        rw [h.frames] at hfs₂
        rw [tail_cons, sinceChange_head hfs₂] at hall
        obtain ⟨hnf, hall⟩ := forall_mem_cons.mp hall
        exact ⟨⟨hp, fs, hfs, hall⟩, fun hin =>
          hnf ((h.mem_lastSendOnChain hlt hnear (h.valid.chain_bound hp)).mp hin)⟩
    · rw [if_neg he, if_neg he]
      simp
  · rw [pairwise_cons]
    exact ⟨hlt, h.decreasing⟩

theorem Tracks.bitmask {before : List ChainFrame} (h : s.Tracks f before) :
    (s.helper.activeDecodeTargetsBitmask = some f.active ↔ MustCarry s.chainStructure s.frames) ∧
      (s.helper.activeDecodeTargetsBitmask = none ↔ ¬ MustCarry s.chainStructure s.frames) := by
  have hmust : MustCarry s.chainStructure s.frames ↔ s.helper.unsentOnChain ≠ ∅ := by
    rw [← Finset.nonempty_iff_ne_empty]
    constructor
    · rintro ⟨f₁, before₁, fs, hfr, hfs, t, ht, chain, hc, hall⟩
      obtain ⟨rfl, rfl⟩ : f = f₁ ∧ before = before₁ := by simpa [h.frames] using hfr
      exact ⟨chain, (h.unsent chain).mpr ⟨⟨t, ht, hc⟩, fs, hfs, hall⟩⟩
    · rintro ⟨chain, hc⟩
      obtain ⟨⟨t, ht, hp⟩, fs, hfs, hall⟩ := (h.unsent chain).mp hc
      exact ⟨f, before, fs, h.frames, hfs, t, ht, chain, hp, hall⟩
  rw [hmust, activeDecodeTargetsBitmask, h.active]
  by_cases he : s.helper.unsentOnChain = ∅ <;> simp [he]

end ChainState

/-- In a run whose ids stay near since the key frame, every frame is accepted, and it carries the
bitmask of its active targets exactly if it must. -/
theorem activeDecodeTargets_carried {s : ChainState}
    (h : (chainMachine.restrict ChainState.Near).Reachable s) :
    (∀ f before, s.frames = f :: before → (s.helper.activeDecodeTargetsBitmask = some f.active ↔
        MustCarry s.chainStructure s.frames) ∧
      (s.helper.activeDecodeTargetsBitmask = none ↔ ¬ MustCarry s.chainStructure s.frames)) ∧
    ∀ op, s.Enabled op → s.Near op → (s.step op).isSome = true := by
  have hi := h.invariant (I := fun s => s.frames = [] ∨ ∃ f before, s.Tracks f before)
    (fun s hs => by cases hs; exact .inl rfl) ?_
  · refine ⟨fun f before hf => ?_, fun op he hn => ?_⟩
    · rcases hi.1 with hnil | ⟨f', before', ht⟩
      · rw [hnil] at hf
        cases hf
      · obtain ⟨rfl, rfl⟩ : f' = f ∧ before' = before := by simpa [ht.frames] using hf
        exact ht.bitmask
    · obtain ⟨s', hs', _⟩ := hi.2 op ⟨he, hn⟩
      exact Option.isSome_of_eq_some hs'
  · rintro s op hinv ⟨he, hn⟩
    cases op with
    | keyFrame st f => exact (s.keyFrame_tracks he.1 he.2.1).mono fun s' ht => .inr ⟨_, _, ht⟩
    | deltaFrame f' =>
      obtain ⟨hfr, hne, hlt⟩ := he
      obtain ⟨f, before, ht⟩ := hinv.resolve_left hfr
      exact (ht.deltaFrame hne hlt hn).mono fun s' ht' => .inr ⟨_, _, ht'⟩

instance (s : ChainState) (op : ChainOp) : Decidable (s.Near op) := by
  cases op
  · exact inferInstanceAs (Decidable True)
  · exact inferInstanceAs (Decidable (∀ f ∈ s.frames, _))

instance (s : ChainState) (op : ChainOp) : Decidable (chainMachine.enabled s op) :=
  inferInstanceAs (Decidable (s.Enabled op))

instance (s : ChainState) (op : ChainOp) :
    Decidable ((chainMachine.restrict ChainState.Near).enabled s op) :=
  inferInstanceAs (Decidable (s.Enabled op ∧ s.Near op))

/-- Two targets with a chain each. The second one alone is active from the key frame on, which is
only on the first chain; the next frame has the given id. -/
def secondTargetOnly (id : Int) : List ChainOp :=
  [.keyFrame ⟨2, [0, 1]⟩ ⟨0, {1}, [true, false]⟩, .deltaFrame ⟨id, {1}, [false, true]⟩]

def secondTargetFrames (id : Int) : List ChainFrame :=
  [⟨id, {1}, [false, true]⟩, ⟨0, {1}, [true, false]⟩]

theorem secondTarget_mustCarry (id : Int) : MustCarry ⟨2, [0, 1]⟩ (secondTargetFrames id) := by
  refine ⟨_, _, secondTargetFrames id, rfl, ?_, 1, by simp, 1, rfl, ?_⟩
  · rw [secondTargetFrames, sinceChange, if_pos rfl, sinceChange, if_neg (by decide)]
    rfl
  · simp [secondTargetFrames, ChainFrame.On]

theorem activeDecodeTargets_carried_second :
    ∃ s, (chainMachine.restrict ChainState.Near).Reachable s ∧
      s.helper.activeDecodeTargetsBitmask = some {1} := by
  have hrun : ((chainMachine.restrict ChainState.Near).run ⟨[], .initial, ⟨0, []⟩, []⟩
      (secondTargetOnly 1)).any (fun s => decide (s.chainStructure = ⟨2, [0, 1]⟩ ∧
        s.frames = secondTargetFrames 1)) = true := by decide +kernel
  obtain ⟨s, hr, hd⟩ := Option.any_eq_true .. |>.mp hrun
  obtain ⟨hst, hfr⟩ := of_decide_eq_true hd
  have hreach := Machine.Reachable.run (.initial rfl) hr
  refine ⟨s, hreach, (((activeDecodeTargets_carried hreach).1 _ _ hfr).1).mpr ?_⟩
  rw [hst, hfr]
  exact secondTarget_mustCarry 1

/-- An id that is ahead by `2 ^ 32` looks like a frame on a chain that has none. -/
theorem bitmask_lost_at_distant_id :
    ∃ s, chainMachine.Reachable s ∧ MustCarry s.chainStructure s.frames ∧
      s.helper.activeDecodeTargetsBitmask = none := by
  have hrun : (chainMachine.run ⟨[], .initial, ⟨0, []⟩, []⟩ (secondTargetOnly (2 ^ 32))).any
      (fun s => decide (s.helper.activeDecodeTargetsBitmask = none ∧
        s.chainStructure = ⟨2, [0, 1]⟩ ∧ s.frames = secondTargetFrames (2 ^ 32))) = true := by
    decide +kernel
  obtain ⟨s, hr, hd⟩ := Option.any_eq_true .. |>.mp hrun
  obtain ⟨hb, hst, hfr⟩ := of_decide_eq_true hd
  refine ⟨s, .run (.initial rfl) hr, ?_, hb⟩
  rw [hst, hfr]
  exact secondTarget_mustCarry _

end WebRtc.Video
