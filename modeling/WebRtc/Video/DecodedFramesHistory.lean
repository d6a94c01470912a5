import WebRtc.Lib.Checked
import WebRtc.Lib.Ring
import WebRtc.Numerics.FixedWidth

/-! The frames that were decoded lately (`decoded_frames_history.cc`), one bit for each id of a
window in a cyclic buffer. -/

namespace WebRtc.Video

structure DecodedFramesHistory where
  buffer : Nat → Bool
  size : Nat
  lastFrameId : Option Int
  lastDecodedFrame : Option Int
  lastDecodedFrameTimestamp : Option (BitVec 32)

namespace DecodedFramesHistory

variable (h : DecodedFramesHistory)

def create (windowSize : Nat) : DecodedFramesHistory := ⟨fun _ => false, windowSize, none, none, none⟩

def frameIdToIndex (frameId : Int) : Nat := (frameId % 2 ^ 64).toNat % h.size

def clearExpired (frameId lastFrameId : Int) : Nat → Bool :=
  let newIndex := h.frameIdToIndex frameId
  let idJump := int64 (frameId - lastFrameId)
  let lastIndex := h.frameIdToIndex lastFrameId
  if idJump ≥ h.size then fillRange h.buffer false 0 h.size
  else if newIndex > lastIndex then fillRange h.buffer false (lastIndex + 1) newIndex
  else fillRange (fillRange h.buffer false (lastIndex + 1) h.size) false 0 newIndex

def insertDecoded (frameId : Int) (timestamp : BitVec 32) : Option DecodedFramesHistory := do
  guard (h.lastFrameId.all fun last => last < frameId)
  let buffer := match h.lastFrameId with
    | none => h.buffer
    | some last => h.clearExpired frameId last
  return { h with
    buffer := Function.update buffer (h.frameIdToIndex frameId) true
    lastFrameId := some frameId
    lastDecodedFrame := some frameId
    lastDecodedFrameTimestamp := some timestamp }

def wasDecoded (frameId : Int) : Bool :=
  match h.lastFrameId with
  | none => false
  | some last =>
    if frameId ≤ int64 (last - h.size) then false
    else if frameId > last then false
    else h.buffer (h.frameIdToIndex frameId)

def clear : DecodedFramesHistory :=
  { h with
    buffer := fillRange h.buffer false 0 h.size
    lastFrameId := none
    lastDecodedFrame := none
    lastDecodedFrameTimestamp := none }

def Inner (frameId : Int) : Prop := -2 ^ 62 ≤ frameId ∧ frameId < 2 ^ 62

structure Remembers (decoded : Set Int) : Prop where
  power : ∃ k ≤ 62, h.size = 2 ^ k
  same : h.lastDecodedFrame = h.lastFrameId
  timestamp : h.lastDecodedFrameTimestamp.isSome = h.lastFrameId.isSome
  nothing : h.lastFrameId = none → decoded = ∅ ∧ ∀ i < h.size, h.buffer i = false
  last : ∀ last, h.lastFrameId = some last → Inner last ∧ last ∈ decoded ∧ ∀ d ∈ decoded, d ≤ last
  window : ∀ last, h.lastFrameId = some last → ∀ id, last - h.size < id → id ≤ last →
    (h.buffer (ringIndex h.size id) = true ↔ id ∈ decoded)

variable {h} {decoded : Set Int}

section

variable (hr : h.Remembers decoded)
include hr

theorem Remembers.index (id : Int) : h.frameIdToIndex id = ringIndex h.size id := by
  obtain ⟨k, hk, hsize⟩ := hr.power
  have hdvd : (h.size : Int) ∣ 2 ^ 64 := by
    rw [hsize, Nat.cast_pow]
    exact pow_dvd_pow (2 : Int) (by omega)
  have hmod : id % 2 ^ 64 % h.size = id % h.size := Int.emod_emod_of_dvd id hdvd
  have hnonneg : 0 ≤ id % 2 ^ 64 := Int.emod_nonneg _ (by norm_num)
  rw [frameIdToIndex, ringIndex, ← hmod, ← Int.natCast_inj, Int.toNat_of_nonneg]
  · rw [Int.natCast_emod, Int.toNat_of_nonneg hnonneg]
  · exact Int.emod_nonneg _ (by rw [hsize]; positivity)

theorem Remembers.size_pos : 0 < h.size := by
  obtain ⟨k, -, hsize⟩ := hr.power
  rw [hsize]
  positivity

theorem Remembers.size_le : (h.size : Int) ≤ 2 ^ 62 := by
  obtain ⟨k, hk, hsize⟩ := hr.power
  rw [hsize]
  push_cast
  exact pow_le_pow_right₀ (by norm_num) hk

theorem Remembers.wasDecoded_iff {id : Int} : h.wasDecoded id = true ↔
      id ∈ decoded ∧ ∃ last, h.lastFrameId = some last ∧ last - h.size < id := by
  unfold wasDecoded
  cases hlast : h.lastFrameId with
  | none => simp
  | some last =>
    obtain ⟨⟨hlow, hhigh⟩, -, hmax⟩ := hr.last last hlast
    have hsize := hr.size_le
    have hexact : int64 (last - h.size) = last - h.size := int64_eq_self (by omega) (by omega)
    simp only [hexact, Option.some.injEq, exists_eq_left']
    by_cases hold : id ≤ last - h.size
    · simp [hold]
    · by_cases hnew : id > last
      · have : id ∉ decoded := fun hmem => absurd (hmax id hmem) (not_le.mpr hnew)
        simp [hold, hnew, this]
      · rw [if_neg hold, if_neg hnew, hr.index, hr.window last hlast id (by omega) (by omega)]
        simp [not_le.mp hold]

theorem Remembers.clear : h.clear.Remembers ∅ :=
  ⟨hr.power, rfl, rfl, fun _ => ⟨rfl, fun i hi => if_pos ⟨Nat.zero_le i, hi⟩⟩, nofun, nofun⟩

end

theorem remembers_create {k : Nat} (hk : k ≤ 62) : (create (2 ^ k)).Remembers ∅ :=
  ⟨⟨k, hk, rfl⟩, rfl, rfl, fun _ => ⟨rfl, fun _ _ => rfl⟩, nofun, nofun⟩

theorem Remembers.clearExpired (hr : h.Remembers decoded) {last id x : Int}
    (hlast : h.lastFrameId = some last) (hid : Inner id) (hlt : last < id)
    (hx : id - h.size < x) (hx' : x < id) :
    h.clearExpired id last (ringIndex h.size x) = true ↔ x ∈ decoded := by
  obtain ⟨⟨hlow, hhigh⟩, hmem, hmax⟩ := hr.last last hlast
  have hpos := hr.size_pos
  have hexact : int64 (id - last) = id - last := int64_eq_self (by
    have := hid.1
    omega) (by
    have := hid.2
    omega)
  have hbound := ringIndex_lt hpos x
  unfold DecodedFramesHistory.clearExpired
  simp only [hexact, hr.index]
  by_cases hjump : id - last ≥ h.size
  · have hnew : x ∉ decoded := fun hmem => absurd (hmax x hmem) (by omega)
    rw [if_pos hjump, fillRange, if_pos ⟨Nat.zero_le _, hbound⟩]
    simp [hnew]
  · rw [if_neg hjump]
    -- The two blocks of the code are those from the slot after the last one.
    have hblocks : (if ringIndex h.size id > ringIndex h.size last then
          fillRange h.buffer false (ringIndex h.size last + 1) (ringIndex h.size id)
        else fillRange (fillRange h.buffer false (ringIndex h.size last + 1) h.size) false 0
          (ringIndex h.size id)) (ringIndex h.size x) =
        fillBlocks h.buffer false h.size (ringIndex h.size (last + 1)) (ringIndex h.size id)
          (ringIndex h.size x) := by
      have hlastlt := ringIndex_lt hpos last
      by_cases hone : h.size = 1
      · omega
      have hnext := ringIndex_add hpos last (show 1 < h.size by omega)
      push_cast at hnext
      rw [hnext]
      have hidlt := ringIndex_lt hpos id
      unfold fillBlocks
      split_ifs <;> simp only [fillRange] <;> split_ifs <;> first | rfl | omega
    rw [hblocks, fillBlocks_ringIndex hpos (by omega) (by omega) (by omega) (by omega)]
    by_cases hbetween : last < x
    · have hnew : x ∉ decoded := fun hmem => absurd (hmax x hmem) (by omega)
      rw [if_pos ⟨by omega, hx'⟩]
      simp [hnew]
    · rw [if_neg (by omega), hr.window last hlast x (by omega) (by omega)]

theorem Remembers.ensures_insertDecoded (hr : h.Remembers decoded) {id : Int}
    (timestamp : BitVec 32) (hid : Inner id) (hlt : ∀ last, h.lastFrameId = some last → last < id) :
    Ensures (h.insertDecoded id timestamp) fun h' =>
      h'.Remembers (insert id decoded) ∧ h'.lastFrameId = some id ∧ h'.size = h.size := by
  have hguard : (h.lastFrameId.all fun last => last < id) = true := by
    cases hlast : h.lastFrameId with
    | none => rfl
    | some last => simpa using hlt last hlast
  have hpos := hr.size_pos
  unfold insertDecoded
  refine .guard_bind hguard (.some ⟨⟨hr.power, rfl, rfl, nofun, ?_, ?_⟩, rfl, rfl⟩)
  · intro last hlast
    cases hlast
    refine ⟨hid, Set.mem_insert id decoded, ?_⟩
    rintro d (rfl | hd)
    · exact le_rfl
    · cases hlast : h.lastFrameId with
      | none =>
        rw [(hr.nothing hlast).1] at hd
        exact absurd hd (Set.notMem_empty d)
      | some last => exact ((hr.last last hlast).2.2 d hd).trans (hlt last hlast).le
  · intro last hlast x hx hx'
    cases hlast
    change id - h.size < x at hx
    dsimp only
    rw [hr.index]
    by_cases hxid : x = id
    · rw [hxid, Function.update_self]
      simp
    · rw [Function.update_of_ne fun heq => hxid ((ringIndex_inj (abs_lt.mpr ⟨by omega, by omega⟩)).mp heq)]
      rw [Set.mem_insert_iff, or_iff_right hxid]
      cases hlast : h.lastFrameId with
      | none =>
        obtain ⟨hempty, hclean⟩ := hr.nothing hlast
        simp [hempty, hclean _ (ringIndex_lt hpos x)]
      | some last => exact hr.clearExpired hlast hid (hlt last hlast) hx (by omega)

/-! ### Runs -/

structure HistoryRun where
  history : DecodedFramesHistory
  /-- The ids inserted since the last `Clear`. -/
  decoded : Set Int

inductive HistoryOp
  | insertDecoded (frameId : Int) (timestamp : BitVec 32)
  | clear

def historyMachine (windowSize : Nat) : Machine HistoryRun HistoryOp where
  initial r := r = ⟨create windowSize, ∅⟩
  enabled r
    | .insertDecoded id _ =>
      (-2 ^ 63 ≤ id ∧ id < 2 ^ 63) ∧ ∀ last, r.history.lastFrameId = some last → last < id
    | .clear => True
  step r
    | .insertDecoded id timestamp =>
      (r.history.insertDecoded id timestamp).map (⟨·, insert id r.decoded⟩)
    | .clear => some ⟨r.history.clear, ∅⟩

def InsertsInner (_ : HistoryRun) : HistoryOp → Prop
  | .insertDecoded id _ => Inner id
  | .clear => True

def HistoryRun.Exact (r : HistoryRun) : Prop :=
  ∀ id, r.history.wasDecoded id = true ↔
    id ∈ r.decoded ∧ ∃ last, IsGreatest r.decoded last ∧ last - r.history.size < id

variable {r : HistoryRun}

/-- With a window that divides the range of the unsigned remainder and ids that are not too far
apart, the history is exact and takes every next id. -/
theorem reachable_exact {k : Nat} (hk : k ≤ 31)
    (h : ((historyMachine (2 ^ k)).restrict InsertsInner).Reachable r) :
    r.Exact ∧ ∀ op, ((historyMachine (2 ^ k)).restrict InsertsInner).enabled r op →
      Ensures (((historyMachine (2 ^ k)).restrict InsertsInner).step r op) HistoryRun.Exact := by
  have hexact : ∀ r : HistoryRun, r.history.Remembers r.decoded → r.Exact := by
    intro r hr id
    rw [hr.wasDecoded_iff]
    refine and_congr_right fun hid => ?_
    constructor
    · rintro ⟨last, hlast, hlt⟩
      exact ⟨last, (hr.last last hlast).2, hlt⟩
    · rintro ⟨last, hlast, hlt⟩
      cases hnext : r.history.lastFrameId with
      | none =>
        rw [(hr.nothing hnext).1] at hid
        exact hid.elim
      | some last' => exact ⟨last', rfl, hlast.unique (hr.last last' hnext).2 ▸ hlt⟩
  have hinv := h.invariant (I := fun r => r.history.Remembers r.decoded) ?_ ?_
  · exact ⟨hexact r hinv.1, fun op he => (hinv.2 op he).mono hexact⟩
  · rintro _ rfl
    exact remembers_create (by omega)
  · rintro r (⟨id, timestamp⟩ | _) hr he
    · obtain ⟨history, hinsert, hr', -⟩ := hr.ensures_insertDecoded timestamp he.2 he.1.2
      exact ⟨_, congrArg (Option.map _) hinsert, hr'⟩
    · exact .some hr.clear

theorem reachable_exact_eight : ∃ r : HistoryRun, r.history.lastFrameId = some (-5) ∧ r.Exact := by
  have h0 : ((historyMachine (2 ^ 3)).restrict InsertsInner).Reachable ⟨create (2 ^ 3), ∅⟩ :=
    .initial rfl
  obtain ⟨-, hnext⟩ := reachable_exact (by decide) h0
  obtain ⟨r, hr, hexact⟩ := hnext (.insertDecoded (-5) 0)
    ⟨⟨⟨by decide, by decide⟩, nofun⟩, by decide, by decide⟩
  cases hr
  exact ⟨_, rfl, hexact⟩

theorem reachable_inexact : ∃ r, (historyMachine 3).Reachable r ∧ ¬ r.Exact := by
  refine ⟨_, .step (.initial rfl) (show (historyMachine 3).enabled _ (.insertDecoded 0 0) from
    ⟨by decide, nofun⟩) rfl, fun h => ?_⟩
  have hmem : (-1 : Int) ∈ insert 0 (∅ : Set Int) := ((h (-1)).mp (by decide)).1
  simp at hmem

end DecodedFramesHistory

end WebRtc.Video
