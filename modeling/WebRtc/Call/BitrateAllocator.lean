import WebRtc.Lib.Checked

/-! How the send bitrate is split between the tracks (`bitrate_allocator.cc`). -/

namespace WebRtc.Call

open List

/-- A track with what the allocator knows of it; `minBitrateWithHysteresis` may be any value. -/
structure AllocatableTrack where
  minBitrateBps : Nat
  maxBitrateBps : Nat
  priorityBitrateBps : Int
  enforceMinBitrate : Bool
  bitratePriority : ℚ
  lastAllocatedBitrate : BitVec 32
  minBitrateWithHysteresis : BitVec 32

abbrev Allocation := List (AllocatableTrack × Int)

def toUint32 (x : Int) : Nat := (x % 2 ^ 32).toNat

def toInt32 (n : Nat) : Int := (BitVec.ofNat 32 n).toInt

def wrapSub (a b : Nat) : Option Nat := some (if b ≤ a then a - b else a + 2 ^ 32 - b)

abbrev Subtraction := Nat → Nat → Option Nat

section Model

variable (sub : Subtraction)

def enoughBitrateForAllObservers (tracks : List AllocatableTrack) (bitrate sumMinBitrates : Nat) :
    Option Bool := do
  if bitrate < sumMinBitrates then return false
  else
    let extraBitratePerObserver := (← sub bitrate sumMinBitrates) / tracks.length
    return tracks.all fun track =>
      track.minBitrateWithHysteresis.toNat ≤
        (track.minBitrateBps + extraBitratePerObserver) % 2 ^ 32

def evenLoop (maxMultiplier : Nat) : Nat → Allocation → Option Allocation
  | _, [] => some []
  | bitrate, (track, allocated) :: rest => do
    guard (0 < bitrate)
    let extraAllocation := bitrate / (rest.length + 1)
    let totalAllocation := toUint32 (extraAllocation + allocated)
    let bitrate ← sub bitrate extraAllocation
    let limit := maxMultiplier * track.maxBitrateBps % 2 ^ 32
    if limit < totalAllocation then
      let excess ← sub totalAllocation limit
      let others ← evenLoop maxMultiplier ((bitrate + excess) % 2 ^ 32) rest
      return (track, toInt32 limit) :: others
    else
      let others ← evenLoop maxMultiplier bitrate rest
      return (track, toInt32 totalAllocation) :: others

def distributeBitrateEvenly (bitrate : Nat) (includeZeroAllocations : Bool) (maxMultiplier : Nat)
    (allocation : Allocation) : Option Allocation := do
  let listMaxBitrates := (allocation.filter fun a => includeZeroAllocations || decide (a.2 ≠ 0))
    |>.insertionSort fun a b => a.1.maxBitrateBps ≤ b.1.maxBitrateBps
  let others := allocation.filter fun a => ! (includeZeroAllocations || decide (a.2 ≠ 0))
  return others ++ (← evenLoop sub maxMultiplier bitrate listMaxBitrates)

structure Share where
  track : AllocatableTrack
  allocation : Int
  capacity : Int

def truncate (x : ℚ) : Int := if 0 ≤ x then ⌊x⌋ else ⌈x⌉

def shareRest (bitratePrioritySum : ℚ) (remainingBitrate : Nat) (shares : List Share) : Allocation :=
  shares.map fun s => (s.track, truncate (s.allocation +
    s.track.bitratePriority / bitratePrioritySum * remainingBitrate))

def relativeLoop : ℚ → Nat → List Share → Option Allocation
  | _, _, [] => some []
  | bitratePrioritySum, remainingBitrate, s :: rest => do
    let allocationBps := s.track.bitratePriority / bitratePrioritySum * remainingBitrate
    if s.capacity ≤ allocationBps then
      let remainingBitrate ← sub remainingBitrate (toUint32 s.capacity)
      let others ← relativeLoop (bitratePrioritySum - s.track.bitratePriority) remainingBitrate rest
      return (s.track, s.allocation + s.capacity) :: others
    else return shareRest bitratePrioritySum remainingBitrate (s :: rest)

def distributeBitrateRelatively (remainingBitrate : Nat) (shares : List Share) :
    Option Allocation :=
  let bitratePrioritySum := (shares.map fun s => s.track.bitratePriority).sum
  relativeLoop sub bitratePrioritySum remainingBitrate (shares.insertionSort fun a b =>
    a.capacity / a.track.bitratePriority ≤ b.capacity / b.track.bitratePriority)

def requiredLoop (leftOut : AllocatableTrack → Bool) : Int → Allocation → Int × Allocation
  | remainingBitrate, [] => (remainingBitrate, [])
  | remainingBitrate, (track, allocated) :: rest =>
    let requiredBitrate := track.minBitrateWithHysteresis.toNat
    if ¬ leftOut track ∧ requiredBitrate ≤ remainingBitrate then
      let (remainingBitrate, others) := requiredLoop leftOut (remainingBitrate - requiredBitrate) rest
      (remainingBitrate, (track, toInt32 requiredBitrate) :: others)
    else
      let (remainingBitrate, others) := requiredLoop leftOut remainingBitrate rest
      (remainingBitrate, (track, allocated) :: others)

def enforced (track : AllocatableTrack) : Int :=
  if track.enforceMinBitrate then toInt32 track.minBitrateBps else 0

def lowRateRequired (tracks : List AllocatableTrack) (bitrate : Nat) : Int × Allocation :=
  let allocation := tracks.map fun track => (track, enforced track)
  let remaining : Int := bitrate - (tracks.map enforced).sum
  let active := if 0 < remaining then requiredLoop (fun track =>
    track.enforceMinBitrate || decide (track.lastAllocatedBitrate = 0)) remaining allocation
    else (remaining, allocation)
  if 0 < active.1 then requiredLoop (fun track => decide (track.lastAllocatedBitrate ≠ 0))
    active.1 active.2 else active

def lowRateAllocation (tracks : List AllocatableTrack) (bitrate : Nat) : Option Allocation :=
  let (remaining, allocation) := lowRateRequired tracks bitrate
  if 0 < remaining then distributeBitrateEvenly sub (toUint32 remaining) false 1 allocation
  else some allocation

def priorityLoop : Nat → List Share → Option (Nat × List Share)
  | bitrate, [] => some (bitrate, [])
  | bitrate, s :: rest => do
    let priorityMargin := s.track.priorityBitrateBps - s.allocation
    if 0 < priorityMargin ∧ 0 < bitrate then
      let extraBitrate := min priorityMargin bitrate
      guard (extraBitrate < 2 ^ 31)
      let (bitrate, others) ← priorityLoop (← sub bitrate extraBitrate.toNat) rest
      return (bitrate, ⟨s.track, s.allocation + extraBitrate, s.capacity - extraBitrate⟩ :: others)
    else
      let (bitrate, others) ← priorityLoop bitrate rest
      return (bitrate, s :: others)

def initialShare (track : AllocatableTrack) : Option Share := do
  return ⟨track, toInt32 track.minBitrateBps, toInt32 (← sub track.maxBitrateBps track.minBitrateBps)⟩

def normalRateAllocation (tracks : List AllocatableTrack) (bitrate sumMinBitrates : Nat) :
    Option Allocation := do
  let shares ← tracks.mapM (initialShare sub)
  let (bitrate, shares) ← priorityLoop sub (← sub bitrate sumMinBitrates) shares
  if 0 < bitrate then distributeBitrateRelatively sub bitrate shares
  else return shares.map fun s => (s.track, s.allocation)

def maxRateAllocation (tracks : List AllocatableTrack) (bitrate : Nat) : Option Allocation := do
  let bitrate ← tracks.foldlM (fun bitrate track => sub bitrate track.maxBitrateBps) bitrate
  distributeBitrateEvenly sub bitrate true 2
    (tracks.map fun track => (track, toInt32 track.maxBitrateBps))

def allocateBitrates (tracks : List AllocatableTrack) (bitrate : BitVec 32) : Option Allocation := do
  if tracks = [] then return []
  else if bitrate = 0 then return tracks.map fun track => (track, 0)
  else
    let sumMinBitrates := (tracks.map (·.minBitrateBps)).sum % 2 ^ 32
    let sumMaxBitrates := (tracks.map (·.maxBitrateBps)).sum % 2 ^ 32
    if ¬ (← enoughBitrateForAllObservers sub tracks bitrate.toNat sumMinBitrates) then
      lowRateAllocation sub tracks bitrate.toNat
    else if bitrate.toNat ≤ sumMaxBitrates then
      normalRateAllocation sub tracks bitrate.toNat sumMinBitrates
    else maxRateAllocation sub tracks bitrate.toNat

end Model

/-! ### Conversions -/

variable {n : Nat}

theorem toUint32_natCast (h : n < 2 ^ 32) : toUint32 n = n := by
  unfold toUint32
  omega

theorem toInt32_cases (n : Nat) :
    toInt32 n = if 2 * (n % 2 ^ 32) < 2 ^ 32 then ((n % 2 ^ 32 : Nat) : Int)
      else ((n % 2 ^ 32 : Nat) : Int) - 2 ^ 32 := by
  rw [toInt32, BitVec.toInt_eq_toNat_cond, BitVec.toNat_ofNat]
  rfl

theorem toInt32_eq (h : n < 2 ^ 31) : toInt32 n = n := by
  rw [toInt32_cases]
  split_ifs <;> omega

theorem toInt32_lt (n : Nat) : toInt32 n < 2 ^ 31 := by
  rw [toInt32_cases]
  split_ifs <;> omega

theorem toUint32_toInt32 (h : n < 2 ^ 32) : toUint32 (toInt32 n) = n := by
  rw [toUint32, toInt32_cases]
  split_ifs <;> omega

theorem le_toUint32 {x : Int} (h : x < 2 ^ 31) : x ≤ toUint32 x := by
  unfold toUint32
  omega

theorem toUint32_add {x : Int} (h : n + toUint32 x < 2 ^ 32) :
    toUint32 (n + x) = n + toUint32 x := by
  unfold toUint32 at h ⊢
  omega

/-! ### Sums -/

def total (allocation : Allocation) : Int := (allocation.map Prod.snd).sum

def spent (allocation : Allocation) : Nat := (allocation.map fun a => toUint32 a.2).sum

variable (a : AllocatableTrack × Int)

theorem total_cons (rest : Allocation) :
    total (a :: rest) = a.2 + total rest := rfl

theorem spent_cons (rest : Allocation) :
    spent (a :: rest) = toUint32 a.2 + spent rest := rfl

theorem total_append (a b : Allocation) : total (a ++ b) = total a + total b := by
  simp [total]

theorem spent_append (a b : Allocation) : spent (a ++ b) = spent a + spent b := by
  simp [spent]

theorem spent_perm {a b : Allocation} (h : a.Perm b) : spent a = spent b := (h.map _).sum_eq

variable {allocation : Allocation}

theorem total_le_spent (h : ∀ a ∈ allocation, a.2 < 2 ^ 31) :
    total allocation ≤ spent allocation := by
  induction allocation with
  | nil => exact le_rfl
  | cons a rest ih =>
    obtain ⟨ha, hrest⟩ := forall_mem_cons.mp h
    have := le_toUint32 ha
    have := ih hrest
    rw [total_cons, spent_cons]
    push_cast
    omega

/-! ### Even shares -/

def Exact (sub : Subtraction) : Prop := ∀ a b, b ≤ a → sub a b = some (a - b)

theorem exact_wrapSub : Exact wrapSub := fun a b h => by rw [wrapSub, if_pos h]

variable {bitrate : Nat}

def room (maxMultiplier : Nat) (a : AllocatableTrack × Int) : Int :=
  (maxMultiplier * a.1.maxBitrateBps : Nat) - toUint32 a.2

/-- What tracks with these rooms can take up, in the order of the loop: the first one its room at
most, and no more than an even share of what the others can take up. -/
def capacity : List Int → Int
  | [] => 0
  | room :: rest =>
    if rest = [] then room else capacity rest + min room (capacity rest / rest.length)

/-- The even shares are never below the rooms. -/
def Fills : Int → List Int → Prop
  | _, [] => True
  | bitrate, room :: rest => room * (rest.length + 1) ≤ bitrate ∧ Fills (bitrate - room) rest

def participants (includeZero : Bool) (allocation : Allocation) : Allocation :=
  (allocation.filter fun a => includeZero || decide (a.2 ≠ 0)).insertionSort
    fun a b => a.1.maxBitrateBps ≤ b.1.maxBitrateBps

theorem sub_share_le_capacity {bitrate room : Int} {rest : List Int} (h : rest ≠ []) :
    bitrate - min room (bitrate / (rest.length + 1)) ≤ capacity rest ↔
      bitrate ≤ capacity (room :: rest) := by
  have hpos : (0 : Int) < rest.length := by
    have := length_pos_of_ne_nil h
    omega
  have heven : bitrate - capacity rest ≤ bitrate / (rest.length + 1) ↔
      bitrate - capacity rest ≤ capacity rest / rest.length := by
    rw [Int.le_ediv_iff_mul_le (by omega), Int.le_ediv_iff_mul_le hpos]
    constructor <;> intro h <;> linarith
  rw [capacity, if_neg h, sub_le_comm, le_min_iff, heven, ← le_min_iff, sub_le_iff_le_add']

theorem distributeBitrateEvenly_eq {sub : Subtraction} {maxMultiplier : Nat} (includeZero : Bool) : ∃ others : Allocation,
    (participants includeZero allocation ++ others).Perm allocation ∧ (∀ a ∈ others, a.2 = 0) ∧
    distributeBitrateEvenly sub bitrate includeZero maxMultiplier allocation =
      (evenLoop sub maxMultiplier bitrate (participants includeZero allocation)).bind fun shared =>
        some (others ++ shared) := by
  refine ⟨_, ((perm_insertionSort _ _).append_right _).trans (filter_append_perm _ _), ?_, rfl⟩
  intro a ha
  have hnot : includeZero = false ∧ a.2 = 0 := by simpa using (mem_filter.mp ha).2
  exact hnot.2

theorem total_others {others : Allocation} (h : ∀ a ∈ others, a.2 = 0) :
    total others = 0 ∧ spent others = 0 := by
  constructor <;> refine sum_eq_zero fun x hx => ?_ <;> obtain ⟨a, ha, rfl⟩ := mem_map.mp hx
  · exact h a ha
  · rw [h a ha]
    rfl

section Proofs

variable {sub : Subtraction} (hsub : Exact sub) {maxMultiplier : Nat}

include hsub

theorem evenLoop_cons {rest : Allocation} (hlimit : maxMultiplier * a.1.maxBitrateBps < 2 ^ 31)
    (hpos : 0 < bitrate) (hfits : spent (a :: rest) + bitrate < 2 ^ 32) :
    ∃ (share : Int) (left : Nat), share = min (room maxMultiplier a) (bitrate / (rest.length + 1)) ∧
      (left : Int) = bitrate - share ∧ (rest ≠ [] → 0 < left) ∧ spent rest + left < 2 ^ 32 ∧
      0 ≤ toUint32 a.2 + share ∧ evenLoop sub maxMultiplier bitrate (a :: rest) =
        (evenLoop sub maxMultiplier left rest).bind fun others =>
          some ((a.1, toUint32 a.2 + share) :: others) := by
  obtain ⟨track, allocated⟩ := a
  rw [spent_cons] at hfits
  dsimp only at hfits hlimit ⊢
  generalize hextra : bitrate / (rest.length + 1) = extra
  have hle : extra ≤ bitrate := hextra ▸ Nat.div_le_self _ _
  have hleft : rest ≠ [] → extra < bitrate := by
    intro hne
    rw [← hextra]
    exact Nat.div_lt_self hpos (by have := length_pos_of_ne_nil hne; omega)
  have hdiv : (bitrate : Int) / (rest.length + 1) = extra := by
    rw [← hextra]
    norm_cast
  have htotal : toUint32 (extra + allocated) = extra + toUint32 allocated :=
    toUint32_add (by omega)
  rw [evenLoop, hdiv, hextra, guard, if_pos hpos, room]
  simp only [Option.pure_def, Option.bind_eq_bind, Option.bind_some]
  generalize maxMultiplier * track.maxBitrateBps = limit at hlimit
  rw [htotal, hsub _ _ hle, Option.bind_some, Nat.mod_eq_of_lt (show limit < 2 ^ 32 by omega)]
  by_cases hover : limit < extra + toUint32 allocated
  · refine ⟨_, bitrate - extra + (extra + toUint32 allocated - limit),
      (min_eq_left (by omega)).symm, by omega, fun hne => ?_, by omega, by omega, ?_⟩
    · have := hleft hne
      omega
    · rw [if_pos hover, hsub _ _ hover.le, Option.bind_some, Nat.mod_eq_of_lt (by omega),
        toInt32_eq hlimit, add_sub_cancel]
  · refine ⟨_, bitrate - extra, (min_eq_right (by omega)).symm, by omega, fun hne => ?_, by omega,
      by omega, ?_⟩
    · have := hleft hne
      omega
    · rw [if_neg hover, toInt32_eq (by omega), Nat.cast_add, add_comm (extra : Int)]

theorem evenLoop_spec (hmax : ∀ a ∈ allocation, maxMultiplier * a.1.maxBitrateBps < 2 ^ 31)
    (hpos : allocation ≠ [] → 0 < bitrate) (hfits : spent allocation + bitrate < 2 ^ 32) :
    Ensures (evenLoop sub maxMultiplier bitrate allocation) fun result =>
      (result.map Prod.fst = allocation.map Prod.fst ∧ total result ≤ spent allocation + bitrate ∧
        ∀ a ∈ result, 0 ≤ a.2) ∧
      (allocation ≠ [] → (total result = spent allocation + bitrate ↔
        bitrate ≤ capacity (allocation.map (room maxMultiplier)))) ∧
      ((∀ a ∈ result, a.2 = (maxMultiplier * a.1.maxBitrateBps : Nat)) ↔
        Fills bitrate (allocation.map (room maxMultiplier))) := by
  induction allocation generalizing bitrate with
  | nil =>
    exact .some ⟨⟨rfl, by simp [total, spent], nofun⟩, fun h => absurd rfl h,
      iff_of_true nofun trivial⟩
  | cons a rest ih =>
    obtain ⟨hlimit, hrest⟩ := forall_mem_cons.mp hmax
    obtain ⟨share, left, hshare, hleft, hpos, hfits, hnonneg, heq⟩ :=
      evenLoop_cons a hsub hlimit (hpos (cons_ne_nil _ _)) hfits
    obtain ⟨others, hothers, ⟨hmap, hle, hall⟩, htotal, hfull⟩ := ih hrest hpos hfits
    rw [heq, hothers]
    rw [hleft] at htotal hfull
    refine .some ⟨⟨by rw [map_cons, hmap, map_cons], ?_, forall_mem_cons.mpr ⟨hnonneg, hall⟩⟩,
      fun _ => ?_, ?_⟩
    · rw [total_cons, spent_cons]
      push_cast
      omega
    · have hsum : total ((a.1, toUint32 a.2 + share) :: others) = spent (a :: rest) + bitrate ↔
          total others = spent rest + (bitrate - share) := by
        rw [total_cons, spent_cons]
        push_cast
        omega
      rw [hsum]
      by_cases hnil : rest = []
      · subst hnil
        cases hothers
        rw [map_cons, map_nil, capacity, if_pos rfl]
        simp only [total, spent, map_nil, sum_nil, length_nil, Nat.cast_zero, zero_add,
          Int.ediv_one] at hshare ⊢
        omega
      · rw [htotal hnil, map_cons, hshare, ← sub_share_le_capacity (by simpa using hnil), length_map]
    · have hhead : toUint32 a.2 + share = (maxMultiplier * a.1.maxBitrateBps : Nat) ↔
          share = room maxMultiplier a := by
        rw [room]
        omega
      rw [forall_mem_cons, map_cons, Fills, length_map, ← Int.le_ediv_iff_mul_le (by omega)]
      dsimp only
      rw [hhead]
      constructor
      · rintro ⟨rfl, hall⟩
        exact ⟨min_eq_left_iff.mp hshare.symm, hfull.mp hall⟩
      · rintro ⟨hle, hall⟩
        rw [min_eq_left hle] at hshare
        exact ⟨hshare, hfull.mpr (hshare ▸ hall)⟩

theorem evenLoop_within (hmax : ∀ a ∈ allocation, maxMultiplier * a.1.maxBitrateBps < 2 ^ 31)
    (hpos : allocation ≠ [] → 0 < bitrate) (hfits : spent allocation + bitrate < 2 ^ 32) :
    Ensures (evenLoop sub maxMultiplier bitrate allocation) fun result =>
      result.map Prod.fst = allocation.map Prod.fst ∧ total result ≤ spent allocation + bitrate ∧
      ∀ a ∈ result, 0 ≤ a.2 :=
  (evenLoop_spec hsub hmax hpos hfits).mono fun _ h => h.1

theorem distributeBitrateEvenly_within
    (hmax : ∀ a ∈ allocation, maxMultiplier * a.1.maxBitrateBps < 2 ^ 31)
    (hpos : 0 < bitrate) (hfits : spent allocation + bitrate < 2 ^ 32) (includeZero : Bool) :
    Ensures (distributeBitrateEvenly sub bitrate includeZero maxMultiplier allocation) fun result =>
      (result.map Prod.fst).Perm (allocation.map Prod.fst) ∧
      total result ≤ spent allocation + bitrate ∧ ∀ a ∈ result, 0 ≤ a.2 := by
  obtain ⟨others, hperm, hzero, heq⟩ := distributeBitrateEvenly_eq includeZero
  obtain ⟨htotal, hspent⟩ := total_others hzero
  have hsum := spent_perm hperm
  rw [spent_append] at hsum
  rw [heq]
  refine (evenLoop_within hsub (fun a ha => hmax a (hperm.subset (mem_append_left _ ha)))
    (fun _ => hpos) (by omega)).bind fun shared hshared => .some ⟨?_, ?_, ?_⟩
  · rw [map_append, hshared.1, ← map_append]
    exact (perm_append_comm.trans hperm).map _
  · have := hshared.2.1
    rw [total_append]
    omega
  · intro a ha
    rcases mem_append.mp ha with ha | ha
    · exact (hzero a ha).ge
    · exact hshared.2.2 a ha

end Proofs

def contender (minBitrateBps maxBitrateBps : Nat) (enforceMinBitrate : Bool) : AllocatableTrack :=
  ⟨minBitrateBps, maxBitrateBps, 0, enforceMinBitrate, 1, 0, .ofNat 32 (minBitrateBps + 20000)⟩

structure Stored (small : Prop) (allocation : Allocation) : Prop where
  lt : ∀ a ∈ allocation, a.2 < 2 ^ 31
  nonneg : small → ∀ a ∈ allocation, 0 ≤ a.2

theorem requiredLoop_within (leftOut : AllocatableTrack → Bool) {small : Prop}
    (hsmall : small → ∀ a ∈ allocation, a.1.minBitrateWithHysteresis.toNat < 2 ^ 31)
    (hstored : Stored small allocation) {remaining : Int} (hpos : 0 ≤ remaining) :
    0 ≤ (requiredLoop leftOut remaining allocation).1 ∧
      (requiredLoop leftOut remaining allocation).2.map Prod.fst = allocation.map Prod.fst ∧
      spent (requiredLoop leftOut remaining allocation).2 +
        (requiredLoop leftOut remaining allocation).1 ≤ spent allocation + remaining ∧
      Stored small (requiredLoop leftOut remaining allocation).2 := by
  induction allocation generalizing remaining with
  | nil => exact ⟨hpos, rfl, le_rfl, hstored⟩
  | cons a rest ih =>
    obtain ⟨track, allocated⟩ := a
    obtain ⟨hlt, hlts⟩ := forall_mem_cons.mp hstored.lt
    have hrest : Stored small rest :=
      ⟨hlts, fun h => (forall_mem_cons.mp (hstored.nonneg h)).2⟩
    have hsmallRest := fun h => (forall_mem_cons.mp (hsmall h)).2
    have hrequired := track.minBitrateWithHysteresis.isLt
    rw [requiredLoop]
    dsimp only
    split_ifs with hgiven
    · obtain ⟨h0, hmap, hsum, hst⟩ := ih hsmallRest hrest
        (show 0 ≤ remaining - track.minBitrateWithHysteresis.toNat by omega)
      dsimp only
      refine ⟨h0, by rw [map_cons, hmap, map_cons], ?_, ?_, fun h => ?_⟩
      · rw [spent_cons, spent_cons, toUint32_toInt32 hrequired]
        push_cast
        omega
      · exact forall_mem_cons.mpr ⟨toInt32_lt _, hst.lt⟩
      · refine forall_mem_cons.mpr ⟨?_, hst.nonneg h⟩
        rw [toInt32_eq (forall_mem_cons.mp (hsmall h)).1]
        exact Int.natCast_nonneg _
    · obtain ⟨h0, hmap, hsum, hst⟩ := ih hsmallRest hrest hpos
      dsimp only
      refine ⟨h0, by rw [map_cons, hmap, map_cons], ?_, ?_, fun h => ?_⟩
      · rw [spent_cons, spent_cons]
        push_cast
        omega
      · exact forall_mem_cons.mpr ⟨hlt, hst.lt⟩
      · exact forall_mem_cons.mpr ⟨(forall_mem_cons.mp (hstored.nonneg h)).1, hst.nonneg h⟩

def Small (tracks : List AllocatableTrack) : Prop :=
  ∀ track ∈ tracks, track.minBitrateWithHysteresis.toNat < 2 ^ 31

theorem enforced_bounds {track : AllocatableTrack} (h : track.minBitrateBps < 2 ^ 30) :
    0 ≤ enforced track ∧ enforced track < 2 ^ 30 := by
  unfold enforced
  split_ifs
  · rw [toInt32_eq (by omega)]
    omega
  · decide

theorem le_sum_of_mem {α : Type} {f : α → Nat} {l : List α} {a : α} (h : a ∈ l) :
    f a ≤ (l.map f).sum := single_le_sum (fun _ _ => Nat.zero_le _) _ (mem_map_of_mem h)

structure Within (tracks : List AllocatableTrack) (bitrate : Nat) (state : Int × Allocation) :
    Prop where
  nonneg : 0 ≤ state.1
  observers : state.2.map Prod.fst = tracks
  within : spent state.2 + state.1 ≤ bitrate
  stored : Stored (Small tracks) state.2

variable {tracks : List AllocatableTrack}

theorem Within.required {state : Int × Allocation}
    (h : Within tracks bitrate state) (leftOut : AllocatableTrack → Bool) :
    Within tracks bitrate (if 0 < state.1 then requiredLoop leftOut state.1 state.2 else state) := by
  split_ifs
  · have hsmall : Small tracks → ∀ a ∈ state.2, a.1.minBitrateWithHysteresis.toNat < 2 ^ 31 :=
      fun hs a ha => hs a.1 (h.observers ▸ mem_map_of_mem ha)
    obtain ⟨h0, hmap, hsum, hst⟩ := requiredLoop_within leftOut hsmall h.stored h.nonneg
    exact ⟨h0, hmap.trans h.observers, hsum.trans h.within, hst⟩
  · exact h

section Enforced

variable {tracks : List AllocatableTrack} (hmin : ∀ track ∈ tracks, track.minBitrateBps < 2 ^ 30)

theorem total_enforced :
    total (tracks.map fun track => (track, enforced track)) = (tracks.map enforced).sum := by
  rw [total, map_map]
  rfl

include hmin

theorem stored_enforced :
    Stored (Small tracks) (tracks.map fun track => (track, enforced track)) := by
  refine ⟨fun a ha => ?_, fun _ a ha => ?_⟩ <;> obtain ⟨track, htrack, rfl⟩ := mem_map.mp ha
  · have := (enforced_bounds (hmin track htrack)).2
    dsimp only
    omega
  · exact (enforced_bounds (hmin track htrack)).1

theorem spent_enforced :
    (spent (tracks.map fun track => (track, enforced track)) : Int) = (tracks.map enforced).sum := by
  induction tracks with
  | nil => rfl
  | cons track rest ih =>
    obtain ⟨hlow, hhigh⟩ := enforced_bounds (hmin track mem_cons_self)
    rw [map_cons, spent_cons, map_cons, sum_cons, Nat.cast_add,
      ih fun t ht => hmin t (mem_cons_of_mem _ ht)]
    unfold toUint32
    dsimp only
    omega

theorem lowRateRequired_within (h : (tracks.map enforced).sum ≤ bitrate) :
    Within tracks bitrate (lowRateRequired tracks bitrate) := by
  have hstart : Within tracks bitrate ((bitrate : Int) - (tracks.map enforced).sum,
      tracks.map fun track => (track, enforced track)) := by
    refine ⟨by dsimp only; omega, by simp [Function.comp_def], ?_, stored_enforced hmin⟩
    rw [spent_enforced hmin]
    dsimp only
    omega
  exact (hstart.required _).required _

omit hmin in
theorem lowRateRequired_enforced (h : (bitrate : Int) < (tracks.map enforced).sum) :
    lowRateRequired tracks bitrate = ((bitrate : Int) - (tracks.map enforced).sum,
      tracks.map fun track => (track, enforced track)) := by
  rw [lowRateRequired]
  rw [if_neg (show ¬ 0 < (bitrate : Int) - (tracks.map enforced).sum by omega), if_neg (by omega)]

end Enforced

structure Configured (tracks : List AllocatableTrack) : Prop where
  min : (tracks.map (·.minBitrateBps)).sum < 2 ^ 30
  max : (tracks.map (·.maxBitrateBps)).sum < 2 ^ 30

structure Fair (tracks : List AllocatableTrack) (bitrate : Nat) (allocation : Allocation) : Prop where
  observers : (allocation.map Prod.fst).Perm tracks
  within : total allocation ≤ max (bitrate : Int) (tracks.map enforced).sum
  nonneg : Small tracks → ∀ a ∈ allocation, 0 ≤ a.2

theorem Configured.min_lt (h : Configured tracks) :
    ∀ track ∈ tracks, track.minBitrateBps < 2 ^ 30 :=
  fun _ ht => (le_sum_of_mem ht).trans_lt h.min

theorem Configured.max_lt (h : Configured tracks) :
    ∀ track ∈ tracks, track.maxBitrateBps < 2 ^ 30 :=
  fun _ ht => (le_sum_of_mem ht).trans_lt h.max

theorem lowRateAllocation_fair {sub : Subtraction} (hsub : Exact sub)
    (hc : Configured tracks) (hbitrate : bitrate < 2 ^ 32) :
    Ensures (lowRateAllocation sub tracks bitrate) (Fair tracks bitrate) := by
  rw [lowRateAllocation]
  by_cases hle : (tracks.map enforced).sum ≤ bitrate
  · have hw := lowRateRequired_within hc.min_lt hle
    generalize lowRateRequired tracks bitrate = state at hw
    obtain ⟨remaining, allocation⟩ := state
    dsimp only
    refine .ite (fun hpos => ?_) fun hnone => .some ?_
    · have hmax : ∀ a ∈ allocation, 1 * a.1.maxBitrateBps < 2 ^ 31 := fun a ha => by
        have := hc.max_lt a.1 (hw.observers ▸ mem_map_of_mem ha)
        omega
      have hsum := hw.within
      dsimp only at hsum
      obtain ⟨n, rfl⟩ : ∃ n : Nat, remaining = n := ⟨remaining.toNat, by omega⟩
      rw [toUint32_natCast (by omega)]
      refine (distributeBitrateEvenly_within hsub hmax (by omega) (by omega) false).mono ?_
      rintro result ⟨hperm, htotal, hnonneg⟩
      refine ⟨hw.observers ▸ hperm, le_max_of_le_left (htotal.trans ?_), fun _ => hnonneg⟩
      exact hsum
    · have hsum := hw.within
      have h0 := hw.nonneg
      have hspent := total_le_spent hw.stored.lt
      dsimp only at hsum h0 hspent
      exact ⟨hw.observers ▸ List.Perm.refl _, le_max_of_le_left (by omega), hw.stored.nonneg⟩
  · rw [lowRateRequired_enforced (by omega)]
    dsimp only
    rw [if_neg (by omega)]
    refine .some ⟨by simp [Function.comp_def], ?_, (stored_enforced hc.min_lt).nonneg⟩
    rw [total_enforced]
    exact le_max_right _ _

theorem lowRateAllocation_fair_two :
    Ensures (lowRateAllocation wrapSub [contender 10 100 true, contender 100 110 false] 200)
      (Fair [contender 10 100 true, contender 100 110 false] 200) :=
  lowRateAllocation_fair exact_wrapSub ⟨by decide, by decide⟩ (by decide)

end WebRtc.Call
