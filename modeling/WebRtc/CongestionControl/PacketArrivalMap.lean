import WebRtc.Lib.Checked
import WebRtc.Lib.Ring
import WebRtc.Numerics.FixedWidth

/-! The arrival times of packets (`packet_arrival_map.cc`), in a ring that grows and shrinks with
the window of sequence numbers it holds. What the ring says is what was added to the window. -/

namespace WebRtc.CongestionControl

/-- `Timestamp::MinusInfinity()`, the time of a packet that was not received. -/
def minusInfinity : Int := -2 ^ 63

def kMaxNumberOfPackets : Int := 2 ^ 15

def kMinCapacity : Nat := 128

structure PacketArrivalTimeMap where
  arrivalTimes : Option (Nat → Int)
  capacity : Nat
  beginSequenceNumber : Int
  endSequenceNumber : Int

def doubleWhile (newSize : Int) : Nat → Nat → Nat
  | 0, capacity => capacity
  | n + 1, capacity =>
    if (capacity : Int) < newSize then doubleWhile newSize n (capacity * 2) else capacity

def halveWhile (newSize : Int) : Nat → Nat → Nat
  | 0, capacity => capacity
  | n + 1, capacity =>
    if (capacity : Int) > 2 * max newSize kMinCapacity then halveWhile newSize n (capacity / 2)
    else capacity

namespace PacketArrivalTimeMap

variable (m : PacketArrivalTimeMap)

def create : PacketArrivalTimeMap := ⟨none, 0, 0, 0⟩

def index (sequenceNumber : Int) : Nat := ringIndex m.capacity sequenceNumber

def store (sequenceNumber time : Int) : Option PacketArrivalTimeMap :=
  m.arrivalTimes.map fun times =>
    { m with arrivalTimes := some (Function.update times (m.index sequenceNumber) time) }

def copyWindow (old fresh : Nat → Int) (capacity newCapacity : Nat) (first : Int) : Nat → Nat → Int
  | 0 => fresh
  | n + 1 => Function.update (copyWindow old fresh capacity newCapacity first n)
      (ringIndex newCapacity (first + n)) (old (ringIndex capacity (first + n)))

def reallocate (fresh : Nat → Int) (newCapacity : Nat) : Option PacketArrivalTimeMap := do
  guard (newCapacity &&& (newCapacity - 1) = 0)
  guard (m.arrivalTimes.isSome ∨ m.endSequenceNumber ≤ m.beginSequenceNumber)
  return { m with
    arrivalTimes := some (copyWindow (m.arrivalTimes.getD fresh) fresh m.capacity newCapacity
      m.beginSequenceNumber (m.endSequenceNumber - m.beginSequenceNumber).toNat)
    capacity := newCapacity }

def grow (fresh : Nat → Int) (newSize : Int) : Option PacketArrivalTimeMap :=
  if newSize > m.capacity then m.reallocate fresh (doubleWhile newSize 31 m.capacity) else some m

def shrink (fresh : Nat → Int) (newSize : Int) : Option PacketArrivalTimeMap :=
  if (m.capacity : Int) > max (kMinCapacity : Int) (4 * newSize) then
    m.reallocate fresh (halveWhile newSize 31 m.capacity)
  else some m

def adjustToSize (fresh : Nat → Int) (newSize : Int) : Option PacketArrivalTimeMap := do
  let m ← m.grow fresh newSize
  let m ← m.shrink fresh newSize
  guard (newSize ≤ m.capacity)
  return m

def setNotReceived (first last : Int) : Option PacketArrivalTimeMap :=
  m.arrivalTimes.map fun times =>
    { m with
      arrivalTimes := some (fillBlocks times minusInfinity m.capacity (m.index first) (m.index last)) }

section Operations

variable (arith : Int → Int)

def addBefore (fresh : Nat → Int) (sequenceNumber arrivalTime : Int) :
    Option PacketArrivalTimeMap :=
  let newSize := arith (m.endSequenceNumber - sequenceNumber)
  if newSize > kMaxNumberOfPackets then some m
  else do
    let m ← m.adjustToSize fresh newSize
    let m ← m.store sequenceNumber arrivalTime
    let m ← m.setNotReceived (arith (sequenceNumber + 1)) m.beginSequenceNumber
    some { m with beginSequenceNumber := sequenceNumber }

def addAfter (fresh : Nat → Int) (sequenceNumber arrivalTime : Int) :
    Option PacketArrivalTimeMap := do
  guard (sequenceNumber ≥ m.endSequenceNumber)
  let newEnd := arith (sequenceNumber + 1)
  if newEnd ≥ arith (m.endSequenceNumber + kMaxNumberOfPackets) then
    store
      { m with beginSequenceNumber := sequenceNumber, endSequenceNumber := newEnd }
      sequenceNumber arrivalTime
  else
    let newBegin := max m.beginSequenceNumber (arith (newEnd - kMaxNumberOfPackets))
    guard (m.beginSequenceNumber < newBegin → m.endSequenceNumber > newBegin)
    let m ← adjustToSize { m with beginSequenceNumber := newBegin } fresh
      (arith (newEnd - newBegin))
    let m ← m.setNotReceived m.endSequenceNumber sequenceNumber
    store { m with endSequenceNumber := newEnd } sequenceNumber arrivalTime

/-- `arith` is the value that the additions and subtractions of the code give. -/
def addPacket (fresh : Nat → Int) (sequenceNumber arrivalTime : Int) :
    Option PacketArrivalTimeMap := do
  guard (arrivalTime ≥ 0)
  if m.arrivalTimes.isNone then
    let m ← m.reallocate fresh kMinCapacity
    store
      { m with
        beginSequenceNumber := sequenceNumber
        endSequenceNumber := arith (sequenceNumber + 1) }
      sequenceNumber arrivalTime
  else if m.beginSequenceNumber ≤ sequenceNumber ∧ sequenceNumber < m.endSequenceNumber then
    m.store sequenceNumber arrivalTime
  else if sequenceNumber < m.beginSequenceNumber then
    m.addBefore arith fresh sequenceNumber arrivalTime
  else m.addAfter arith fresh sequenceNumber arrivalTime

/-- The loop of `RemoveOldPackets`: where the window begins afterwards. -/
def removeOldLoop (times : Nat → Int) (arrivalTimeLimit : Int) : Nat → Int → Int
  | 0, first => first
  | n + 1, first =>
    if times (m.index first) ≤ arrivalTimeLimit then
      removeOldLoop times arrivalTimeLimit n (first + 1)
    else first

def removeOldPackets (fresh : Nat → Int) (sequenceNumber arrivalTimeLimit : Int) :
    Option PacketArrivalTimeMap := do
  let checkTo := min sequenceNumber m.endSequenceNumber
  guard (m.arrivalTimes.isSome ∨ checkTo ≤ m.beginSequenceNumber)
  let beginSequenceNumber := m.removeOldLoop (m.arrivalTimes.getD fresh) arrivalTimeLimit
    (checkTo - m.beginSequenceNumber).toNat m.beginSequenceNumber
  adjustToSize { m with beginSequenceNumber } fresh
    (arith (m.endSequenceNumber - beginSequenceNumber))

def eraseTo (fresh : Nat → Int) (sequenceNumber : Int) : Option PacketArrivalTimeMap :=
  if sequenceNumber < m.beginSequenceNumber then some m
  else if sequenceNumber ≥ m.endSequenceNumber then
    some { m with beginSequenceNumber := m.endSequenceNumber }
  else
    adjustToSize { m with beginSequenceNumber := sequenceNumber } fresh
      (arith (m.endSequenceNumber - sequenceNumber))

end Operations

def get (sequenceNumber : Int) : Option Int := do
  guard (m.beginSequenceNumber ≤ sequenceNumber ∧ sequenceNumber < m.endSequenceNumber)
  let times ← m.arrivalTimes
  return times (m.index sequenceNumber)

def hasReceived (sequenceNumber : Int) : Bool :=
  m.beginSequenceNumber ≤ sequenceNumber ∧ sequenceNumber < m.endSequenceNumber ∧
    m.arrivalTimes.any fun times => times (m.index sequenceNumber) ≥ 0

end PacketArrivalTimeMap

open PacketArrivalTimeMap

/-! The ring and its resizing. -/

variable {newSize : Int}

section Ring

theorem copyWindow_ringIndex {old fresh : Nat → Int} {capacity newCapacity n : Nat} {first s : Int}
    (hn : (n : Int) ≤ newCapacity) (h : first ≤ s) (h' : s < first + n) :
    copyWindow old fresh capacity newCapacity first n (ringIndex newCapacity s) =
      old (ringIndex capacity s) := by
  induction n with
  | zero =>
    rw [Nat.cast_zero] at h'
    omega
  | succ n ih =>
    rw [copyWindow]
    push_cast at hn h'
    by_cases hs : s = first + n
    · rw [hs, Function.update_self]
    · rw [Function.update_of_ne, ih (by omega) (by omega)]
      intro heq
      exact hs ((ringIndex_inj (abs_lt.mpr ⟨by omega, by omega⟩)).mp heq)

theorem doubleWhile_spec (n k : Nat) (h : newSize ≤ 2 ^ (k + n)) :
    ∃ j, doubleWhile newSize n (2 ^ k) = 2 ^ j ∧ k ≤ j ∧ newSize ≤ 2 ^ j ∧
      ((2 : Int) ^ j < 2 * newSize ∨ j = k) := by
  induction n generalizing k with
  | zero => exact ⟨k, rfl, le_rfl, by simpa using h, .inr rfl⟩
  | succ n ih =>
    rw [doubleWhile]
    push_cast
    split_ifs with hlt
    · obtain ⟨j, hj, hkj, hsize, hbound⟩ := ih (k + 1) (by rwa [Nat.add_assoc, Nat.add_comm 1])
      refine ⟨j, by rw [← pow_succ]; exact hj, by omega, hsize, .inl ?_⟩
      rcases hbound with hbound | rfl
      · exact hbound
      · rw [pow_succ]
        omega
    · exact ⟨k, rfl, le_rfl, not_lt.mp hlt, .inr rfl⟩

theorem halveWhile_spec (n k : Nat) (hk : max newSize kMinCapacity ≤ 2 ^ k) :
    ∃ j, halveWhile newSize n (2 ^ k) = 2 ^ j ∧ max newSize kMinCapacity ≤ 2 ^ j := by
  induction n generalizing k with
  | zero => exact ⟨k, rfl, hk⟩
  | succ n ih =>
    rw [halveWhile]
    push_cast
    split_ifs with hlt
    · obtain ⟨k, rfl⟩ : ∃ j, k = j + 1 := Nat.exists_eq_succ_of_ne_zero (by
        rintro rfl
        rw [pow_zero, kMinCapacity] at hlt
        omega)
      rw [pow_succ, Nat.mul_div_cancel _ (by decide)]
      rw [pow_succ] at hlt
      exact ih k (by omega)
    · exact ⟨k, rfl, hk⟩

end Ring

/-! The window that the ring represents. -/

variable {s t : Int}

namespace PacketArrivalTimeMap

variable {m m' : PacketArrivalTimeMap} {v w : Int → Int} {arith : Int → Int} {fresh : Nat → Int}

def Contains (m : PacketArrivalTimeMap) (s : Int) : Prop :=
  m.beginSequenceNumber ≤ s ∧ s < m.endSequenceNumber

instance (m : PacketArrivalTimeMap) (s : Int) : Decidable (m.Contains s) :=
  inferInstanceAs (Decidable (_ ∧ _))

structure Represents (m : PacketArrivalTimeMap) (v : Int → Int) : Prop where
  ring : ∃ times, m.arrivalTimes = some times ∧ ∀ s, m.Contains s → times (m.index s) = v s
  power : ∃ k, m.capacity = 2 ^ k
  room : kMinCapacity ≤ m.capacity
  ordered : m.beginSequenceNumber ≤ m.endSequenceNumber
  fits : m.endSequenceNumber - m.beginSequenceNumber ≤ m.capacity

theorem Represents.congr (h : m.Represents v) (heq : ∀ s, m.Contains s → v s = w s) :
    m.Represents w := by
  obtain ⟨times, htimes, hv⟩ := h.ring
  exact { h with ring := ⟨times, htimes, fun s hs => (hv s hs).trans (heq s hs)⟩ }

theorem Represents.capacity_pos (h : m.Represents v) : 0 < m.capacity := by
  have := h.room
  unfold kMinCapacity at this
  omega

theorem Represents.narrow (h : m.Represents v) {first : Int} (hle : m.beginSequenceNumber ≤ first)
    (hle' : first ≤ m.endSequenceNumber) :
    Represents { m with beginSequenceNumber := first } v := by
  obtain ⟨times, htimes, hv⟩ := h.ring
  have hfits := h.fits
  exact
    { ring := ⟨times, htimes, fun s hs => hv s ⟨hle.trans hs.1, hs.2⟩⟩
      power := h.power
      room := h.room
      ordered := hle'
      fits := by
        show m.endSequenceNumber - first ≤ m.capacity
        omega }

structure SameWindow (m m' : PacketArrivalTimeMap) (v : Int → Int) : Prop where
  represents : m'.Represents v
  first : m'.beginSequenceNumber = m.beginSequenceNumber
  last : m'.endSequenceNumber = m.endSequenceNumber

section

variable (h : m.Represents v)
include h

theorem ensures_reallocate {k : Nat} (hroom : kMinCapacity ≤ 2 ^ k)
    (hfits : m.endSequenceNumber - m.beginSequenceNumber ≤ 2 ^ k) :
    Ensures (m.reallocate fresh (2 ^ k)) fun m' => m.SameWindow m' v ∧ m'.capacity = 2 ^ k := by
  obtain ⟨times, htimes, hv⟩ := h.ring
  have hordered := h.ordered
  unfold reallocate
  rw [Nat.and_two_pow_sub_one_eq_mod, Nat.mod_self, htimes]
  refine .guard_bind rfl (.guard_bind (.inl rfl) (.some ⟨⟨?_, rfl, rfl⟩, rfl⟩))
  refine ⟨⟨_, rfl, ?_⟩, ⟨k, rfl⟩, hroom, hordered, by exact_mod_cast hfits⟩
  intro s hs
  show copyWindow times fresh m.capacity (2 ^ k) m.beginSequenceNumber _ (ringIndex (2 ^ k) s) = v s
  rw [copyWindow_ringIndex _ hs.1 _]
  · exact hv s hs
  · push_cast
    omega
  · have := hs.2
    show s < m.beginSequenceNumber + _
    change s < m.endSequenceNumber at this
    omega

theorem ensures_grow (hsize : newSize ≤ kMaxNumberOfPackets)
    (hle : m.endSequenceNumber - m.beginSequenceNumber ≤ newSize) :
    Ensures (m.grow fresh newSize) fun m' => m.SameWindow m' v ∧ newSize ≤ m'.capacity := by
  obtain ⟨k, hk⟩ := h.power
  unfold grow
  apply Ensures.ite
  · intro hlt
    have hpow : newSize ≤ 2 ^ (k + 31) := by
      have : (2 : Int) ^ 31 ≤ 2 ^ (k + 31) := pow_le_pow_right₀ (by decide) (by omega)
      unfold kMaxNumberOfPackets at hsize
      omega
    obtain ⟨j, hj, hkj, hfit, -⟩ := doubleWhile_spec 31 k hpow
    have hroom := h.room.trans (hk ▸ Nat.pow_le_pow_right (by decide) hkj)
    rw [hk, hj]
    refine (ensures_reallocate h hroom (hle.trans hfit)).mono fun m' hm' => ⟨hm'.1, ?_⟩
    rw [hm'.2]
    exact_mod_cast hfit
  · intro hlt
    exact .some ⟨⟨h, rfl, rfl⟩, not_lt.mp hlt⟩

theorem ensures_shrink (hfit : newSize ≤ m.capacity)
    (hle : m.endSequenceNumber - m.beginSequenceNumber ≤ newSize) :
    Ensures (m.shrink fresh newSize) fun m' => m.SameWindow m' v ∧ newSize ≤ m'.capacity := by
  obtain ⟨k, hk⟩ := h.power
  have hroom := h.room
  unfold shrink
  apply Ensures.ite
  · intro hlt
    have hmax : max newSize kMinCapacity ≤ 2 ^ k := by
      rw [hk] at hfit hroom
      exact max_le (by exact_mod_cast hfit) (by exact_mod_cast hroom)
    obtain ⟨j, hj, hfit'⟩ := halveWhile_spec 31 k hmax
    rw [hk, hj]
    refine (ensures_reallocate h ?_ ?_).mono fun m' hm' => ⟨hm'.1, ?_⟩
    · exact_mod_cast (le_max_right _ _).trans hfit'
    · exact (hle.trans (le_max_left _ _)).trans hfit'
    · rw [hm'.2]
      exact_mod_cast (le_max_left _ _).trans hfit'
  · intro hlt
    exact .some ⟨⟨h, rfl, rfl⟩, hfit⟩

theorem ensures_adjustToSize (hsize : newSize ≤ kMaxNumberOfPackets)
    (hle : m.endSequenceNumber - m.beginSequenceNumber ≤ newSize) :
    Ensures (m.adjustToSize fresh newSize) fun m' => m.SameWindow m' v ∧ newSize ≤ m'.capacity := by
  unfold adjustToSize
  refine (ensures_grow h hsize hle).bind fun m₁ ⟨hm₁, hfit₁⟩ => ?_
  refine (ensures_shrink hm₁.represents hfit₁ (by rw [hm₁.first, hm₁.last]; exact hle)).bind
    fun m₂ ⟨hm₂, hfit₂⟩ => .guard_bind hfit₂ (.some ⟨⟨hm₂.represents, ?_, ?_⟩, hfit₂⟩)
  · rw [hm₂.first, hm₁.first]
  · rw [hm₂.last, hm₁.last]

end

/-- The computations of `AddPacket` stay in the range of their type. -/
structure Exact (arith : Int → Int) (m : PacketArrivalTimeMap) (s : Int) : Prop where
  next : arith (s + 1) = s + 1
  distance : m.arrivalTimes.isSome → s < m.beginSequenceNumber →
    arith (m.endSequenceNumber - s) = m.endSequenceNumber - s
  limit : m.arrivalTimes.isSome → m.endSequenceNumber ≤ s →
    arith (m.endSequenceNumber + kMaxNumberOfPackets) = m.endSequenceNumber + kMaxNumberOfPackets
  first : m.arrivalTimes.isSome → m.endSequenceNumber ≤ s →
    arith (s + 1 - kMaxNumberOfPackets) = s + 1 - kMaxNumberOfPackets

def ExactCount (arith : Int → Int) : Prop := ∀ n, 0 ≤ n → n ≤ kMaxNumberOfPackets → arith n = n

def added (m : PacketArrivalTimeMap) (v : Int → Int) (s t : Int) : Int → Int :=
  fun x => if x = s then t else if m.Contains x then v x else minusInfinity

structure Added (m m' : PacketArrivalTimeMap) (v : Int → Int) (s t : Int) : Prop where
  represents : m'.Represents (m.added v s t)
  size : m'.endSequenceNumber - m'.beginSequenceNumber ≤ kMaxNumberOfPackets
  last : m.endSequenceNumber ≤ m'.endSequenceNumber
  stored : m'.Contains s ∨ s + kMaxNumberOfPackets ≤ m'.endSequenceNumber
  kept : ∀ x, m.Contains x → m'.Contains x ∨ x + kMaxNumberOfPackets ≤ m'.endSequenceNumber

/-- A packet that is added before an emptied window, with others between the two. -/
def Backfills (m : PacketArrivalTimeMap) (s : Int) : Prop :=
  m.beginSequenceNumber = m.endSequenceNumber ∧ s + 1 < m.endSequenceNumber ∧
    m.endSequenceNumber - s ≤ kMaxNumberOfPackets

structure AddedAt (m m' : PacketArrivalTimeMap) (v : Int → Int) (s t : Int) : Prop
    extends m.Added m' v s t where
  ends : m'.beginSequenceNumber < m'.endSequenceNumber → m'.endSequenceNumber - 1 = s ∨
    m.Contains (m'.endSequenceNumber - 1) ∨ m.Backfills s

theorem contains_last (h : m.beginSequenceNumber < m.endSequenceNumber) :
    m.Contains (m.endSequenceNumber - 1) := ⟨by omega, by omega⟩

theorem ensures_store_contained (h : m.Represents v) (hs : m.Contains s)
    (hsize : m.endSequenceNumber - m.beginSequenceNumber ≤ kMaxNumberOfPackets) :
    Ensures (m.store s t) fun m' => m.AddedAt m' v s t := by
  obtain ⟨times, htimes, hv⟩ := h.ring
  have hfits := h.fits
  unfold store
  rw [htimes]
  refine .some ⟨⟨{ h with ring := ⟨_, rfl, ?_⟩ }, hsize, le_rfl, .inl hs, fun x hx => .inl hx⟩,
    fun hlt => .inr (.inl (contains_last hlt))⟩
  intro x hx
  change m.Contains x at hx
  show Function.update times (ringIndex m.capacity s) t (ringIndex m.capacity x) = m.added v s t x
  unfold added
  by_cases hxs : x = s
  · rw [hxs, Function.update_self, if_pos rfl]
  · rw [if_neg hxs, if_pos hx, Function.update_of_ne]
    · exact hv x hx
    · intro heq
      have hx1 : m.beginSequenceNumber ≤ x := hx.1
      have hx2 : x < m.endSequenceNumber := hx.2
      have hs1 := hs.1
      have hs2 := hs.2
      exact hxs ((ringIndex_inj (abs_lt.mpr ⟨by omega, by omega⟩)).mp heq)

theorem ensures_addBefore (h : m.Represents v) (hexact : Exact arith m s)
    (hsize : m.endSequenceNumber - m.beginSequenceNumber ≤ kMaxNumberOfPackets)
    (hs : s < m.beginSequenceNumber) :
    Ensures (m.addBefore arith fresh s t) fun m' => m.AddedAt m' v s t := by
  obtain ⟨times₀, htimes₀, -⟩ := h.ring
  have hordered := h.ordered
  unfold addBefore
  rw [hexact.distance (by rw [htimes₀]; rfl) hs, hexact.next]
  apply Ensures.ite
  · intro hlarge
    refine .some ⟨⟨h.congr ?_, hsize, le_rfl, .inr (by omega), fun x hx => .inl hx⟩,
      fun hlt => .inr (.inl (contains_last hlt))⟩
    intro x hx
    have hne : x ≠ s := by
      rintro rfl
      exact absurd hx.1 (not_le.mpr hs)
    rw [added, if_neg hne, if_pos hx]
  · intro hsmall
    refine (ensures_adjustToSize h (not_lt.mp hsmall) (by omega)).bind fun m₁ ⟨hm₁, hfit⟩ => ?_
    obtain ⟨times, htimes, hv⟩ := hm₁.represents.ring
    have hfirst := hm₁.first
    have hlast := hm₁.last
    have hpos := hm₁.represents.capacity_pos
    simp only [store, htimes, Option.map_some, Option.bind_eq_bind, Option.bind_some,
      setNotReceived]
    refine .some ⟨⟨⟨⟨_, rfl, ?_⟩, hm₁.represents.power, hm₁.represents.room, ?_, ?_⟩,
      ?_, ?_, ?_, ?_⟩, ?_⟩
    · rintro x ⟨hx, hx'⟩
      change s ≤ x at hx
      change x < m₁.endSequenceNumber at hx'
      show fillBlocks _ _ m₁.capacity (ringIndex _ _) (ringIndex _ _) (ringIndex m₁.capacity x) = _
      rw [fillBlocks_ringIndex hpos (by omega) (by omega) (by omega) (by omega), added]
      by_cases hxs : x = s
      · rw [if_neg (by omega), if_pos hxs, hxs]
        exact Function.update_self ..
      · rw [if_neg hxs]
        by_cases hwindow : m.Contains x
        · have hx1 := hwindow.1
          rw [if_neg (by omega), if_pos hwindow, ← hv x ⟨by omega, hx'⟩]
          apply Function.update_of_ne
          intro heq
          exact hxs ((ringIndex_inj (abs_lt.mpr ⟨by omega, by omega⟩)).mp heq)
        · have hx1 : x < m.beginSequenceNumber := by
            by_contra hge
            exact hwindow ⟨not_lt.mp hge, by omega⟩
          rw [if_pos ⟨by omega, by omega⟩, if_neg hwindow]
    · show s ≤ m₁.endSequenceNumber
      omega
    · show m₁.endSequenceNumber - s ≤ m₁.capacity
      omega
    · show m₁.endSequenceNumber - s ≤ kMaxNumberOfPackets
      omega
    · exact hlast.ge
    · exact .inl ⟨le_rfl, show s < m₁.endSequenceNumber by omega⟩
    · rintro x ⟨hx, hx'⟩
      exact .inl ⟨show s ≤ x by omega, show x < m₁.endSequenceNumber by omega⟩
    · intro hlt
      change s < m₁.endSequenceNumber at hlt
      by_cases hempty : m.beginSequenceNumber = m.endSequenceNumber
      · by_cases hnext : s + 1 < m.endSequenceNumber
        · exact .inr (.inr ⟨hempty, hnext, not_lt.mp hsmall⟩)
        · exact .inl (show m₁.endSequenceNumber - 1 = s by omega)
      · exact .inr (.inl ⟨show _ ≤ m₁.endSequenceNumber - 1 by omega,
          show m₁.endSequenceNumber - 1 < _ by omega⟩)

theorem ensures_store_alone (h : m.Represents v)
    (hs : m.endSequenceNumber + kMaxNumberOfPackets ≤ s + 1) :
    Ensures
      (store { m with beginSequenceNumber := s, endSequenceNumber := s + 1 } s t)
      fun m' => m.AddedAt m' v s t := by
  obtain ⟨times, htimes, -⟩ := h.ring
  have hpos := h.capacity_pos
  have hmax : kMaxNumberOfPackets = 32768 := rfl
  unfold store
  rw [htimes]
  refine .some ⟨⟨⟨⟨_, rfl, ?_⟩, h.power, h.room, ?_, ?_⟩, ?_, ?_, ?_, ?_⟩, ?_⟩
  · rintro x ⟨hx, hx'⟩
    obtain rfl : x = s := by
      change s ≤ x at hx
      change x < s + 1 at hx'
      omega
    rw [added, if_pos rfl]
    exact Function.update_self ..
  · show s ≤ s + 1
    omega
  · show s + 1 - s ≤ m.capacity
    omega
  · show s + 1 - s ≤ kMaxNumberOfPackets
    omega
  · show m.endSequenceNumber ≤ s + 1
    omega
  · exact .inl ⟨le_rfl, show s < s + 1 by omega⟩
  · rintro x ⟨-, hx⟩
    exact .inr (show x + kMaxNumberOfPackets ≤ s + 1 by omega)
  · exact fun _ => .inl (Int.add_sub_cancel s 1)

theorem ensures_addAfter (hcount : ExactCount arith) (h : m.Represents v)
    (hexact : Exact arith m s) (hs : m.endSequenceNumber ≤ s) :
    Ensures (m.addAfter arith fresh s t) fun m' => m.AddedAt m' v s t := by
  obtain ⟨times₀, htimes₀, -⟩ := h.ring
  have hordered := h.ordered
  have hsome : m.arrivalTimes.isSome := by rw [htimes₀]; rfl
  have hmax : kMaxNumberOfPackets = 32768 := rfl
  unfold addAfter
  simp only [hexact.next, hexact.limit hsome hs, hexact.first hsome hs]
  refine .guard_bind hs ?_
  apply Ensures.ite
  · exact ensures_store_alone h
  · intro hnear
    generalize hfirst : max m.beginSequenceNumber (s + 1 - kMaxNumberOfPackets) = first
    have hcount' := hcount (s + 1 - first) (by omega) (by omega)
    rw [hcount']
    refine .guard_bind (by omega) ?_
    have hnarrow := h.narrow (show m.beginSequenceNumber ≤ first by omega)
      (show first ≤ m.endSequenceNumber by omega)
    refine (ensures_adjustToSize hnarrow (by omega)
      (show m.endSequenceNumber - first ≤ _ by omega)).bind fun m₁ ⟨hm₁, hfit⟩ => ?_
    obtain ⟨times, htimes, hv⟩ := hm₁.represents.ring
    have hbegin : m₁.beginSequenceNumber = first := hm₁.first
    have hend : m₁.endSequenceNumber = m.endSequenceNumber := hm₁.last
    have hpos := hm₁.represents.capacity_pos
    simp only [store, htimes, Option.map_some, Option.bind_eq_bind, Option.bind_some,
      setNotReceived]
    refine .some ⟨⟨⟨⟨_, rfl, ?_⟩, hm₁.represents.power, hm₁.represents.room, ?_, ?_⟩,
      ?_, ?_, ?_, ?_⟩, ?_⟩
    · rintro x ⟨hx, hx'⟩
      change m₁.beginSequenceNumber ≤ x at hx
      change x < s + 1 at hx'
      show Function.update (fillBlocks _ _ m₁.capacity (ringIndex _ _) (ringIndex _ _))
        (ringIndex m₁.capacity s) t (ringIndex m₁.capacity x) = _
      rw [added]
      by_cases hxs : x = s
      · rw [hxs, Function.update_self, if_pos rfl]
      · rw [if_neg hxs, Function.update_of_ne]
        · rw [fillBlocks_ringIndex hpos (by omega) (by omega) (by omega) (by omega)]
          by_cases hwindow : m.Contains x
          · have hx1 := hwindow.2
            rw [if_neg (by omega), if_pos hwindow]
            exact hv x ⟨by omega, by omega⟩
          · have hx1 : m.endSequenceNumber ≤ x := by
              by_contra hlt
              exact hwindow ⟨by omega, not_le.mp hlt⟩
            rw [if_pos ⟨by omega, by omega⟩, if_neg hwindow]
        · intro heq
          exact hxs ((ringIndex_inj (abs_lt.mpr ⟨by omega, by omega⟩)).mp heq)
    · show m₁.beginSequenceNumber ≤ s + 1
      omega
    · show s + 1 - m₁.beginSequenceNumber ≤ m₁.capacity
      omega
    · show s + 1 - m₁.beginSequenceNumber ≤ kMaxNumberOfPackets
      omega
    · show m.endSequenceNumber ≤ s + 1
      omega
    · exact .inl ⟨show m₁.beginSequenceNumber ≤ s by omega, show s < s + 1 by omega⟩
    · rintro x ⟨hx, hx'⟩
      by_cases hfirstx : first ≤ x
      · exact .inl ⟨show m₁.beginSequenceNumber ≤ x by omega, show x < s + 1 by omega⟩
      · exact .inr (show x + kMaxNumberOfPackets ≤ s + 1 by omega)
    · exact fun _ => .inl (Int.add_sub_cancel s 1)

theorem ensures_addPacket (fresh : Nat → Int) (hcount : ExactCount arith) (h : m.Represents v)
    (hexact : Exact arith m s) (ht : 0 ≤ t)
    (hsize : m.endSequenceNumber - m.beginSequenceNumber ≤ kMaxNumberOfPackets) :
    Ensures (m.addPacket arith fresh s t) fun m' => m.AddedAt m' v s t := by
  obtain ⟨times, htimes, -⟩ := h.ring
  unfold addPacket
  refine .guard_bind ht ?_
  rw [htimes, if_neg (by simp)]
  apply Ensures.ite
  · intro hs
    exact ensures_store_contained h hs hsize
  · intro hs
    apply Ensures.ite
    · intro hbefore
      exact ensures_addBefore h hexact hsize hbefore
    · intro hafter
      exact ensures_addAfter hcount h hexact (by omega)

theorem ensures_addPacket_create (fresh : Nat → Int) (hexact : arith (s + 1) = s + 1) (ht : 0 ≤ t) :
    Ensures (create.addPacket arith fresh s t) fun m' =>
      m'.Represents (fun _ => t) ∧ m'.beginSequenceNumber = s ∧ m'.endSequenceNumber = s + 1 := by
  unfold addPacket
  refine .guard_bind ht ?_
  rw [if_pos (by rfl)]
  refine .some ⟨⟨⟨_, rfl, ?_⟩, ⟨7, rfl⟩, le_rfl, ?_, ?_⟩, rfl, hexact⟩
  · rintro x ⟨hx, hx'⟩
    obtain rfl : x = s := by
      change s ≤ x at hx
      change x < arith (s + 1) at hx'
      omega
    exact Function.update_self ..
  · show s ≤ arith (s + 1)
    omega
  · show arith (s + 1) - s ≤ (128 : Nat)
    omega

theorem removeOldLoop_bounds (m : PacketArrivalTimeMap) (times : Nat → Int) (limit : Int) (n : Nat)
    (first : Int) : first ≤ m.removeOldLoop times limit n first ∧
      m.removeOldLoop times limit n first ≤ first + n := by
  induction n generalizing first with
  | zero => simp [removeOldLoop]
  | succ n ih =>
    rw [removeOldLoop]
    push_cast
    have := ih (first + 1)
    split_ifs <;> omega

structure Removed (m m' : PacketArrivalTimeMap) (v : Int → Int) : Prop where
  represents : m'.Represents v
  first : m.beginSequenceNumber ≤ m'.beginSequenceNumber
  last : m'.endSequenceNumber = m.endSequenceNumber

theorem ensures_narrowed (hcount : ExactCount arith) (h : m.Represents v)
    (hsize : m.endSequenceNumber - m.beginSequenceNumber ≤ kMaxNumberOfPackets) {first : Int}
    (hle : m.beginSequenceNumber ≤ first) (hle' : first ≤ m.endSequenceNumber) :
    Ensures
      (adjustToSize { m with beginSequenceNumber := first } fresh
        (arith (m.endSequenceNumber - first)))
      (m.Removed · v) := by
  rw [hcount _ (by omega) (by omega)]
  refine (ensures_adjustToSize (h.narrow hle hle')
    (show m.endSequenceNumber - first ≤ _ by omega) le_rfl).mono fun m' hm' => ?_
  exact ⟨hm'.1.represents, hm'.1.first ▸ hle, hm'.1.last⟩

theorem ensures_removeOldPackets (fresh : Nat → Int) (s limit : Int) (hcount : ExactCount arith)
    (h : m.Represents v)
    (hsize : m.endSequenceNumber - m.beginSequenceNumber ≤ kMaxNumberOfPackets) :
    Ensures (m.removeOldPackets arith fresh s limit) (m.Removed · v) := by
  obtain ⟨times, htimes, -⟩ := h.ring
  have hordered := h.ordered
  unfold removeOldPackets
  have hbounds := m.removeOldLoop_bounds (m.arrivalTimes.getD fresh) limit
    (min s m.endSequenceNumber - m.beginSequenceNumber).toNat m.beginSequenceNumber
  exact .guard_bind (.inl (by rw [htimes]; rfl))
    (ensures_narrowed hcount h hsize hbounds.1 (by omega))

theorem ensures_eraseTo (fresh : Nat → Int) (s : Int) (hcount : ExactCount arith)
    (h : m.Represents v)
    (hsize : m.endSequenceNumber - m.beginSequenceNumber ≤ kMaxNumberOfPackets) :
    Ensures (m.eraseTo arith fresh s) (m.Removed · v) := by
  unfold eraseTo
  apply Ensures.ite
  · intro hlt
    exact .some ⟨h, le_rfl, rfl⟩
  · intro hle
    apply Ensures.ite
    · intro hge
      exact .some ⟨h.narrow h.ordered le_rfl, h.ordered, rfl⟩
    · intro hlt
      exact ensures_narrowed hcount h hsize (not_lt.mp hle) (by omega)

theorem removeOldPackets_create (fresh : Nat → Int) (s limit : Int) (hcount : ExactCount arith) :
    create.removeOldPackets arith fresh s limit = some create := by
  have hloop : (min s create.endSequenceNumber - create.beginSequenceNumber).toNat = 0 := by
    show (min s 0 - 0).toNat = 0
    omega
  have hzero : arith 0 = 0 := hcount 0 le_rfl (by decide)
  have hguard : min s create.endSequenceNumber ≤ create.beginSequenceNumber := min_le_right s 0
  simp only [removeOldPackets, hloop, removeOldLoop, hguard, or_true, guard_true]
  show adjustToSize create fresh (arith 0) = some create
  rw [hzero]
  rfl

theorem eraseTo_create (fresh : Nat → Int) (s : Int) :
    create.eraseTo arith fresh s = some create := by
  unfold eraseTo
  split_ifs with hlt hge
  · rfl
  · rfl
  · exact absurd (not_lt.mp hlt) hge

theorem get_of_represents (h : m.Represents v) (hs : m.Contains s) : m.get s = some (v s) := by
  obtain ⟨times, htimes, hv⟩ := h.ring
  have hguard : m.beginSequenceNumber ≤ s ∧ s < m.endSequenceNumber := hs
  simp [get, htimes, hguard, hv s hs]

theorem hasReceived_of_represents (h : m.Represents v) (hs : m.Contains s) :
    m.hasReceived s = decide (0 ≤ v s) := by
  obtain ⟨times, htimes, hv⟩ := h.ring
  have hguard : m.beginSequenceNumber ≤ s ∧ s < m.endSequenceNumber := hs
  simp [hasReceived, htimes, hguard, hv s hs]

end PacketArrivalTimeMap

/-! Runs, with what was added to the window and what left it. -/

structure ArrivalRun where
  map : PacketArrivalTimeMap
  /-- The time that was last added for a number since it entered the window. -/
  last : Int → Option Int
  added : Set Int
  /-- The packets that `RemoveOldPackets` took from the window after they were last added. -/
  aged : Set Int
  erased : Set Int

inductive ArrivalOp
  | addPacket (fresh : Nat → Int) (sequenceNumber arrivalTime : Int)
  | removeOldPackets (fresh : Nat → Int) (sequenceNumber arrivalTimeLimit : Int)
  | eraseTo (fresh : Nat → Int) (sequenceNumber : Int)

namespace ArrivalRun

variable {r r' : ArrivalRun} {arith : Int → Int}

def carried (r : ArrivalRun) (m : PacketArrivalTimeMap) : Int → Option Int :=
  fun s => if r.map.Contains s ∧ m.Contains s then r.last s else none

def removed (r : ArrivalRun) (m : PacketArrivalTimeMap) : Set Int :=
  { s | r.map.Contains s ∧ ¬ m.Contains s }

def step (arith : Int → Int) (r : ArrivalRun) : ArrivalOp → Option ArrivalRun
  | .addPacket fresh s t => (r.map.addPacket arith fresh s t).map fun m =>
      { map := m
        last := fun x => if x = s ∧ m.Contains x then some t else r.carried m x
        added := insert s r.added
        aged := r.aged \ {s}
        erased := r.erased \ {s} }
  | .removeOldPackets fresh s limit => (r.map.removeOldPackets arith fresh s limit).map fun m =>
      { r with map := m, last := r.carried m, aged := r.aged ∪ r.removed m }
  | .eraseTo fresh s => (r.map.eraseTo arith fresh s).map fun m =>
      { r with map := m, last := r.carried m, erased := r.erased ∪ r.removed m }

structure Faithful (r : ArrivalRun) : Prop where
  get : ∀ s, r.map.Contains s → r.map.get s = some ((r.last s).getD minusInfinity)
  hasReceived : ∀ s, r.map.Contains s → r.map.hasReceived s = (r.last s).isSome
  outside : ∀ s ∈ r.added, ¬ r.map.Contains s →
    s ∈ r.aged ∨ s ∈ r.erased ∨ s + kMaxNumberOfPackets ≤ r.map.endSequenceNumber
  size : r.map.endSequenceNumber - r.map.beginSequenceNumber ≤ kMaxNumberOfPackets

structure Sound (r : ArrivalRun) : Prop where
  represents : r.map.Represents (fun s => (r.last s).getD minusInfinity) ∨
    r.map = .create ∧ r.added = ∅
  times : ∀ s t, r.last s = some t → 0 ≤ t
  outside : ∀ s ∈ r.added, ¬ r.map.Contains s →
    s ∈ r.aged ∨ s ∈ r.erased ∨ s + kMaxNumberOfPackets ≤ r.map.endSequenceNumber
  size : r.map.endSequenceNumber - r.map.beginSequenceNumber ≤ kMaxNumberOfPackets

theorem Sound.faithful (h : r.Sound) : r.Faithful := by
  refine ⟨fun s hs => ?_, fun s hs => ?_, h.outside, h.size⟩ <;>
    rcases h.represents with hrep | ⟨hcreate, -⟩
  · exact get_of_represents hrep hs
  · rw [hcreate] at hs
    exact absurd hs.1 (not_le.mpr hs.2)
  · rw [hasReceived_of_represents hrep hs]
    cases hlast : r.last s with
    | none => simp [minusInfinity]
    | some t => simpa using h.times s t hlast
  · rw [hcreate] at hs
    exact absurd hs.1 (not_le.mpr hs.2)

variable {m : PacketArrivalTimeMap}

theorem Sound.added_outside (h : r.Sound) {v : Int → Int} (hadded : r.map.Added m v s t) :
    ∀ x ∈ insert s r.added, ¬ m.Contains x →
      x ∈ r.aged \ {s} ∨ x ∈ r.erased \ {s} ∨ x + kMaxNumberOfPackets ≤ m.endSequenceNumber := by
  intro x hx hout
  by_cases hxs : x = s
  · subst hxs
    exact .inr (.inr (hadded.stored.resolve_left hout))
  · by_cases hin : r.map.Contains x
    · exact .inr (.inr ((hadded.kept x hin).resolve_left hout))
    · rcases h.outside x (hx.resolve_left hxs) hin with haged | herased | hlow
      · exact .inl ⟨haged, hxs⟩
      · exact .inr (.inl ⟨herased, hxs⟩)
      · exact .inr (.inr (hlow.trans hadded.last))

variable {fresh : Nat → Int}

theorem Sound.addPacket (hcount : PacketArrivalTimeMap.ExactCount arith) (h : r.Sound)
    (hexact : r.map.Exact arith s) (ht : 0 ≤ t) :
    Ensures (r.step arith (.addPacket fresh s t)) Sound := by
  rcases h.represents with hrep | ⟨hcreate, hempty⟩
  · obtain ⟨m, hm, hadded⟩ := ensures_addPacket fresh hcount hrep
      hexact ht h.size
    refine ⟨_, by rw [step, hm]; rfl, .inl (hadded.represents.congr ?_), ?_, ?_, hadded.size⟩
    · intro x hx
      simp only [PacketArrivalTimeMap.added, carried]
      split_ifs <;> simp_all
    · intro x t' hx
      simp only [carried] at hx
      split_ifs at hx with h1 h2
      · cases hx
        exact ht
      · exact h.times x t' hx
    · exact h.added_outside hadded.toAdded
  · obtain ⟨m, hm, hrep, hfirst, hlast⟩ := ensures_addPacket_create
      fresh hexact.next ht
    have hmem : ∀ x, m.Contains x ↔ x = s := by
      intro x
      unfold PacketArrivalTimeMap.Contains
      omega
    refine ⟨_, by rw [step, hcreate, hm]; rfl, .inl (hrep.congr ?_), ?_, ?_, ?_⟩
    · intro x hx
      show t = (if x = s ∧ m.Contains x then some t else r.carried m x).getD minusInfinity
      rw [if_pos ⟨(hmem x).mp hx, hx⟩, Option.getD_some]
    · intro x t' hx
      simp only [carried, hcreate] at hx
      split_ifs at hx with h1 h2
      · cases hx
        exact ht
      · exact h.times x t' hx
    · rw [hempty]
      rintro x (rfl | hx) hout
      · exact absurd ((hmem x).mpr rfl) hout
      · exact absurd hx (Set.notMem_empty x)
    · show m.endSequenceNumber - m.beginSequenceNumber ≤ _
      rw [hfirst, hlast]
      unfold kMaxNumberOfPackets
      omega

theorem Sound.removed (h : r.Sound) {aged erased : Set Int}
    (hremoved : r.map.Removed m (fun s => (r.last s).getD minusInfinity))
    (haged : r.aged ⊆ aged) (herased : r.erased ⊆ erased) (hgone : r.removed m ⊆ aged ∪ erased) :
    Sound ⟨m, r.carried m, r.added, aged, erased⟩ := by
  have hcontains : ∀ x, m.Contains x → r.map.Contains x := fun x hx =>
    ⟨hremoved.first.trans hx.1, hremoved.last ▸ hx.2⟩
  refine ⟨.inl (hremoved.represents.congr ?_), ?_, ?_, ?_⟩
  · intro x hx
    simp [carried, hx, hcontains x hx]
  · intro x t hx
    simp only [carried] at hx
    split_ifs at hx with hin
    exact h.times x t hx
  · intro x hx hout
    by_cases hin : r.map.Contains x
    · rcases hgone ⟨hin, hout⟩ with hmem | hmem
      · exact .inl hmem
      · exact .inr (.inl hmem)
    · rcases h.outside x hx hin with hmem | hmem | hlow
      · exact .inl (haged hmem)
      · exact .inr (.inl (herased hmem))
      · exact .inr (.inr (hremoved.last.symm ▸ hlow))
  · have hsize := h.size
    have hfirst := hremoved.first
    have hlast := hremoved.last
    show m.endSequenceNumber - m.beginSequenceNumber ≤ kMaxNumberOfPackets
    omega

theorem Sound.still_empty (h : r.Sound) (hempty : r.added = ∅) (aged erased : Set Int) :
    Sound ⟨.create, r.carried .create, r.added, aged, erased⟩ := by
  refine ⟨.inr ⟨rfl, hempty⟩, ?_, ?_, show (0 : Int) - 0 ≤ kMaxNumberOfPackets by decide⟩
  · intro x t hx
    simp only [carried] at hx
    split_ifs at hx with hin
    exact h.times x t hx
  · rw [hempty]
    intro x hx
    exact absurd hx (Set.notMem_empty x)

theorem Sound.removeOldPackets (hcount : PacketArrivalTimeMap.ExactCount arith) (h : r.Sound)
    {s limit : Int} : Ensures (r.step arith (.removeOldPackets fresh s limit)) Sound := by
  rcases h.represents with hrep | ⟨hcreate, hempty⟩
  · obtain ⟨m, hm, hremoved⟩ := ensures_removeOldPackets fresh s limit
      hcount hrep h.size
    refine ⟨_, by rw [step, hm]; rfl, ?_⟩
    exact h.removed hremoved (Set.subset_union_left) subset_rfl
      (Set.subset_union_right.trans Set.subset_union_left)
  · have hm := removeOldPackets_create fresh s limit hcount
    exact ⟨_, by rw [step, hcreate, hm]; rfl, h.still_empty hempty _ _⟩

theorem Sound.eraseTo (hcount : PacketArrivalTimeMap.ExactCount arith) (h : r.Sound) : Ensures
    (r.step arith (.eraseTo fresh s)) Sound := by
  rcases h.represents with hrep | ⟨hcreate, hempty⟩
  · obtain ⟨m, hm, hremoved⟩ := ensures_eraseTo fresh s hcount hrep h.size
    refine ⟨_, by rw [step, hm]; rfl, ?_⟩
    exact h.removed hremoved subset_rfl Set.subset_union_left
      (Set.subset_union_right.trans Set.subset_union_right)
  · exact ⟨_, by rw [step, hcreate, eraseTo_create]; rfl,
      h.still_empty hempty _ _⟩

end ArrivalRun

def ArrivalOp.wellTyped : ArrivalOp → Prop
  | .addPacket _ sequenceNumber arrivalTime =>
    -2 ^ 63 ≤ sequenceNumber ∧ sequenceNumber < 2 ^ 63 ∧ 0 ≤ arrivalTime
  | _ => True

def arrivalMachine (arith : Int → Int) : Machine ArrivalRun ArrivalOp where
  initial r := r = ⟨.create, fun _ => none, ∅, ∅, ∅⟩
  enabled _ op := op.wellTyped
  step := ArrivalRun.step arith

/-- A call of `AddPacket` computes no value outside the range of its type. -/
def ArrivalRun.noOverflow (arith : Int → Int) (r : ArrivalRun) : ArrivalOp → Prop
  | .addPacket _ sequenceNumber _ => r.map.Exact arith sequenceNumber
  | _ => True

theorem exactCount_int64 : PacketArrivalTimeMap.ExactCount int64 := by
  intro n hn hle
  unfold kMaxNumberOfPackets at hle
  exact int64_eq_self (by omega) (by omega)

theorem ArrivalRun.Sound.step {arith : Int → Int} {r : ArrivalRun} {op : ArrivalOp}
    (hcount : PacketArrivalTimeMap.ExactCount arith) (h : r.Sound) (hop : op.wellTyped)
    (hexact : r.noOverflow arith op) : Ensures (r.step arith op) Sound := by
  cases op with
  | addPacket fresh s t => exact h.addPacket hcount hexact hop.2.2
  | removeOldPackets fresh s limit => exact h.removeOldPackets hcount
  | eraseTo fresh s => exact h.eraseTo hcount

theorem arrivalMap_sound {arith : Int → Int} (hcount : PacketArrivalTimeMap.ExactCount arith)
    {r : ArrivalRun}
    (h : ((arrivalMachine arith).restrict (ArrivalRun.noOverflow arith)).Reachable r) :
    r.Sound ∧ ∀ op : ArrivalOp, op.wellTyped ∧ r.noOverflow arith op →
      Ensures (r.step arith op) ArrivalRun.Sound := by
  refine h.invariant ?_ fun r op hr he => hr.step hcount he.1 he.2
  rintro r rfl
  refine ⟨.inr ⟨rfl, rfl⟩, ?_, ?_, by decide⟩
  · intro s t ht
    cases ht
  · intro s hs
    exact absurd hs (Set.notMem_empty s)

/-- In a run whose calls do not overflow, the map shows its window and no check fails. -/
theorem arrivalMap_faithful {r : ArrivalRun}
    (h : ((arrivalMachine int64).restrict (ArrivalRun.noOverflow int64)).Reachable r) :
    r.Faithful ∧ ∀ op : ArrivalOp, op.wellTyped → r.noOverflow int64 op →
      (r.step int64 op).isSome := by
  obtain ⟨hsound, hstep⟩ := arrivalMap_sound exactCount_int64 h
  refine ⟨hsound.faithful, fun op hop hexact => ?_⟩
  obtain ⟨r', hr', -⟩ := hstep op ⟨hop, hexact⟩
  rw [hr']
  rfl

theorem arrivalMap_faithful_first :
    ∃ r, ((arrivalMachine int64).restrict (ArrivalRun.noOverflow int64)).Reachable r ∧
      r.map.get 5 = some 7 ∧ r.Faithful := by
  have h0 : ((arrivalMachine int64).restrict (ArrivalRun.noOverflow int64)).Reachable
      ⟨.create, fun _ => none, ∅, ∅, ∅⟩ := .initial rfl
  have hfits : PacketArrivalTimeMap.create.Exact int64 5 :=
    ⟨by decide, fun h => (by cases h), fun h => (by cases h), fun h => (by cases h)⟩
  have hop : (ArrivalOp.addPacket (fun _ => 0) 5 7).wellTyped := ⟨by decide, by decide, by decide⟩
  have henabled : ((arrivalMachine int64).restrict (ArrivalRun.noOverflow int64)).enabled
      ⟨.create, fun _ => none, ∅, ∅, ∅⟩ (.addPacket (fun _ => 0) 5 7) := ⟨hop, hfits⟩
  have h := h0.step henabled rfl
  exact ⟨_, h, rfl, (arrivalMap_faithful h).1⟩

/-- The packet with the largest number is in no window. -/
theorem arrivalMap_unfaithful_max : ∃ r, (arrivalMachine int64).Reachable r ∧ ¬ r.Faithful := by
  have h := Machine.Reachable.step
    (.initial (show (arrivalMachine int64).initial ⟨.create, fun _ => none, ∅, ∅, ∅⟩ from rfl))
    (show (arrivalMachine int64).enabled _ (.addPacket (fun _ => 0) (2 ^ 63 - 1) 7) from
      ⟨by decide, by decide, by decide⟩) rfl
  refine ⟨_, h, fun hfaithful => ?_⟩
  rcases hfaithful.outside (2 ^ 63 - 1) (.inl rfl) (by decide) with hmem | hmem | hlow
  · exact hmem.1
  · exact hmem.1
  · exact absurd hlow (by decide)

end WebRtc.CongestionControl
