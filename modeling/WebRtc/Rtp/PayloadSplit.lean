import Mathlib

/-! How a payload is split over packets (`rtp_format`, `RtpPacketizer::SplitAboutEqually`). The
sizes are `int`s that do not overflow. -/

namespace WebRtc.Rtp

open List

structure PayloadSizeLimits where
  maxPayloadLen : Int
  firstPacketReductionLen : Int
  lastPacketReductionLen : Int
  singlePacketReductionLen : Int
  deriving DecidableEq, Repr

namespace PayloadSizeLimits

def Respects (limits : PayloadSizeLimits) : List Int → Prop
  | [] => False
  | [size] => size ≤ limits.maxPayloadLen - limits.singlePacketReductionLen
  | first :: size :: rest => first ≤ limits.maxPayloadLen - limits.firstPacketReductionLen ∧
    (size :: rest).getLast (List.cons_ne_nil _ _) ≤
      limits.maxPayloadLen - limits.lastPacketReductionLen ∧
    ∀ middle ∈ (size :: rest).dropLast, middle ≤ limits.maxPayloadLen

structure IsSplit (limits : PayloadSizeLimits) (payloadLen : Int) (sizes : List Int) : Prop where
  sum : sizes.sum = payloadLen
  pos : ∀ size ∈ sizes, 0 < size
  respects : limits.Respects sizes

end PayloadSizeLimits

def wantedPacketBytes (limits : PayloadSizeLimits) (firstPacket : Bool) (bytesPerPacket : Int) :
    Int :=
  if firstPacket then
    if limits.firstPacketReductionLen + 1 < bytesPerPacket then
      bytesPerPacket - limits.firstPacketReductionLen
    else 1
  else bytesPerPacket

def splitLoop (limits : PayloadSizeLimits) (numLargerPackets : Int) :
    Nat → Bool → Int → Int → Int → Option (List Int)
  | 0, _, _, _, remainingData => if 0 < remainingData then none else some []
  | rounds + 1, firstPacket, numPacketsLeft, bytesPerPacket, remainingData =>
    if 0 < remainingData then
      let bytesPerPacket :=
        if numPacketsLeft = numLargerPackets then bytesPerPacket + 1 else bytesPerPacket
      let currentPacketBytes :=
        min (wantedPacketBytes limits firstPacket bytesPerPacket) remainingData
      let currentPacketBytes :=
        if numPacketsLeft = 2 ∧ currentPacketBytes = remainingData then currentPacketBytes - 1
        else currentPacketBytes
      (splitLoop limits numLargerPackets rounds false (numPacketsLeft - 1) bytesPerPacket
        (remainingData - currentPacketBytes)).map (currentPacketBytes :: ·)
    else some []

/-- Without a result if the loop does not end within as many rounds as there are bytes, or if a
division is by zero. The divisions are of non-negative numbers. -/
def splitAboutEqually (payloadLen : Int) (limits : PayloadSizeLimits) : Option (List Int) :=
  if limits.singlePacketReductionLen + payloadLen ≤ limits.maxPayloadLen then some [payloadLen]
  else if limits.maxPayloadLen - limits.firstPacketReductionLen < 1 ∨
      limits.maxPayloadLen - limits.lastPacketReductionLen < 1 then some []
  else
    let totalBytes :=
      payloadLen + limits.firstPacketReductionLen + limits.lastPacketReductionLen
    let numPacketsLeft := (totalBytes + limits.maxPayloadLen - 1) / limits.maxPayloadLen
    let numPacketsLeft := if numPacketsLeft = 1 then 2 else numPacketsLeft
    if payloadLen < numPacketsLeft then some []
    else if numPacketsLeft = 0 then none
    else splitLoop limits (totalBytes % numPacketsLeft) payloadLen.toNat true numPacketsLeft
      (totalBytes / numPacketsLeft) payloadLen

variable {sizes : List Int}

namespace PayloadSizeLimits

variable {limits : PayloadSizeLimits}

theorem respects_cons_append {first last : Int} {front : List Int} :
    limits.Respects (first :: (front ++ [last])) ↔
      first ≤ limits.maxPayloadLen - limits.firstPacketReductionLen ∧
      last ≤ limits.maxPayloadLen - limits.lastPacketReductionLen ∧
      ∀ middle ∈ front, middle ≤ limits.maxPayloadLen := by
  cases front with
  | nil => simp [Respects]
  | cons size rest =>
    have hdrop : (size :: (rest ++ [last])).dropLast = size :: rest := by
      rw [← cons_append, dropLast_concat]
    simp [Respects, hdrop]

theorem sum_le_of_forall_le {bound : Int} (h : ∀ size ∈ sizes, size ≤ bound) :
    sizes.sum ≤ sizes.length * bound := by
  have := sum_le_card_nsmul sizes bound h
  rwa [nsmul_eq_mul] at this

theorem sum_le_of_respects {first last : Int} {front : List Int}
    (h : limits.Respects (first :: (front ++ [last]))) : (first :: (front ++ [last])).sum ≤
      (front.length + 2 : Int) * limits.maxPayloadLen - limits.firstPacketReductionLen -
        limits.lastPacketReductionLen := by
  obtain ⟨hfirst, hlast, hfront⟩ := respects_cons_append.mp h
  have hsum := sum_le_of_forall_le hfront
  simp only [sum_cons, sum_append, sum_nil]
  linarith

theorem length_le_sum (h : ∀ size ∈ sizes, 0 < size) : (sizes.length : Int) ≤ sizes.sum := by
  induction sizes with
  | nil => simp
  | cons size sizes ih =>
    have hsize := h size mem_cons_self
    have hrest := ih fun s hs => h s (mem_cons_of_mem _ hs)
    simp only [length_cons, sum_cons, Nat.cast_add, Nat.cast_one]
    omega

end PayloadSizeLimits

/-- The planned size of the packet before which `left` packets are still to be made, itself
included: the last `larger` ones are a byte wider. -/
def share (base larger left : Int) : Int := if left ≤ larger then base + 1 else base

/-- The `bytes_per_packet` with which the loop enters that round. -/
def entryShare (base larger left : Int) : Int := if left < larger then base + 1 else base

variable (base larger left : Int)

theorem entryShare_eq :
    (if left = larger then entryShare base larger left + 1 else entryShare base larger left) =
      share base larger left := by
  simp only [entryShare, share]
  split_ifs <;> omega

theorem entryShare_pred : share base larger left = entryShare base larger (left - 1) := by
  simp only [entryShare, share, Int.sub_one_lt_iff]

def planned (base larger : Int) : Nat → Int
  | 0 => 0
  | left + 1 => planned base larger left + share base larger (left + 1 : Nat)

theorem planned_eq {base larger : Int} (hlarger : 0 ≤ larger) (left : Nat) :
    planned base larger left = left * base + min (left : Int) larger := by
  induction left with
  | zero => simp [planned, hlarger]
  | succ left ih =>
    simp only [planned, ih, share, Nat.cast_add, Nat.cast_one, add_mul, one_mul]
    split_ifs <;> omega

structure IsTail (limits : PayloadSizeLimits) (remaining : Int) (left : Nat) (tail : List Int) :
    Prop where
  length : tail.length = left
  sum : tail.sum = remaining
  pos : ∀ size ∈ tail, 0 < size
  limit : ∃ front last, tail = front ++ [last] ∧
    last ≤ limits.maxPayloadLen - limits.lastPacketReductionLen ∧
    ∀ middle ∈ front, middle ≤ limits.maxPayloadLen

variable {left : Nat}

variable {limits : PayloadSizeLimits}

theorem IsTail.cons {remaining size : Int}
    {tail : List Int} (h : IsTail limits (remaining - size) left tail) (hpos : 0 < size)
    (hle : size ≤ limits.maxPayloadLen) : IsTail limits remaining (left + 1) (size :: tail) := by
  obtain ⟨front, last, rfl, hlast, hfront⟩ := h.limit
  refine ⟨by rw [length_cons, h.length], ?_, ?_, size :: front, last, rfl, hlast, ?_⟩
  · rw [sum_cons, h.sum]
    omega
  · exact List.forall_mem_cons.mpr ⟨hpos, h.pos⟩
  · exact List.forall_mem_cons.mpr ⟨hle, hfront⟩

variable (rounds : Nat)

section Rounds

variable {limits : PayloadSizeLimits} {base larger : Int}

variable {remaining : Int}

theorem splitLoop_last (hpos : 0 < remaining) (hshare : remaining ≤ share base larger 1)
    (hlast : remaining ≤ limits.maxPayloadLen - limits.lastPacketReductionLen) :
    ∃ tail, splitLoop limits larger (rounds + 1) false 1 (entryShare base larger 1) remaining =
      some tail ∧ IsTail limits remaining 1 tail := by
  refine ⟨[remaining], ?_, rfl, by simp, by simpa using hpos, [], remaining, rfl, hlast, by simp⟩
  have hend : splitLoop limits larger rounds false 0 (share base larger 1) 0 = some [] := by
    cases rounds <;> simp [splitLoop]
  simp [splitLoop, hpos, entryShare_eq, wantedPacketBytes, hshare, hend]

theorem splitLoop_middle (limits : PayloadSizeLimits) (rounds : Nat) {left remaining : Int}
    (hleft : 2 < left) (hpos : 0 < remaining) (hshare : share base larger left ≤ remaining) :
    splitLoop limits larger (rounds + 1) false left (entryShare base larger left) remaining =
      (splitLoop limits larger rounds false (left - 1) (entryShare base larger (left - 1))
        (remaining - share base larger left)).map (share base larger left :: ·) := by
  have hne : left ≠ 2 := by omega
  simp [splitLoop, hpos, entryShare_eq, wantedPacketBytes, hshare, hne, ← entryShare_pred]

theorem splitLoop_lastTwo (hbase : 1 ≤ base)
    (hmax : ∀ left, 0 < left → share base larger left ≤ limits.maxPayloadLen)
    (hone : 1 ≤ limits.maxPayloadLen - limits.lastPacketReductionLen)
    (hreduction : 0 ≤ limits.lastPacketReductionLen) (htwo : 2 ≤ remaining)
    (hle : remaining ≤ planned base larger 2 - limits.lastPacketReductionLen) :
    ∃ tail, splitLoop limits larger (rounds + 2) false 2 (entryShare base larger 2) remaining =
      some tail ∧ IsTail limits remaining 2 tail := by
  have hshare : ∀ left, 1 ≤ share base larger left := by
    intro left
    simp only [share]
    split_ifs <;> omega
  have hplanned : planned base larger 2 = share base larger 1 + share base larger 2 := by
    simp [planned]
  obtain ⟨size, hsize, hpos, hmid, hrest, hlast⟩ : ∃ size,
      splitLoop limits larger (rounds + 2) false 2 (entryShare base larger 2) remaining =
        (splitLoop limits larger (rounds + 1) false 1 (entryShare base larger 1)
          (remaining - size)).map (size :: ·) ∧
      0 < size ∧ size ≤ limits.maxPayloadLen ∧ 0 < remaining - size ∧
      remaining - size ≤ share base larger 1 ∧
      remaining - size ≤ limits.maxPayloadLen - limits.lastPacketReductionLen := by
    have hentry : entryShare base larger 1 = share base larger 2 := (entryShare_pred base larger 2).symm
    have h1 := hshare 1
    have h2 := hshare 2
    have hmax1 := hmax 1 one_pos
    have hmax2 := hmax 2 two_pos
    by_cases hclip : remaining ≤ share base larger 2
    · refine ⟨remaining - 1, ?_, by omega, by omega, by omega, by omega, by omega⟩
      rw [splitLoop, if_pos (by omega), entryShare_eq, hentry]
      simp [wantedPacketBytes, hclip]
    · refine ⟨share base larger 2, ?_, by omega, by omega, by omega, by omega, by omega⟩
      rw [splitLoop, if_pos (by omega), entryShare_eq, hentry]
      have hmin : min (share base larger 2) remaining = share base larger 2 := by omega
      have hne : share base larger 2 ≠ remaining := by omega
      simp [wantedPacketBytes, hmin, hne]
  obtain ⟨tail, htail, hspec⟩ := splitLoop_last rounds hrest hlast.1 hlast.2
  exact ⟨size :: tail, by rw [hsize, htail]; rfl, hspec.cons hpos hmid⟩

theorem splitLoop_tail (hbase : 1 ≤ base)
    (hmax : ∀ left, 0 < left → share base larger left ≤ limits.maxPayloadLen)
    (hone : 1 ≤ limits.maxPayloadLen - limits.lastPacketReductionLen)
    (hreduction : 0 ≤ limits.lastPacketReductionLen) {left rounds : Nat}
    (hrounds : left + 2 ≤ rounds)
    (hge : planned base larger (left + 2) - planned base larger 2 + 2 ≤ remaining)
    (hle : remaining ≤ planned base larger (left + 2) - limits.lastPacketReductionLen) :
    ∃ tail, splitLoop limits larger rounds false (left + 2 : Nat)
      (entryShare base larger (left + 2 : Nat)) remaining = some tail ∧
      IsTail limits remaining (left + 2) tail := by
  obtain ⟨rounds, rfl⟩ := Nat.exists_eq_add_of_le' hrounds
  clear hrounds
  induction left generalizing rounds remaining with
  | zero =>
    exact splitLoop_lastTwo rounds hbase hmax hone hreduction (by simpa using hge) hle
  | succ left ih =>
    have hplanned : planned base larger (left + 1 + 2) =
        planned base larger (left + 2) + share base larger (left + 1 + 2 : Nat) := rfl
    have hnonneg : planned base larger 2 ≤ planned base larger (left + 2) := by
      clear ih hge hle hplanned
      induction left with
      | zero => rfl
      | succ left ih =>
        refine ih.trans ?_
        have hnext : planned base larger (left + 1 + 2) =
          planned base larger (left + 2) + share base larger (left + 1 + 2 : Nat) := rfl
        simp only [hnext, share]
        split_ifs <;> omega
    have hshare : 1 ≤ share base larger (left + 1 + 2 : Nat) := by
      simp only [share]
      split_ifs <;> omega
    have hpred : ((left + 1 + 2 : Nat) : Int) - 1 = (left + 2 : Nat) := by
      push_cast
      ring
    have hleft : (2 : Int) < (left + 1 + 2 : Nat) := by omega
    have hround := splitLoop_middle limits (rounds + (left + 2)) hleft
      (show 0 < remaining by omega) (show share base larger (left + 1 + 2 : Nat) ≤ _ by omega)
    obtain ⟨tail, htail, hspec⟩ := @ih (remaining - share base larger (left + 1 + 2 : Nat))
      (by omega) (by omega) rounds
    refine ⟨share base larger (left + 1 + 2 : Nat) :: tail, ?_, hspec.cons (by omega) (hmax _ (by omega))⟩
    rw [show rounds + (left + 1 + 2) = rounds + (left + 2) + 1 by omega, hround, hpred, htail]
    rfl

end Rounds

theorem IsTail.isSplit {payloadLen first : Int}
    {tail : List Int} (h : IsTail limits (payloadLen - first) left tail) (hpos : 0 < first)
    (hle : first ≤ limits.maxPayloadLen - limits.firstPacketReductionLen) :
    limits.IsSplit payloadLen (first :: tail) := by
  obtain ⟨front, last, rfl, hlast, hfront⟩ := h.limit
  refine ⟨?_, List.forall_mem_cons.mpr ⟨hpos, h.pos⟩,
    PayloadSizeLimits.respects_cons_append.mpr ⟨hle, hlast, hfront⟩⟩
  rw [sum_cons, h.sum]
  omega

structure EvenSplit (limits : PayloadSizeLimits) (payloadLen base larger : Int) (packets : Nat) :
    Prop where
  total : planned base larger packets =
    payloadLen + limits.firstPacketReductionLen + limits.lastPacketReductionLen
  larger_nonneg : 0 ≤ larger
  larger_lt : larger < packets
  base_pos : 1 ≤ base
  share_le : ∀ left, 0 < left → share base larger left ≤ limits.maxPayloadLen
  packets_le : packets ≤ payloadLen
  first_nonneg : 0 ≤ limits.firstPacketReductionLen
  last_nonneg : 0 ≤ limits.lastPacketReductionLen
  first_room : 1 ≤ limits.maxPayloadLen - limits.firstPacketReductionLen
  last_room : 1 ≤ limits.maxPayloadLen - limits.lastPacketReductionLen

namespace EvenSplit

variable {limits : PayloadSizeLimits} {payloadLen base larger : Int}

theorem share_first {packets : Nat} (h : EvenSplit limits payloadLen base larger packets) :
    share base larger packets = base :=
  if_neg (not_le.mpr h.larger_lt)

theorem wanted_pos (limits : PayloadSizeLimits) (base : Int) :
    0 < wantedPacketBytes limits true base := by
  simp only [wantedPacketBytes, if_true]
  split_ifs <;> omega

theorem wanted_le {packets : Nat} (h : EvenSplit limits payloadLen base larger packets) :
    wantedPacketBytes limits true base ≤ limits.maxPayloadLen - limits.firstPacketReductionLen := by
  have hbase := h.share_le packets (h.larger_nonneg.trans_lt h.larger_lt)
  have hroom := h.first_room
  rw [h.share_first] at hbase
  simp only [wantedPacketBytes, if_true]
  split_ifs <;> omega

theorem rest_le (h : EvenSplit limits payloadLen base larger (left + 1)) :
    payloadLen - wantedPacketBytes limits true base ≤
      planned base larger left - limits.lastPacketReductionLen := by
  have htotal := h.total
  simp only [planned, h.share_first] at htotal
  simp only [wantedPacketBytes, if_true]
  split_ifs <;> omega

theorem splitLoop_two (h : EvenSplit limits payloadLen base larger 2) :
    ∃ sizes, splitLoop limits larger (rounds + 2) true (2 : Nat) base payloadLen = some sizes ∧
      limits.IsSplit payloadLen sizes ∧ sizes.length = 2 := by
  have hrest := h.rest_le
  have hplanned : planned base larger 1 = share base larger 1 := by simp [planned]
  have hentry : entryShare base larger 1 = base := by
    rw [show (1 : Int) = (2 : Nat) - 1 by norm_num, ← entryShare_pred, h.share_first]
  have hne : ¬ (2 : Int) = larger := fun heq => absurd h.larger_lt (by simp [← heq])
  have hpackets : 2 ≤ payloadLen := h.packets_le
  have hshare : 1 ≤ share base larger 1 := by
    have := h.base_pos
    simp only [share]
    split_ifs <;> omega
  have hlimit := h.share_le 1 one_pos
  have hroom := h.last_room
  have hwanted := h.wanted_le
  have hwantedPos := wanted_pos limits base
  have hlast := h.last_nonneg
  obtain ⟨first, hfirst, hpos, hle, hleft, hleftShare, hleftRoom⟩ : ∃ first,
      splitLoop limits larger (rounds + 2) true (2 : Nat) base payloadLen =
        (splitLoop limits larger (rounds + 1) false 1 (entryShare base larger 1)
          (payloadLen - first)).map (first :: ·) ∧
      0 < first ∧ first ≤ limits.maxPayloadLen - limits.firstPacketReductionLen ∧
      0 < payloadLen - first ∧ payloadLen - first ≤ share base larger 1 ∧
      payloadLen - first ≤ limits.maxPayloadLen - limits.lastPacketReductionLen := by
    by_cases hclip : payloadLen ≤ wantedPacketBytes limits true base
    · refine ⟨payloadLen - 1, ?_, by omega, by omega, by omega, by omega, by omega⟩
      rw [splitLoop, if_pos (by omega), hentry]
      simp [hne, hclip]
    · refine ⟨wantedPacketBytes limits true base, ?_, hwantedPos, hwanted, by omega, by omega,
        by omega⟩
      have hmin : min (wantedPacketBytes limits true base) payloadLen =
        wantedPacketBytes limits true base := by omega
      have hnotAll : wantedPacketBytes limits true base ≠ payloadLen := by omega
      rw [splitLoop, if_pos (by omega), hentry]
      simp [hne, hmin, hnotAll]
  obtain ⟨tail, htail, hspec⟩ := splitLoop_last rounds hleft hleftShare hleftRoom
  exact ⟨first :: tail, by rw [hfirst, htail]; rfl, hspec.isSplit hpos hle, by simp [hspec.length]⟩

theorem two_le_rest (h : EvenSplit limits payloadLen base larger (left + 3))
    (hmany : (left + 2 : Int) * limits.maxPayloadLen <
      payloadLen + limits.firstPacketReductionLen + limits.lastPacketReductionLen) :
    planned base larger (left + 2) - planned base larger 2 + 2 ≤
      payloadLen - wantedPacketBytes limits true base := by
  have htotal := h.total
  have hshare := h.share_le
  have hbase := h.base_pos
  have hlt : larger < left + 3 := by exact_mod_cast h.larger_lt
  have hfirst := h.first_room
  have hlast := h.last_room
  have hnonneg := h.larger_nonneg
  have hmaxBase : base ≤ limits.maxPayloadLen := by
    have := hshare (left + 3 : Nat) (by omega)
    rwa [h.share_first] at this
  rw [planned_eq hnonneg] at htotal ⊢
  rw [planned_eq hnonneg]
  push_cast at htotal ⊢
  simp only [add_mul] at htotal hmany ⊢
  simp only [wantedPacketBytes, if_true]
  split_ifs with hwide
  · -- The first packet is as planned: the last two are planned to be wide enough.
    by_contra hsmall
    have hpos : (left : Int) ≤ left * limits.maxPayloadLen :=
      le_mul_of_one_le_right (by omega) (by omega)
    by_cases hzero : larger = 0
    · have hhalf : (left : Int) * (2 * base) ≤ left * limits.maxPayloadLen :=
        mul_le_mul_of_nonneg_left (by omega) (by omega)
      rw [mul_left_comm] at hhalf
      omega
    · have hhalf : (left : Int) * (2 * base) ≤ left * (limits.maxPayloadLen - 1) :=
        mul_le_mul_of_nonneg_left (by omega) (by omega)
      rw [mul_left_comm, mul_sub, mul_one] at hhalf
      omega
  · -- The first packet is a single byte: the limits bound what the others can take.
    by_cases hsame : base = limits.maxPayloadLen
    · have hnone : larger ≤ 0 := by
        by_contra hpos
        have := hshare larger (by omega)
        simp only [share, le_refl, if_true] at this
        omega
      rw [hsame] at htotal ⊢
      omega
    · have hwider : (left : Int) * (base + 1) ≤ left * limits.maxPayloadLen :=
        mul_le_mul_of_nonneg_left (by omega) (by omega)
      rw [mul_add, mul_one] at hwider
      omega

theorem splitLoop_many {left rounds : Nat} (hrounds : left + 3 ≤ rounds)
    (h : EvenSplit limits payloadLen base larger (left + 3))
    (hmany : (left + 2 : Int) * limits.maxPayloadLen <
      payloadLen + limits.firstPacketReductionLen + limits.lastPacketReductionLen) :
    ∃ sizes, splitLoop limits larger rounds true (left + 3 : Nat) base payloadLen = some sizes ∧
      limits.IsSplit payloadLen sizes ∧ sizes.length = left + 3 := by
  obtain ⟨rounds, rfl⟩ := Nat.exists_eq_add_of_le' hrounds
  have hge := h.two_le_rest hmany
  have hplanned : planned base larger 2 ≤ planned base larger (left + 2) := by
    have hbase := h.base_pos
    rw [planned_eq h.larger_nonneg, planned_eq h.larger_nonneg]
    push_cast
    have : 0 ≤ (left : Int) * base := by positivity
    have := min_le_min_right larger (show (2 : Int) ≤ left + 2 by omega)
    linarith
  obtain ⟨tail, htail, hspec⟩ := splitLoop_tail h.base_pos h.share_le h.last_room h.last_nonneg
    (show left + 2 ≤ rounds + (left + 2) by omega) hge h.rest_le
  have hpos := wanted_pos limits base
  have hentry : entryShare base larger (left + 2 : Nat) = base := by
    rw [show ((left + 2 : Nat) : Int) = (left + 3 : Nat) - 1 by push_cast; ring, ← entryShare_pred,
      h.share_first]
  have hround : splitLoop limits larger (rounds + (left + 3)) true (left + 3 : Nat) base payloadLen =
      (splitLoop limits larger (rounds + (left + 2)) false (left + 2 : Nat)
        (entryShare base larger (left + 2 : Nat))
        (payloadLen - wantedPacketBytes limits true base)).map
        (wantedPacketBytes limits true base :: ·) := by
    have hne : ((left + 3 : Nat) : Int) ≠ larger := h.larger_lt.ne'
    have hleft : ((left + 3 : Nat) : Int) ≠ 2 := by omega
    have hmin : min (wantedPacketBytes limits true base) payloadLen =
      wantedPacketBytes limits true base := by omega
    have hpred : ((left + 3 : Nat) : Int) - 1 = (left + 2 : Nat) := by push_cast; ring
    rw [show rounds + (left + 3) = rounds + (left + 2) + 1 by omega, splitLoop,
      if_pos (by omega), if_neg hne]
    simp only [hmin, hleft, false_and, if_false, hpred, hentry]
  exact ⟨wantedPacketBytes limits true base :: tail, by rw [hround, htail]; rfl,
    hspec.isSplit hpos h.wanted_le, by simp [hspec.length]⟩

end EvenSplit

section Bounds

variable {limits : PayloadSizeLimits} {payloadLen : Int}

def packetsNeeded (limits : PayloadSizeLimits) (payloadLen : Int) : Int :=
  let needed := (payloadLen + limits.firstPacketReductionLen + limits.lastPacketReductionLen +
    limits.maxPayloadLen - 1) / limits.maxPayloadLen
  if needed = 1 then 2 else needed

theorem lt_packetsNeeded_mul (payloadLen : Int) (hmax : 0 < limits.maxPayloadLen)
    (hmany : 2 < packetsNeeded limits payloadLen) :
    (packetsNeeded limits payloadLen - 1) * limits.maxPayloadLen <
      payloadLen + limits.firstPacketReductionLen + limits.lastPacketReductionLen := by
  simp only [packetsNeeded] at hmany ⊢
  split_ifs at hmany ⊢
  · omega
  · have := Int.ediv_mul_le (payloadLen + limits.firstPacketReductionLen +
      limits.lastPacketReductionLen + limits.maxPayloadLen - 1) hmax.ne'
    rw [sub_mul]
    omega

theorem le_packetsNeeded_mul (payloadLen : Int) (hmax : 0 < limits.maxPayloadLen) :
    payloadLen + limits.firstPacketReductionLen + limits.lastPacketReductionLen ≤
      packetsNeeded limits payloadLen * limits.maxPayloadLen := by
  have hround := Int.lt_ediv_add_one_mul_self (payloadLen + limits.firstPacketReductionLen +
    limits.lastPacketReductionLen + limits.maxPayloadLen - 1) hmax
  rw [add_mul, one_mul] at hround
  simp only [packetsNeeded]
  split_ifs with hone
  · rw [hone] at hround
    omega
  · omega

theorem two_le_packetsNeeded (hmax : 0 < limits.maxPayloadLen) (hlen : 1 ≤ payloadLen)
    (hfirst : 0 ≤ limits.firstPacketReductionLen) (hlast : 0 ≤ limits.lastPacketReductionLen) :
    2 ≤ packetsNeeded limits payloadLen := by
  have hpos : 1 ≤ (payloadLen + limits.firstPacketReductionLen + limits.lastPacketReductionLen +
      limits.maxPayloadLen - 1) / limits.maxPayloadLen :=
    (Int.le_ediv_iff_mul_le hmax).mpr (by omega)
  simp only [packetsNeeded]
  split_ifs <;> omega

section

variable (h : limits.IsSplit payloadLen sizes)
include h

theorem PayloadSizeLimits.IsSplit.exists_append
    (hsingle : limits.maxPayloadLen < limits.singlePacketReductionLen + payloadLen) :
    ∃ first front last, sizes = first :: (front ++ [last]) := by
  obtain ⟨hsum, -, hrespects⟩ := h
  rcases sizes with - | ⟨first, rest⟩
  · exact hrespects.elim
  rcases eq_nil_or_concat rest with rfl | ⟨front, last, rfl⟩
  · simp only [PayloadSizeLimits.Respects] at hrespects
    simp only [sum_cons, sum_nil] at hsum
    omega
  · exact ⟨first, front, last, by rw [concat_eq_append]⟩

theorem PayloadSizeLimits.IsSplit.room
    (hsingle : limits.maxPayloadLen < limits.singlePacketReductionLen + payloadLen) :
    1 ≤ limits.maxPayloadLen - limits.firstPacketReductionLen ∧
      1 ≤ limits.maxPayloadLen - limits.lastPacketReductionLen := by
  obtain ⟨first, front, last, rfl⟩ := h.exists_append hsingle
  obtain ⟨hfirst, hlast, -⟩ := PayloadSizeLimits.respects_cons_append.mp h.respects
  exact ⟨(h.pos first (by simp)).trans_le hfirst, (h.pos last (by simp)).trans_le hlast⟩

theorem PayloadSizeLimits.IsSplit.packetsNeeded_le (hmax : 0 < limits.maxPayloadLen)
    (hsingle : limits.maxPayloadLen < limits.singlePacketReductionLen + payloadLen) :
    packetsNeeded limits payloadLen ≤ sizes.length := by
  obtain ⟨first, front, last, rfl⟩ := h.exists_append hsingle
  have hcapacity := PayloadSizeLimits.sum_le_of_respects h.respects
  rw [h.sum] at hcapacity
  have hneeded : (payloadLen + limits.firstPacketReductionLen + limits.lastPacketReductionLen +
      limits.maxPayloadLen - 1) / limits.maxPayloadLen < (front.length + 3 : Int) :=
    (Int.ediv_lt_iff_lt_mul hmax).mpr (by linarith)
  simp only [packetsNeeded, length_cons, length_append, length_nil]
  split_ifs <;> omega

end

theorem share_ediv_le {total bound packets left : Int} (hpos : 0 < packets)
    (htotal : total ≤ packets * bound) (hleft : 0 < left) :
    share (total / packets) (total % packets) left ≤ bound := by
  simp only [share]
  split_ifs with hwide
  · by_contra hlt
    have hmul : packets * bound ≤ packets * (total / packets) :=
      mul_le_mul_of_nonneg_left (by omega) hpos.le
    have := Int.mul_ediv_add_emod total packets
    omega
  · exact Int.ediv_le_of_le_mul hpos (by rwa [mul_comm])

theorem evenSplit (hlen : 1 ≤ payloadLen) (hfirst : 0 ≤ limits.firstPacketReductionLen)
    (hlast : 0 ≤ limits.lastPacketReductionLen)
    (hfirstRoom : 1 ≤ limits.maxPayloadLen - limits.firstPacketReductionLen)
    (hlastRoom : 1 ≤ limits.maxPayloadLen - limits.lastPacketReductionLen) {packets : Nat}
    (hpackets : packetsNeeded limits payloadLen = packets) (hle : packets ≤ payloadLen) :
    EvenSplit limits payloadLen
      ((payloadLen + limits.firstPacketReductionLen + limits.lastPacketReductionLen) / packets)
      ((payloadLen + limits.firstPacketReductionLen + limits.lastPacketReductionLen) % packets)
      packets := by
  have hmax : 0 < limits.maxPayloadLen := by omega
  have hpos : (0 : Int) < packets := by
    rw [← hpackets]
    exact lt_of_lt_of_le two_pos (two_le_packetsNeeded hmax hlen hfirst hlast)
  have htotal := le_packetsNeeded_mul payloadLen hmax
  rw [hpackets] at htotal
  have hmod := Int.emod_nonneg (payloadLen + limits.firstPacketReductionLen +
    limits.lastPacketReductionLen) hpos.ne'
  have hlt := Int.emod_lt_of_pos (payloadLen + limits.firstPacketReductionLen +
    limits.lastPacketReductionLen) hpos
  refine ⟨?_, hmod, hlt, (Int.le_ediv_iff_mul_le hpos).mpr (by omega),
    fun left => share_ediv_le hpos htotal, hle, hfirst, hlast, hfirstRoom, hlastRoom⟩
  rw [planned_eq hmod, min_eq_right hlt.le]
  exact Int.mul_ediv_add_emod ..

theorem splitLoop_even (hlen : 1 ≤ payloadLen) (hfirst : 0 ≤ limits.firstPacketReductionLen)
    (hlast : 0 ≤ limits.lastPacketReductionLen)
    (hfirstRoom : 1 ≤ limits.maxPayloadLen - limits.firstPacketReductionLen)
    (hlastRoom : 1 ≤ limits.maxPayloadLen - limits.lastPacketReductionLen)
    (hle : packetsNeeded limits payloadLen ≤ payloadLen) : ∃ sizes, splitLoop limits
        ((payloadLen + limits.firstPacketReductionLen + limits.lastPacketReductionLen) %
          packetsNeeded limits payloadLen) payloadLen.toNat true (packetsNeeded limits payloadLen)
        ((payloadLen + limits.firstPacketReductionLen + limits.lastPacketReductionLen) /
          packetsNeeded limits payloadLen) payloadLen = some sizes ∧
      limits.IsSplit payloadLen sizes ∧ sizes.length = packetsNeeded limits payloadLen := by
  have hmax : 0 < limits.maxPayloadLen := by omega
  have htwo := two_le_packetsNeeded hmax hlen hfirst hlast
  obtain ⟨packets, hpackets⟩ := Int.eq_ofNat_of_zero_le (zero_le_two.trans htwo)
  have hlt := lt_packetsNeeded_mul payloadLen hmax
  rw [hpackets] at hle htwo hlt ⊢
  have heven := evenSplit hlen hfirst hlast hfirstRoom hlastRoom hpackets hle
  by_cases hpair : packets = 2
  · subst hpair
    obtain ⟨rounds, hrounds⟩ : ∃ rounds, payloadLen.toNat = rounds + 2 :=
      ⟨payloadLen.toNat - 2, by omega⟩
    obtain ⟨sizes, hsizes, hsplit, hlength⟩ := heven.splitLoop_two rounds
    exact ⟨sizes, by rw [hrounds, hsizes], hsplit, by rw [hlength]⟩
  · obtain ⟨left, rfl⟩ : ∃ left, packets = left + 3 := ⟨packets - 3, by omega⟩
    obtain ⟨sizes, hsizes, hsplit, hlength⟩ := heven.splitLoop_many
      (show left + 3 ≤ payloadLen.toNat by omega) (by
        have hmany := hlt (by omega)
        rwa [show ((left + 3 : Nat) : Int) - 1 = left + 2 by push_cast; ring] at hmany)
    exact ⟨sizes, hsizes, hsplit, by rw [hlength]⟩

/-- The split is correct and complete, and has as few packets as the limits allow. -/
theorem splitAboutEqually_spec (hlen : 1 ≤ payloadLen)
    (hfirst : 0 ≤ limits.firstPacketReductionLen) (hlast : 0 ≤ limits.lastPacketReductionLen) :
    ∃ sizes, splitAboutEqually payloadLen limits = some sizes ∧
      (sizes = [] → ∀ other, ¬ limits.IsSplit payloadLen other) ∧
      (sizes ≠ [] → limits.IsSplit payloadLen sizes ∧
        ∀ other, limits.IsSplit payloadLen other → sizes.length ≤ other.length) := by
  by_cases hsingle : limits.singlePacketReductionLen + payloadLen ≤ limits.maxPayloadLen
  · refine ⟨[payloadLen], by rw [splitAboutEqually, if_pos hsingle], by simp, fun _ => ⟨?_, ?_⟩⟩
    · exact ⟨by simp, by simpa using by omega, by simp only [PayloadSizeLimits.Respects]; omega⟩
    · intro other hother
      cases other with
      | nil => exact hother.respects.elim
      | cons => simp
  by_cases hroom : limits.maxPayloadLen - limits.firstPacketReductionLen < 1 ∨
      limits.maxPayloadLen - limits.lastPacketReductionLen < 1
  · refine ⟨[], by rw [splitAboutEqually, if_neg hsingle, if_pos hroom], fun _ other hother => ?_,
      by simp⟩
    obtain ⟨hfirstRoom, hlastRoom⟩ := hother.room (by omega)
    omega
  have hmax : 0 < limits.maxPayloadLen := by omega
  by_cases hfew : payloadLen < packetsNeeded limits payloadLen
  · refine ⟨[], ?_, fun _ other hother => ?_, by simp⟩
    · rw [splitAboutEqually, if_neg hsingle, if_neg hroom]
      exact if_pos hfew
    · have hneeded := hother.packetsNeeded_le hmax (by omega)
      have hlength := PayloadSizeLimits.length_le_sum hother.pos
      rw [hother.sum] at hlength
      omega
  · obtain ⟨sizes, hsizes, hsplit, hlength⟩ := splitLoop_even hlen hfirst hlast (by omega)
      (by omega) (not_lt.mp hfew)
    refine ⟨sizes, ?_, fun hnil => ?_, fun _ => ⟨hsplit, fun other hother => ?_⟩⟩
    · have hpackets : packetsNeeded limits payloadLen ≠ 0 :=
        (lt_of_lt_of_le two_pos (two_le_packetsNeeded hmax hlen hfirst hlast)).ne'
      rw [splitAboutEqually, if_neg hsingle, if_neg hroom, ← hsizes]
      exact (if_neg hfew).trans (if_neg hpackets)
    · exact (hnil ▸ hsplit.respects).elim
    · have hneeded := hother.packetsNeeded_le hmax (by omega)
      omega

theorem splitAboutEqually_zero (hsingle : limits.maxPayloadLen < limits.singlePacketReductionLen)
    (hsizes : splitAboutEqually 0 limits = some sizes) : sizes = [] := by
  rw [splitAboutEqually, if_neg (by omega)] at hsizes
  split at hsizes
  · exact (Option.some.inj hsizes).symm
  · simp only [splitLoop, Int.toNat_zero, lt_self_iff_false, if_false] at hsizes
    split_ifs at hsizes <;> exact (Option.some.inj hsizes).symm

theorem splitAboutEqually_spec_thirteen_bytes :
    splitAboutEqually 13 ⟨10, 9, 9, 0⟩ = some [1, 8, 3, 1] ∧
      PayloadSizeLimits.IsSplit ⟨10, 9, 9, 0⟩ 13 [1, 8, 3, 1] ∧
      ∀ other, PayloadSizeLimits.IsSplit ⟨10, 9, 9, 0⟩ 13 other → 4 ≤ other.length := by
  have hsizes : splitAboutEqually 13 ⟨10, 9, 9, 0⟩ = some [1, 8, 3, 1] := by decide
  obtain ⟨sizes, hspec, -, hsplit⟩ := splitAboutEqually_spec (show (1 : Int) ≤ 13 by decide)
    (show 0 ≤ (PayloadSizeLimits.mk 10 9 9 0).firstPacketReductionLen by decide) (by decide)
  obtain rfl : sizes = [1, 8, 3, 1] := by simpa [hsizes] using hspec.symm
  exact ⟨hsizes, hsplit (by decide)⟩

end Bounds

end WebRtc.Rtp
