import WebRtc.Rtp.PayloadSplit

/-! Payloads that are sent in several fragments: the limits that hold for the packets of one
fragment, and how a fragment is cut into pieces. -/

namespace WebRtc.Rtp

open List

def toSizeT (x : Int) : Int := if x < 0 then x + 2 ^ 64 else x

variable {sizes : List Int}

namespace PayloadSizeLimits

def within (limits : PayloadSizeLimits) (isFirst isLast : Bool) : PayloadSizeLimits where
  maxPayloadLen := limits.maxPayloadLen
  firstPacketReductionLen := if isFirst then limits.firstPacketReductionLen else 0
  lastPacketReductionLen := if isLast then limits.lastPacketReductionLen else 0
  singlePacketReductionLen :=
    if isFirst && isLast then limits.singlePacketReductionLen
    else if isFirst then limits.firstPacketReductionLen
    else if isLast then limits.lastPacketReductionLen
    else 0

def shrink (limits : PayloadSizeLimits) (headerSize : Nat) : PayloadSizeLimits :=
  { limits with maxPayloadLen := limits.maxPayloadLen - headerSize }

variable {limits : PayloadSizeLimits}

theorem within_nonneg (hfirst : 0 ≤ limits.firstPacketReductionLen)
    (hlast : 0 ≤ limits.lastPacketReductionLen) (isFirst isLast : Bool) :
    0 ≤ (limits.within isFirst isLast).firstPacketReductionLen ∧
      0 ≤ (limits.within isFirst isLast).lastPacketReductionLen := by
  cases isFirst <;> cases isLast <;> simp [within, hfirst, hlast]

theorem within_single_nonneg (hfirst : 0 ≤ limits.firstPacketReductionLen)
    (hlast : 0 ≤ limits.lastPacketReductionLen) (hsingle : 0 ≤ limits.singlePacketReductionLen)
    (isFirst isLast : Bool) : 0 ≤ (limits.within isFirst isLast).singlePacketReductionLen := by
  cases isFirst <;> cases isLast <;> simp [within, hfirst, hlast, hsingle]

theorem Respects.cases (h : limits.Respects sizes) :
    (∃ size, sizes = [size] ∧ size ≤ limits.maxPayloadLen - limits.singlePacketReductionLen) ∨
      ∃ first front last, sizes = first :: (front ++ [last]) ∧
        first ≤ limits.maxPayloadLen - limits.firstPacketReductionLen ∧
        last ≤ limits.maxPayloadLen - limits.lastPacketReductionLen ∧
        ∀ middle ∈ front, middle ≤ limits.maxPayloadLen := by
  rcases sizes with - | ⟨first, rest⟩
  · exact h.elim
  rcases eq_nil_or_concat rest with rfl | ⟨front, last, rfl⟩
  · exact .inl ⟨first, rfl, h⟩
  · exact .inr ⟨first, front, last, by simp, respects_cons_append.mp (by simpa using h)⟩

theorem Respects.size_le (h : limits.Respects sizes)
    (hfirst : 0 ≤ limits.firstPacketReductionLen) (hlast : 0 ≤ limits.lastPacketReductionLen)
    {size : Int} (hsize : size ∈ sizes) :
    size ≤ max limits.maxPayloadLen (limits.maxPayloadLen - limits.singlePacketReductionLen) := by
  rcases h.cases with ⟨only, rfl, hle⟩ | ⟨first, front, last, rfl, hle, hle', hfront⟩
  · obtain rfl := mem_singleton.mp hsize
    omega
  · rcases mem_cons.mp hsize with rfl | hsize
    · omega
    · rcases mem_append.mp hsize with hsize | hsize
      · have hmiddle := hfront size hsize
        omega
      · obtain rfl := mem_singleton.mp hsize
        omega

theorem Respects.append {isFirst isLast : Bool} {sizes sizes' : List Int}
    (hsizes : (limits.within isFirst false).Respects sizes)
    (hsizes' : (limits.within false isLast).Respects sizes') :
    (limits.within isFirst isLast).Respects (sizes ++ sizes') := by
  have hsingle : (limits.within isFirst false).singlePacketReductionLen =
      (limits.within isFirst isLast).firstPacketReductionLen := by
    cases isFirst <;> rfl
  have hsingle' : (limits.within false isLast).singlePacketReductionLen =
      (limits.within isFirst isLast).lastPacketReductionLen := by
    cases isLast <;> rfl
  rcases hsizes.cases with ⟨size, rfl, hsize⟩ | ⟨first, front, last, rfl, hfirst, hlast, hfront⟩ <;>
    rcases hsizes'.cases with
      ⟨size', rfl, hsize'⟩ | ⟨first', front', last', rfl, hfirst', hlast', hfront'⟩
  · rw [hsingle] at hsize
    rw [hsingle'] at hsize'
    exact respects_cons_append.mpr ⟨hsize, hsize', by simp⟩
  · rw [hsingle] at hsize
    rw [singleton_append, ← cons_append]
    refine respects_cons_append.mpr ⟨hsize, hlast', ?_⟩
    rintro middle (- | ⟨_, hm⟩)
    · simpa [within] using hfirst'
    · exact hfront' middle hm
  · rw [hsingle'] at hsize'
    rw [cons_append]
    refine respects_cons_append.mpr ⟨hfirst, hsize', ?_⟩
    intro middle hm
    rcases mem_append.mp hm with hm | hm
    · exact hfront middle hm
    · obtain rfl := mem_singleton.mp hm
      simpa [within] using hlast
  · have hsplit : first :: (front ++ [last]) ++ first' :: (front' ++ [last']) =
        first :: ((front ++ [last] ++ first' :: front') ++ [last']) := by simp
    rw [hsplit]
    refine respects_cons_append.mpr ⟨hfirst, hlast', ?_⟩
    intro middle hm
    rcases mem_append.mp hm with hm | hm
    · rcases mem_append.mp hm with hm | hm
      · exact hfront middle hm
      · obtain rfl := mem_singleton.mp hm
        simpa [within] using hlast
    · rcases mem_cons.mp hm with rfl | hm
      · simpa [within] using hfirst'
      · exact hfront' middle hm

theorem Respects.of_shrink {headerSize : Nat} (h : (limits.shrink headerSize).Respects sizes) :
    limits.Respects (sizes.map (· + (headerSize : Int))) := by
  rcases h.cases with ⟨size, rfl, hsize⟩ | ⟨first, front, last, rfl, hfirst, hlast, hfront⟩
  · show size + (headerSize : Int) ≤ limits.maxPayloadLen - limits.singlePacketReductionLen
    simp only [shrink] at hsize
    omega
  · rw [map_cons, map_append, map_singleton]
    simp only [shrink] at hfirst hlast hfront
    refine respects_cons_append.mpr ⟨by omega, by omega, ?_⟩
    intro middle hm
    obtain ⟨size, hsize, rfl⟩ := mem_map.mp hm
    have hle := hfront size hsize
    omega

theorem exists_isSplit {payloadLen : Int} (hlen : 1 ≤ payloadLen) (hmax : 1 ≤ limits.maxPayloadLen)
    (hfirst : 1 ≤ limits.maxPayloadLen - limits.firstPacketReductionLen)
    (hlast : 1 ≤ limits.maxPayloadLen - limits.lastPacketReductionLen)
    (hsingle : 1 ≤ limits.maxPayloadLen - limits.singlePacketReductionLen) :
    ∃ sizes, limits.IsSplit payloadLen sizes := by
  obtain ⟨n, rfl⟩ : ∃ n : Nat, payloadLen = n + 1 := ⟨(payloadLen - 1).toNat, by omega⟩
  refine ⟨List.replicate (n + 1) 1, by simp, by simp, ?_⟩
  cases n with
  | zero => exact hsingle
  | succ n =>
    rw [replicate_succ, replicate_succ']
    refine respects_cons_append.mpr ⟨hfirst, hlast, ?_⟩
    intro middle hm
    rw [eq_of_mem_replicate hm]
    exact hmax

end PayloadSizeLimits

variable {limits : PayloadSizeLimits}

theorem splitAboutEqually_pair {payloadLen : Int}
    (hlen : 1 ≤ payloadLen) (hfirst : 0 ≤ limits.firstPacketReductionLen)
    (hlast : 0 ≤ limits.lastPacketReductionLen)
    (hsingle : limits.maxPayloadLen < limits.singlePacketReductionLen + payloadLen)
    (hsizes : splitAboutEqually payloadLen limits = some sizes) (hne : sizes ≠ []) :
    limits.IsSplit payloadLen sizes ∧ ∃ first front last, sizes = first :: (front ++ [last]) := by
  obtain ⟨sizes', hsizes', -, hsplit⟩ := splitAboutEqually_spec hlen hfirst hlast
  obtain rfl : sizes = sizes' := Option.some.inj (hsizes.symm.trans hsizes')
  have hsplit := (hsplit hne).1
  exact ⟨hsplit, hsplit.exists_append hsingle⟩

section FragmentLimits

variable (limits : PayloadSizeLimits) (count index : Nat)

def packetReduction : Int :=
  if count = 1 then limits.singlePacketReductionLen
  else if index = 0 then limits.firstPacketReductionLen
  else if index + 1 = count then limits.lastPacketReductionLen
  else 0

/-- The limits by which the fragment `index` of `count` is split, each piece behind a header. -/
def fragmentLimits (headerSize : Nat) : PayloadSizeLimits where
  maxPayloadLen := limits.maxPayloadLen - headerSize
  singlePacketReductionLen :=
    if count ≠ 1 then
      if index = count - 1 then limits.lastPacketReductionLen
      else if index = 0 then limits.firstPacketReductionLen
      else 0
    else limits.singlePacketReductionLen
  firstPacketReductionLen := if index ≠ 0 then 0 else limits.firstPacketReductionLen
  lastPacketReductionLen := if index ≠ count - 1 then 0 else limits.lastPacketReductionLen

variable {count index}

theorem packetReduction_eq (hindex : index < count) : packetReduction limits count index =
      (limits.within (index = 0) (index + 1 = count)).singlePacketReductionLen := by
  unfold packetReduction PayloadSizeLimits.within
  by_cases hcount : count = 1
  · have h0 : index = 0 := by omega
    simp [hcount, h0]
  · by_cases h0 : index = 0
    · simp [hcount, h0, Ne.symm hcount]
    · simp [hcount, h0]

theorem fragmentLimits_eq (headerSize : Nat) (hindex : index < count) :
    fragmentLimits limits count index headerSize =
      (limits.within (index = 0) (index + 1 = count)).shrink headerSize := by
  have hlast : index = count - 1 ↔ index + 1 = count := by omega
  unfold fragmentLimits PayloadSizeLimits.within PayloadSizeLimits.shrink
  by_cases hcount : count = 1
  · have h0 : index = 0 := by omega
    simp [hcount, h0]
  · by_cases h0 : index = 0
    · subst h0
      simp [hcount, hlast, Ne.symm hcount]
    · simp [hcount, h0, hlast]

end FragmentLimits

def cut : List Int → List UInt8 → List (List UInt8)
  | [], _ => []
  | size :: rest, data => data.take size.toNat :: cut rest (data.drop size.toNat)

theorem cut_spec {data : List UInt8} (hsum : sizes.sum = data.length)
    (hpos : ∀ size ∈ sizes, 0 < size) : (cut sizes data).flatten = data ∧
      (cut sizes data).map (fun piece => (piece.length : Int)) = sizes := by
  induction sizes generalizing data with
  | nil =>
    have hnil : data = [] := length_eq_zero_iff.mp (by simp at hsum; omega)
    exact ⟨hnil.symm, rfl⟩
  | cons size rest ih =>
    have hrest : ∀ size ∈ rest, 0 < size := fun size h => hpos size (mem_cons_of_mem _ h)
    have hsize := hpos size mem_cons_self
    have hnonneg : 0 ≤ rest.sum := sum_nonneg fun size h => (hrest size h).le
    rw [sum_cons] at hsum
    obtain ⟨hflatten, hlengths⟩ := ih
      (show rest.sum = (data.drop size.toNat).length by rw [length_drop]; omega) hrest
    constructor
    · rw [cut, flatten_cons, hflatten, take_append_drop]
    · rw [cut, map_cons, hlengths, length_take]
      congr 1
      omega

def markEnds {α : Type} (first : Bool) : List α → List (α × Bool × Bool)
  | [] => []
  | [a] => [(a, first, true)]
  | a :: b :: rest => (a, first, false) :: markEnds false (b :: rest)

@[simp] theorem length_markEnds {α : Type} (first : Bool) (l : List α) :
    (markEnds first l).length = l.length := by
  fun_induction markEnds first l with
  | case1 => rfl
  | case2 => rfl
  | case3 first a b rest ih => rw [length_cons, ih, length_cons (a := a)]

theorem markEnds_pair {α : Type} (a z : α) (middle : List α) :
    markEnds true (a :: (middle ++ [z])) =
      (a, true, false) :: (middle.map (fun b => (b, false, false)) ++ [(z, false, true)]) := by
  have htail : markEnds false (middle ++ [z]) =
      middle.map (fun b => (b, false, false)) ++ [(z, false, true)] := by
    induction middle with
    | nil => rfl
    | cons b middle ih =>
      cases middle with
      | nil => rfl
      | cons c middle =>
        rw [cons_append, cons_append, markEnds, ← cons_append, ih]
        rfl
  rw [← htail]
  cases middle <;> rfl

theorem markEnds_cut {data : List UInt8} (hlen : data ≠ [])
    (hfirst : 0 ≤ limits.firstPacketReductionLen) (hlast : 0 ≤ limits.lastPacketReductionLen)
    (hlarge : limits.maxPayloadLen < limits.singlePacketReductionLen + data.length)
    (hsizes : splitAboutEqually data.length limits = some sizes) (hne : sizes ≠ []) :
    limits.IsSplit data.length sizes ∧ ∃ first middle last, markEnds true (cut sizes data) =
        (first, true, false) :: (middle.map (fun b => (b, false, false)) ++ [(last, false, true)]) ∧
      first ++ middle.flatten ++ last = data ∧
      limits.Respects ((first :: (middle ++ [last])).map fun piece => (piece.length : Int)) := by
  have hpos := length_pos_iff.mpr hlen
  obtain ⟨hsplit, f, front, l, hshape⟩ :=
    splitAboutEqually_pair (by omega) hfirst hlast hlarge hsizes hne
  obtain ⟨hflatten, hlengths⟩ := cut_spec hsplit.sum hsplit.pos
  obtain ⟨first, rest, hcut, -, hrest⟩ := map_eq_cons_iff.mp (hlengths.trans hshape)
  obtain ⟨middle, tail, rfl, -, htail⟩ := map_eq_append_iff.mp hrest
  obtain ⟨last, rfl, -⟩ := map_eq_singleton_iff.mp htail
  refine ⟨hsplit, first, middle, last, ?_, ?_, ?_⟩
  · rw [hcut, markEnds_pair]
  · rw [← hflatten, hcut]
    simp
  · rw [← hcut, hlengths]
    exact hsplit.respects

end WebRtc.Rtp
