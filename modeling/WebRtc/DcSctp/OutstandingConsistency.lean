import WebRtc.DcSctp.OutstandingData
import WebRtc.DcSctp.ChunkValidators

/-! The counters and retransmission sets of the outstanding data agree with its items. Every
operation replaces items one at a time, appends one or removes the acked front. -/

namespace WebRtc.DcSctp.OutstandingData

open OrdSet

open Item List

variable {od od' : OutstandingData} {tsn t : Int} {item item' : Item}

theorem nextTsn_eq (od : OutstandingData) :
    od.nextTsn = od.lastCumulativeTsnAck + od.outstandingData.length + 1 := rfl

theorem getItem_eq_some : od.getItem tsn = some item ↔
      ∃ i : Nat, tsn = od.lastCumulativeTsnAck + 1 + i ∧ od.outstandingData[i]? = some item := by
  have hn := od.nextTsn_eq
  simp only [getItem]
  constructor
  · intro h
    split_ifs at h with hr
    exact ⟨(tsn - od.lastCumulativeTsnAck - 1).toNat, by omega, h⟩
  · rintro ⟨i, rfl, hi⟩
    have hlt := (List.getElem?_eq_some_iff.mp hi).1
    rw [if_pos (by omega), ← hi]
    congr 1
    omega

theorem mem_tsns : t ∈ od.tsns ↔ od.lastCumulativeTsnAck < t ∧ t < od.nextTsn := by
  have hn := od.nextTsn_eq
  simp only [tsns, mem_map, mem_range]
  constructor
  · rintro ⟨i, hi, he⟩
    omega
  · rintro ⟨h1, h2⟩
    exact ⟨(t - od.lastCumulativeTsnAck - 1).toNat, by omega, by omega⟩

theorem exists_getItem (h1 : od.lastCumulativeTsnAck < t) (h2 : t < od.nextTsn) :
    ∃ item, od.getItem t = some item := by
  have hn := od.nextTsn_eq
  have hi : (t - od.lastCumulativeTsnAck - 1).toNat < od.outstandingData.length := by omega
  exact ⟨_, getItem_eq_some.mpr ⟨_, by omega, List.getElem?_eq_getElem hi⟩⟩

theorem getItem_range (h : od.getItem t = some item) :
    od.lastCumulativeTsnAck < t ∧ t < od.nextTsn := by
  simp only [getItem] at h
  split_ifs at h with hr
  exact hr

theorem mem_of_getItem (h : od.getItem tsn = some item) : item ∈ od.outstandingData := by
  obtain ⟨i, -, hi⟩ := getItem_eq_some.mp h
  exact mem_of_getElem? hi

theorem getItem_of_mem (h : item ∈ od.outstandingData) : ∃ tsn, od.getItem tsn = some item := by
  obtain ⟨i, hi⟩ := mem_iff_getElem?.mp h
  exact ⟨_, getItem_eq_some.mpr ⟨i, rfl, hi⟩⟩

def unackedSize (headerSize : Nat) (item : Item) : Nat :=
  if item.isOutstanding then roundUpTo4 (headerSize + item.data.size) else 0

def unackedCount (item : Item) : Nat := if item.isOutstanding then 1 else 0

structure Consistent (od : OutstandingData) : Prop where
  bytes : od.unackedBytes = (od.outstandingData.map (unackedSize od.dataChunkHeaderSize)).sum
  items : od.unackedItems = (od.outstandingData.map unackedCount).sum
  retransmit : ∀ tsn, tsn ∈ od.toBeRetransmitted ∨ tsn ∈ od.toBeFastRetransmitted ↔
    ∃ item, od.getItem tsn = some item ∧ item.shouldBeRetransmitted
  disjoint : ∀ tsn ∈ od.toBeFastRetransmitted, tsn ∉ od.toBeRetransmitted
  nacked : ∀ item ∈ od.outstandingData, item.shouldBeRetransmitted → item.isNacked

theorem sum_map_set (item' : Item) (f : Item → Nat) {l : List Item} {i : Nat} (h : l[i]? = some item) :
    ((l.set i item').map f).sum + f item = (l.map f).sum + f item' := by
  induction l generalizing i with
  | nil => simp at h
  | cons a rest ih =>
    cases i with
    | zero =>
      simp only [List.getElem?_cons_zero, Option.some.injEq] at h
      subst h
      simp only [set_cons_zero, map_cons, sum_cons]
      omega
    | succ i =>
      have hh := ih (i := i) (by simpa using h)
      simp only [set_cons_succ, map_cons, sum_cons]
      omega

theorem le_sum_map (f : Item → Nat) {l : List Item} (h : item ∈ l) : f item ≤ (l.map f).sum :=
  le_sum_of_mem (mem_map_of_mem h)

/-- `od'` is `od` with the item at `tsn` replaced, and the counters and sets moved along. -/
structure Replaces (od od' : OutstandingData) (tsn : Int) (item item' : Item) : Prop where
  get : od.getItem tsn = some item
  header : od'.dataChunkHeaderSize = od.dataChunkHeaderSize
  last : od'.lastCumulativeTsnAck = od.lastCumulativeTsnAck
  data : od'.outstandingData = (od.setItem tsn item').outstandingData
  bytes : od'.unackedBytes + unackedSize od.dataChunkHeaderSize item = od.unackedBytes + unackedSize od.dataChunkHeaderSize item'
  items : od'.unackedItems + unackedCount item = od.unackedItems + unackedCount item'
  fast : ∀ t, t ≠ tsn → (t ∈ od'.toBeFastRetransmitted ↔ t ∈ od.toBeFastRetransmitted)
  slow : ∀ t, t ≠ tsn → (t ∈ od'.toBeRetransmitted ↔ t ∈ od.toBeRetransmitted)
  retransmit : tsn ∈ od'.toBeRetransmitted ∨ tsn ∈ od'.toBeFastRetransmitted ↔
    item'.shouldBeRetransmitted
  disjoint : ¬ (tsn ∈ od'.toBeFastRetransmitted ∧ tsn ∈ od'.toBeRetransmitted)
  nacked : item'.shouldBeRetransmitted → item'.isNacked

theorem getItem_setItem (h : od.getItem tsn = some item) :
    (od.setItem tsn item').getItem t = if t = tsn then some item' else od.getItem t := by
  obtain ⟨i, rfl, hi⟩ := getItem_eq_some.mp h
  have hidx : (od.lastCumulativeTsnAck + 1 + i - od.lastCumulativeTsnAck - 1).toNat = i := by omega
  have hlt := (List.getElem?_eq_some_iff.mp hi).1
  apply Option.ext
  intro x
  rw [getItem_eq_some]
  simp only [setItem, hidx, List.getElem?_set]
  split_ifs with ht
  · subst ht
    constructor
    · rintro ⟨j, hj, hx⟩
      obtain rfl : i = j := by omega
      simpa [hlt] using hx
    · intro hx
      exact ⟨i, rfl, by simpa [hlt] using hx⟩
  · rw [getItem_eq_some]
    refine exists_congr fun j => and_congr_right fun hj => ?_
    rw [if_neg (by omega)]

theorem getItem_congr (hl : od'.lastCumulativeTsnAck = od.lastCumulativeTsnAck)
    (hd : od'.outstandingData = od.outstandingData) (t : Int) : od'.getItem t = od.getItem t := by
  apply Option.ext
  intro x
  rw [getItem_eq_some, getItem_eq_some, hl, hd]

theorem Replaces.getItem (h : Replaces od od' tsn item item') (t : Int) :
    od'.getItem t = if t = tsn then some item' else od.getItem t := by
  rw [← getItem_setItem h.get]
  have hlast : od'.lastCumulativeTsnAck = (od.setItem tsn item').lastCumulativeTsnAck := h.last
  exact getItem_congr hlast h.data t

theorem Replaces.consistent (h : Replaces od od' tsn item item') (hc : Consistent od) :
    Consistent od' := by
  obtain ⟨i, hi, hget⟩ := getItem_eq_some.mp h.get
  have hdata : od'.outstandingData = od.outstandingData.set i item' := by
    have hidx : (tsn - od.lastCumulativeTsnAck - 1).toNat = i := by omega
    rw [h.data, setItem, hidx]
  refine ⟨?_, ?_, ?_, ?_, ?_⟩
  · have hs := sum_map_set item' (unackedSize od.dataChunkHeaderSize) hget
    have := h.bytes
    have := hc.bytes
    rw [h.header, hdata]
    omega
  · have hs := sum_map_set item' unackedCount hget
    have := h.items
    have := hc.items
    rw [hdata]
    omega
  · intro t
    rw [h.getItem t]
    by_cases ht : t = tsn
    · subst ht
      simpa using h.retransmit
    · rw [h.fast t ht, h.slow t ht, if_neg ht]
      exact hc.retransmit t
  · intro t hf hs
    by_cases ht : t = tsn
    · subst ht
      exact h.disjoint ⟨hf, hs⟩
    · exact hc.disjoint t ((h.fast t ht).mp hf) ((h.slow t ht).mp hs)
  · intro x hx
    rw [hdata] at hx
    rcases mem_or_eq_of_mem_set hx with hx | rfl
    · exact hc.nacked x hx
    · exact h.nacked

structure Extends (od od' : OutstandingData) : Prop where
  header : od'.dataChunkHeaderSize = od.dataChunkHeaderSize
  last : od'.lastCumulativeTsnAck = od.lastCumulativeTsnAck
  length : od.outstandingData.length ≤ od'.outstandingData.length

theorem Extends.refl (od : OutstandingData) : Extends od od := ⟨rfl, rfl, le_refl _⟩

variable {od'' : OutstandingData}

theorem Extends.trans (h : Extends od od') (h' : Extends od' od'') : Extends od od'' :=
  ⟨h'.header.trans h.header, h'.last.trans h.last, h.length.trans h'.length⟩

theorem Extends.nextTsn (h : Extends od od') : od.nextTsn ≤ od'.nextTsn := by
  rw [nextTsn_eq, nextTsn_eq, h.last]
  have := h.length
  omega

theorem Replaces.ext (h : Replaces od od' tsn item item') : Extends od od' :=
  ⟨h.header, h.last, by rw [h.data]; simp [setItem]⟩

def NoFast (od : OutstandingData) : Prop := ∀ tsn, tsn ∉ od.toBeFastRetransmitted

theorem Item.ack_shouldBeRetransmitted (item : Item) : item.ack.shouldBeRetransmitted = false := by
  simp only [ack, shouldBeRetransmitted]
  split_ifs <;> rfl

theorem Consistent.mem_iff (hc : Consistent od) (h : od.getItem tsn = some item) :
    tsn ∈ od.toBeRetransmitted ∨ tsn ∈ od.toBeFastRetransmitted ↔ item.shouldBeRetransmitted := by
  rw [hc.retransmit]
  constructor
  · rintro ⟨x, hx, hr⟩
    cases hx.symm.trans h
    exact hr
  · exact fun hr => ⟨item, h, hr⟩

theorem Consistent.removeUnacked (hc : Consistent od) (h : od.getItem tsn = some item) :
    Ensures (od.removeUnacked item) fun od' =>
      ∃ bytes items, od' = { od with unackedBytes := bytes, unackedItems := items } ∧
        bytes + unackedSize od.dataChunkHeaderSize item = od.unackedBytes ∧
        items + unackedCount item = od.unackedItems := by
  have hb : unackedSize od.dataChunkHeaderSize item ≤ od.unackedBytes := by
    rw [hc.bytes]
    exact le_sum_map _ (mem_of_getItem h)
  have hi : unackedCount item ≤ od.unackedItems := by
    rw [hc.items]
    exact le_sum_map _ (mem_of_getItem h)
  simp only [unackedSize, unackedCount] at hb hi
  simp only [OutstandingData.removeUnacked, unackedSize, unackedCount]
  split_ifs at hb hi ⊢
  · refine (ensures_checkedSub hb).bind fun bytes hbytes => ?_
    refine (ensures_checkedSub hi).bind fun items hitems => ?_
    exact .some ⟨bytes, items, rfl, hbytes, hitems⟩
  · exact .some ⟨od.unackedBytes, od.unackedItems, rfl, rfl, rfl⟩

theorem Consistent.ackChunk (hc : Consistent od) (hget : od.getItem tsn = some item)
    (hfast : NoFast od) (ackInfo : AckInfo) : Ensures (od.ackChunk ackInfo tsn item) fun r =>
      Replaces od r.1 tsn item item.ack ∧ NoFast r.1 ∨ r.1 = od ∧ item.isAcked := by
  by_cases hacked : item.isAcked
  · simp only [OutstandingData.ackChunk, if_pos hacked]
    exact .some (.inr ⟨rfl, hacked⟩)
  simp only [OutstandingData.ackChunk, if_neg hacked]
  have hnot : item.ack.shouldBeRetransmitted = false := item.ack_shouldBeRetransmitted
  have hmem := hc.mem_iff hget
  refine (hc.removeUnacked hget).bind ?_
  rintro _ ⟨bytes, items, rfl, hbytes, hitems⟩
  have hno : tsn ∉ od.toBeFastRetransmitted := hfast tsn
  have hack : unackedSize od.dataChunkHeaderSize item.ack = 0 ∧ unackedCount item.ack = 0 := ⟨rfl, rfl⟩
  have hrep : Replaces od { od.setItem tsn item.ack with
      unackedBytes := bytes
      unackedItems := items
      toBeRetransmitted := od.toBeRetransmitted.erase tsn } tsn item item.ack :=
    { get := hget, header := rfl, last := rfl, data := rfl
      bytes := by simpa only [hack.1, add_zero] using hbytes
      items := by simpa only [hack.2, add_zero] using hitems
      fast := fun t _ => Iff.rfl
      slow := fun t ht => by simp [ht]
      retransmit := by simp [setItem, hno, hnot]
      disjoint := by simp
      nacked := by simp [hnot] }
  by_cases hr : item.shouldBeRetransmitted
  · simp only [hr, if_true]
    refine Ensures.guard_bind hno ?_
    exact .some (.inl ⟨hrep, hfast⟩)
  · have hslow : od.toBeRetransmitted.erase tsn = od.toBeRetransmitted :=
      erase_eq_self fun h => hr (hmem.mp (.inl h))
    rw [hslow] at hrep
    simp only [if_neg hr]
    exact .some (.inl ⟨hrep, hfast⟩)

theorem getItem_popFront (od : OutstandingData) (t : Int) :
    od.popFront.getItem t = if t = od.lastCumulativeTsnAck + 1 then none else od.getItem t := by
  apply Option.ext
  intro x
  rw [getItem_eq_some]
  simp only [popFront, List.getElem?_tail]
  split_ifs with ht
  · simp only [iff_false, not_exists, not_and]
    omega
  · rw [getItem_eq_some]
    constructor
    · rintro ⟨i, rfl, hi⟩
      exact ⟨i + 1, by push_cast; ring, hi⟩
    · rintro ⟨i, rfl, hi⟩
      obtain ⟨j, rfl⟩ : ∃ j, i = j + 1 := ⟨i - 1, by omega⟩
      exact ⟨j, by push_cast; ring, hi⟩

theorem Consistent.popFront (hc : Consistent od)
    (hget : od.getItem (od.lastCumulativeTsnAck + 1) = some item) (hacked : item.isAcked) :
    Consistent od.popFront := by
  obtain ⟨i, hi, hfront⟩ := getItem_eq_some.mp hget
  obtain rfl : i = 0 := by omega
  obtain ⟨rest, hdata⟩ : ∃ rest, od.outstandingData = item :: rest := by
    cases hd : od.outstandingData with
    | nil => simp [hd] at hfront
    | cons a rest =>
      simp only [hd, List.getElem?_cons_zero, Option.some.injEq] at hfront
      exact ⟨rest, by rw [hfront]⟩
  have hout : item.isOutstanding = false := by
    simp only [isAcked, decide_eq_true_eq] at hacked
    simp [isOutstanding, hacked]
  have hnot : ¬ item.shouldBeRetransmitted := by
    intro hr
    have := hc.nacked item (mem_of_getItem hget) hr
    simp only [isAcked, isNacked, decide_eq_true_eq] at hacked this
    simp [hacked] at this
  refine ⟨?_, ?_, ?_, hc.disjoint, ?_⟩
  · have := hc.bytes
    rw [hdata, map_cons, sum_cons, unackedSize, hout] at this
    simpa [OutstandingData.popFront, hdata] using this
  · have := hc.items
    rw [hdata, map_cons, sum_cons, unackedCount, hout] at this
    simpa [OutstandingData.popFront, hdata] using this
  · intro t
    rw [getItem_popFront]
    refine (hc.retransmit t).trans ?_
    split_ifs with ht
    · subst ht
      simp [hget, hnot]
    · rfl
  · intro x hx
    exact hc.nacked x (mem_of_mem_tail hx)

theorem getItem_front {rest : List Item} (h : od.outstandingData = item :: rest) :
    od.getItem (od.lastCumulativeTsnAck + 1) = some item :=
  getItem_eq_some.mpr ⟨0, by simp, by simp [h]⟩

theorem isAcked_ack (item : Item) : item.ack.isAcked := rfl

variable {cum : Int}

section

variable (hc : Consistent od)
include hc

theorem Consistent.removeAckedLoop {rounds : Nat} (hfast : NoFast od)
    (hrounds : od.outstandingData.length = rounds) (hle : od.lastCumulativeTsnAck ≤ cum)
    (hhigh : cum ≤ od.highestOutstandingTsn) (ackInfo : AckInfo) :
    Ensures (removeAckedLoop cum rounds (od, ackInfo)) fun r =>
      Consistent r.1 ∧ NoFast r.1 ∧ r.1.lastCumulativeTsnAck = cum ∧
        r.1.dataChunkHeaderSize = od.dataChunkHeaderSize ∧
        r.1.outstandingData = od.outstandingData.drop (cum - od.lastCumulativeTsnAck).toNat := by
  simp only [highestOutstandingTsn] at hhigh
  induction rounds generalizing od ackInfo with
  | zero =>
    have hnil := length_eq_zero_iff.mp hrounds
    have hcum : od.lastCumulativeTsnAck = cum := by omega
    exact .some ⟨hc, hfast, hcum, rfl, by simp [hnil]⟩
  | succ rounds ih =>
    obtain ⟨item, rest, hdata⟩ := exists_cons_of_length_eq_add_one hrounds
    have hfront := getItem_front hdata
    simp only [OutstandingData.removeAckedLoop, hdata]
    split_ifs with hlt
    · refine (hc.ackChunk hfront hfast ackInfo).bind ?_
      rintro ⟨od₁, ackInfo₁⟩ hod₁
      obtain ⟨hc₁, hfast₁, hlast, hheader, front₁, hfront₁, hacked₁, hdata₁⟩ :
          Consistent od₁ ∧ NoFast od₁ ∧ od₁.lastCumulativeTsnAck = od.lastCumulativeTsnAck ∧
          od₁.dataChunkHeaderSize = od.dataChunkHeaderSize ∧
          ∃ front, od₁.getItem (od₁.lastCumulativeTsnAck + 1) = some front ∧ front.isAcked ∧
            od₁.outstandingData = front :: rest := by
        rcases hod₁ with ⟨hrep, hf⟩ | ⟨rfl, ha⟩
        · have hset : od₁.outstandingData = item.ack :: rest := by
            rw [hrep.data, setItem, hdata]
            simp
          exact ⟨hrep.consistent hc, hf, hrep.last, hrep.header, _, getItem_front hset,
            isAcked_ack item, hset⟩
        · exact ⟨hc, hfast, rfl, rfl, item, hfront, ha, hdata⟩
      have htail : od₁.popFront.outstandingData = rest := by simp [OutstandingData.popFront, hdata₁]
      have hpop : od₁.popFront.lastCumulativeTsnAck = od.lastCumulativeTsnAck + 1 := by
        simp [OutstandingData.popFront, hlast]
      have hlen : rest.length = rounds := by simpa [hdata] using hrounds
      refine (ih (hc₁.popFront hfront₁ hacked₁) hfast₁ (htail ▸ hlen) (by omega) ?_ _).mono ?_
      · rw [hpop, htail]
        simp only [hdata, length_cons, Nat.cast_add, Nat.cast_one] at hhigh
        omega
      · rintro ⟨od₂, ackInfo₂⟩ ⟨hc₂, hfast₂, hlast₂, hheader₂, hdata₂⟩
        refine ⟨hc₂, hfast₂, hlast₂, hheader₂.trans hheader, ?_⟩
        have hn : (cum - od.lastCumulativeTsnAck).toNat =
            (cum - (od.lastCumulativeTsnAck + 1)).toNat + 1 := by omega
        rw [hdata₂, htail, hpop, hn, drop_succ_cons]
    · have hcum : od.lastCumulativeTsnAck = cum := by omega
      exact .some ⟨hc, hfast, hcum, rfl, by simp [hcum, hdata]⟩

theorem Consistent.removeAcked (hfast : NoFast od)
    (hle : od.lastCumulativeTsnAck ≤ cum) (hhigh : cum ≤ od.highestOutstandingTsn)
    (ackInfo : AckInfo) : Ensures (od.removeAcked cum ackInfo) fun r =>
      Consistent r.1 ∧ NoFast r.1 ∧ r.1.lastCumulativeTsnAck = cum ∧
        r.1.dataChunkHeaderSize = od.dataChunkHeaderSize ∧
        r.1.outstandingData = od.outstandingData.drop (cum - od.lastCumulativeTsnAck).toNat := by
  refine (hc.removeAckedLoop hfast rfl hle hhigh ackInfo).bind ?_
  rintro ⟨od₁, ackInfo₁⟩ ⟨hc₁, hfast₁, hlast, hheader, hdata⟩
  exact .some ⟨⟨hc₁.bytes, hc₁.items, hc₁.retransmit, hc₁.disjoint, hc₁.nacked⟩, hfast₁, hlast,
    hheader, hdata⟩

theorem Consistent.ackGapBlocks (hfast : NoFast od) (cum : Int)
    (blocks : List GapAckBlock) (ackInfo : AckInfo) :
    Ensures (ackGapBlocks cum blocks (od, ackInfo)) fun r =>
      Consistent r.1 ∧ NoFast r.1 ∧ Extends od r.1 := by
  refine Ensures.foldlM ⟨hc, hfast, .refl od⟩ fun s hs block _ => ?_
  refine Ensures.foldlM hs ?_
  rintro ⟨od₁, ackInfo₁⟩ ⟨hc₁, hfast₁, hext₁⟩ tsn -
  refine Ensures.ite (fun hr => ?_) (fun _ => .some ⟨hc₁, hfast₁, hext₁⟩)
  obtain ⟨item, hget⟩ := exists_getItem hr.1 hr.2
  rw [hget]
  refine (hc₁.ackChunk hget hfast₁ ackInfo₁).mono ?_
  rintro ⟨od₂, _⟩ (⟨hrep, hfast₂⟩ | ⟨rfl, -⟩)
  · exact ⟨hrep.consistent hc₁, hfast₂, hext₁.trans hrep.ext⟩
  · exact ⟨hc₁, hfast₁, hext₁⟩

theorem Consistent.pushBack (hr : ¬ item.shouldBeRetransmitted)
    {bytes items : Nat} (hb : bytes = od.unackedBytes + unackedSize od.dataChunkHeaderSize item)
    (hi : items = od.unackedItems + unackedCount item) :
    Consistent { od.pushBack item with unackedBytes := bytes, unackedItems := items } := by
  refine ⟨?_, ?_, ?_, hc.disjoint, ?_⟩
  · simp [OutstandingData.pushBack, hb, hc.bytes]
  · simp [OutstandingData.pushBack, hi, hc.items]
  · intro t
    refine (hc.retransmit t).trans (exists_congr fun x => ?_)
    rw [getItem_eq_some, getItem_eq_some]
    refine and_congr_left fun hx => exists_congr fun i => and_congr_right fun _ => ?_
    simp only [OutstandingData.pushBack]
    by_cases hi : i < od.outstandingData.length
    · rw [List.getElem?_append_left hi]
    · rw [List.getElem?_append_right (by omega), List.getElem?_eq_none (by omega)]
      constructor
      · simp
      · intro hh
        have hmem := mem_of_getElem? hh
        simp only [mem_singleton] at hmem
        exact absurd (hmem ▸ hx) hr
  · intro x hx
    rcases mem_append.mp hx with hx | hx
    · exact hc.nacked x hx
    · simp only [mem_singleton] at hx
      exact fun h => absurd (hx ▸ h) hr

end

theorem extends_pushBack (od : OutstandingData) (item : Item) : Extends od (od.pushBack item) :=
  ⟨rfl, rfl, by simp [pushBack]⟩

structure Keeps (od od' : OutstandingData) : Prop where
  consistent : Consistent od'
  ext : Extends od od'
  noFast : NoFast od → NoFast od'

theorem Keeps.refl (hc : Consistent od) : Keeps od od := ⟨hc, .refl od, id⟩

theorem Keeps.trans (h : Keeps od od') (h' : Keeps od' od'') : Keeps od od'' :=
  ⟨h'.consistent, h.ext.trans h'.ext, fun hf => h'.noFast (h.noFast hf)⟩

theorem Replaces.keeps (h : Replaces od od' tsn item item') (hc : Consistent od)
    (hf : NoFast od → NoFast od') : Keeps od od' :=
  ⟨h.consistent hc, h.ext, hf⟩

theorem Consistent.abandonIfSameMessage (hc : Consistent od) (item : Item) (tsn : Int) :
    Keeps od (abandonIfSameMessage item od tsn) := by
  simp only [OutstandingData.abandonIfSameMessage]
  cases hget : od.getItem tsn with
  | none => exact .refl hc
  | some other =>
    have hmem := hc.mem_iff hget
    have hrep : Replaces od { od.setItem tsn other.abandon with
        toBeFastRetransmitted := od.toBeFastRetransmitted.erase tsn
        toBeRetransmitted := od.toBeRetransmitted.erase tsn } tsn other other.abandon :=
      { get := hget, header := rfl, last := rfl, data := rfl, bytes := rfl, items := rfl
        fast := fun t ht => by simp [ht]
        slow := fun t ht => by simp [ht]
        retransmit := by simp [abandon, shouldBeRetransmitted]
        disjoint := by simp
        nacked := by simp [abandon, shouldBeRetransmitted] }
    dsimp only
    split_ifs with hsame hr
    · exact hrep.keeps hc fun hf t ht => hf t (mem_erase.mp ht).2
    · have hslow : od.toBeRetransmitted.erase tsn = od.toBeRetransmitted :=
        erase_eq_self fun h => hr (hmem.mp (.inl h))
      have hfast : od.toBeFastRetransmitted.erase tsn = od.toBeFastRetransmitted :=
        erase_eq_self fun h => hr (hmem.mp (.inr h))
      rw [hslow, hfast] at hrep
      exact hrep.keeps hc id
    · exact .refl hc

theorem Consistent.abandonLoop (item : Item) (l : List Int) (hc : Consistent od) :
    Keeps od (l.foldl (OutstandingData.abandonIfSameMessage item) od) := by
  induction l generalizing od with
  | nil => exact .refl hc
  | cons t rest ih =>
    have hstep := hc.abandonIfSameMessage item t
    exact hstep.trans (ih hstep.consistent)

section Discarding

variable {σ : Type} (discard : StreamID → OutgoingMessageId → σ → Bool × σ)

theorem Consistent.abandonAllFor (hc : Consistent od) (item : Item) (queue : σ) :
    Keeps od (abandonAllFor discard item (od, queue)).1 := by
  simp only [OutstandingData.abandonAllFor]
  split_ifs
  · have hpush : Consistent (od.pushBack (messageEnd item)) :=
      hc.pushBack (by simp [messageEnd, ack_shouldBeRetransmitted]) rfl rfl
    exact Keeps.trans ⟨hpush, extends_pushBack od _, id⟩ (hpush.abandonLoop item _)
  · exact hc.abandonLoop item _

theorem Item.nack_cases (item : Item) (retransmitNow : Bool) :
    ((item.nack retransmitNow).1.isNacked) ∧ ((item.nack retransmitNow).2 = .kNothing ∧
          (item.nack retransmitNow).1.lifecycle = item.lifecycle ∨
        (item.nack retransmitNow).2 = .kRetransmit ∧ ¬ item.shouldBeRetransmitted ∧
          (item.nack retransmitNow).1.shouldBeRetransmitted ∨
        (item.nack retransmitNow).2 = .kAbandon ∧ ¬ item.shouldBeRetransmitted ∧
          (item.nack retransmitNow).1.isAbandoned) := by
  simp only [nack]
  split_ifs with h h'
  · simp only [Bool.and_eq_true, Bool.not_eq_true'] at h
    refine ⟨rfl, .inr (.inl ⟨rfl, ?_, rfl⟩)⟩
    simpa [shouldBeRetransmitted] using h.1.1
  · simp only [Bool.and_eq_true, Bool.not_eq_true'] at h
    refine ⟨rfl, .inr (.inr ⟨rfl, ?_, rfl⟩)⟩
    simpa [shouldBeRetransmitted] using h.1.1
  · exact ⟨rfl, .inl ⟨rfl, rfl⟩⟩

theorem Consistent.nackItem (hc : Consistent od) (h1 : od.lastCumulativeTsnAck < tsn)
    (h2 : tsn < od.nextTsn) (retransmitNow doFast : Bool) (queue : σ) :
    Ensures (nackItem discard retransmitNow doFast (od, queue) tsn) fun r =>
      Consistent r.2.1 ∧ Extends od r.2.1 ∧ (doFast = false → NoFast od → NoFast r.2.1) := by
  obtain ⟨item, hget⟩ := exists_getItem h1 h2
  have hmem := hc.mem_iff hget
  obtain ⟨hnacked, hcases⟩ := item.nack_cases retransmitNow
  have hout : (item.nack retransmitNow).1.isOutstanding = false := by
    simp only [isNacked, decide_eq_true_eq] at hnacked
    simp [isOutstanding, hnacked]
  have hzero : unackedSize od.dataChunkHeaderSize (item.nack retransmitNow).1 = 0 ∧
      unackedCount (item.nack retransmitNow).1 = 0 := by
    simp [unackedSize, unackedCount, hout]
  simp only [OutstandingData.nackItem, hget]
  refine (hc.removeUnacked hget).bind ?_
  rintro _ ⟨bytes, items, rfl, hbytes, hitems⟩
  have hrep : ∀ fast slow : OrdSet Int,
      (∀ t, t ≠ tsn → (t ∈ fast ↔ t ∈ od.toBeFastRetransmitted)) →
      (∀ t, t ≠ tsn → (t ∈ slow ↔ t ∈ od.toBeRetransmitted)) →
      (tsn ∈ slow ∨ tsn ∈ fast ↔ (item.nack retransmitNow).1.shouldBeRetransmitted) →
      ¬ (tsn ∈ fast ∧ tsn ∈ slow) →
      Replaces od { od.setItem tsn (item.nack retransmitNow).1 with
        unackedBytes := bytes
        unackedItems := items
        toBeFastRetransmitted := fast
        toBeRetransmitted := slow } tsn item (item.nack retransmitNow).1 :=
    fun fast slow hf hs hr hd =>
      { get := hget, header := rfl, last := rfl, data := rfl
        bytes := by simpa only [hzero.1, add_zero] using hbytes
        items := by simpa only [hzero.2, add_zero] using hitems
        fast := hf, slow := hs, retransmit := hr, disjoint := hd
        nacked := fun _ => hnacked }
  rcases hcases with ⟨ha, hl⟩ | ⟨ha, hold, hnew⟩ | ⟨ha, hold, hnew⟩
  · have hr := hrep od.toBeFastRetransmitted od.toBeRetransmitted (fun _ _ => Iff.rfl)
      (fun _ _ => Iff.rfl) (by rw [hmem, shouldBeRetransmitted, shouldBeRetransmitted, hl])
      (fun h => hc.disjoint tsn h.1 h.2)
    simp only [ha]
    exact .some ⟨hr.consistent hc, hr.ext, fun _ => id⟩
  · have hno := mt hmem.mp hold
    simp only [ha]
    split_ifs with hdo
    · have hr := hrep (od.toBeFastRetransmitted.insert tsn) od.toBeRetransmitted
        (fun t ht => by simp [ht]) (fun _ _ => Iff.rfl) (by simp [hnew])
        (fun h => hno (.inl h.2))
      exact .some ⟨hr.consistent hc, hr.ext, by simp [hdo]⟩
    · have hr := hrep od.toBeFastRetransmitted (od.toBeRetransmitted.insert tsn)
        (fun _ _ => Iff.rfl) (fun t ht => by simp [ht]) (by simp [hnew])
        (fun h => hno (.inr h.1))
      exact .some ⟨hr.consistent hc, hr.ext, fun _ => id⟩
  · have hno := mt hmem.mp hold
    have hdead : (item.nack retransmitNow).1.shouldBeRetransmitted = false := by
      simp only [isAbandoned, decide_eq_true_eq] at hnew
      simp [shouldBeRetransmitted, hnew]
    have hr := hrep od.toBeFastRetransmitted od.toBeRetransmitted (fun _ _ => Iff.rfl)
      (fun _ _ => Iff.rfl) (by simp [hno, hdead]) (fun h => hno (.inl h.2))
    have hk := (hr.consistent hc).abandonAllFor discard (item.nack retransmitNow).1 queue
    simp only [ha]
    exact .some ⟨hk.consistent, hr.ext.trans hk.ext, fun _ hf => hk.noFast hf⟩

variable {queue : σ}

theorem Consistent.nackBefore {maxTsn : Int} {doFast loss : Bool} {rounds : Nat}
    (hc : Consistent od) (h1 : od.lastCumulativeTsnAck < tsn) :
    Ensures (nackBefore discard maxTsn doFast rounds tsn (loss, od, queue)) fun r =>
      Consistent r.2.1 ∧ Extends od r.2.1 := by
  induction rounds generalizing od tsn loss queue with
  | zero => exact .some ⟨hc, .refl od⟩
  | succ rounds ih =>
    simp only [OutstandingData.nackBefore]
    refine Ensures.ite (fun hr => ?_) (fun _ => .some ⟨hc, .refl od⟩)
    refine (hc.nackItem discard h1 hr.2 false doFast queue).bind ?_
    rintro ⟨loss₁, od₁, queue₁⟩ ⟨hc₁, hext₁, -⟩
    have hlast := hext₁.last
    refine (ih hc₁ (by omega)).mono ?_
    rintro ⟨loss₂, od₂, queue₂⟩ ⟨hc₂, hext₂⟩
    exact ⟨hc₂, hext₁.trans hext₂⟩

variable {blocks : List GapAckBlock}

section

variable (hc : Consistent od)
include hc

theorem Consistent.nackBlocks {cum maxTsn prev : Int} {doFast loss : Bool}
    (hlast : od.lastCumulativeTsnAck = cum) (hprev : cum ≤ prev) :
    Ensures (nackBlocks discard cum maxTsn doFast prev blocks (loss, od, queue)) fun r =>
      Consistent r.2.1 ∧ Extends od r.2.1 := by
  induction blocks generalizing od prev loss queue with
  | nil => exact .some ⟨hc, .refl od⟩
  | cons block blocks ih =>
    refine (hc.nackBefore discard (by omega)).bind ?_
    rintro ⟨loss₁, od₁, queue₁⟩ ⟨hc₁, hext₁⟩
    refine (ih hc₁ (hext₁.last.trans hlast) (by omega)).mono ?_
    rintro ⟨loss₂, od₂, queue₂⟩ ⟨hc₂, hext₂⟩
    exact ⟨hc₂, hext₁.trans hext₂⟩

theorem Consistent.handleSack
    (hfast : NoFast od) (hvalid : od.isSackValid cum blocks) (isInFastRecovery : Bool) (queue : σ) :
    Ensures (handleSack discard cum blocks isInFastRecovery (od, queue)) fun r =>
      Consistent r.2.1 ∧ r.2.1.lastCumulativeTsnAck = cum ∧
        r.2.1.dataChunkHeaderSize = od.dataChunkHeaderSize ∧ (blocks = [] → r.2.1.outstandingData =
          od.outstandingData.drop (cum - od.lastCumulativeTsnAck).toNat) := by
  simp only [isSackValid, Bool.and_eq_true, decide_eq_true_eq] at hvalid
  refine (hc.removeAcked hfast hvalid.1.1 hvalid.1.2 _).bind ?_
  rintro ⟨od₁, ackInfo₁⟩ ⟨hc₁, hfast₁, hlast₁, hheader₁, hdata₁⟩
  cases blocks with
  | nil => exact .some ⟨hc₁, hlast₁, hheader₁, fun _ => hdata₁⟩
  | cons block blocks =>
    refine (hc₁.ackGapBlocks hfast₁ cum (block :: blocks) ackInfo₁).bind ?_
    rintro ⟨od₂, ackInfo₂⟩ ⟨hc₂, hfast₂, hext₂⟩
    have hlast₂ := hext₂.last.trans hlast₁
    refine (hc₂.nackBlocks discard hlast₂ (le_refl cum)).bind ?_
    rintro ⟨loss, od₃, queue₃⟩ ⟨hc₃, hext₃⟩
    exact .some ⟨hc₃, hext₃.last.trans hlast₂, (hext₃.header.trans hext₂.header).trans hheader₁,
      fun he => absurd he (cons_ne_nil _ _)⟩

theorem Consistent.expireLoop {now : Timestamp} {l : List Int} :
    Keeps od (expireLoop discard now l (od, queue)).1 := by
  induction l generalizing od queue with
  | nil => exact .refl hc
  | cons t rest ih =>
    simp only [OutstandingData.expireLoop]
    cases od.getItem t with
    | none => exact .refl hc
    | some item =>
      have habandon := hc.abandonAllFor discard item queue
      dsimp only
      split_ifs
      · exact ih hc
      · exact habandon.trans (ih habandon.consistent)
      · exact .refl hc

theorem Consistent.insert (messageId : OutgoingMessageId) (data : Data)
    (timeSent : Timestamp) (maxRetransmissions : MaxRetransmits) (expiresAt : Timestamp)
    (lifecycleId : LifecycleId) (queue : σ) :
    Keeps od (insert discard messageId data timeSent maxRetransmissions expiresAt lifecycleId
      (od, queue)).2.1 := by
  have hpush : Consistent { od.pushBack (Item.new messageId data timeSent maxRetransmissions
      expiresAt lifecycleId) with
      unackedBytes := od.unackedBytes + od.getSerializedChunkSize data
      unackedItems := od.unackedItems + 1 } :=
    hc.pushBack (by simp [Item.new, shouldBeRetransmitted]) rfl rfl
  have hk : Keeps od { od.pushBack (Item.new messageId data timeSent maxRetransmissions
      expiresAt lifecycleId) with
      unackedBytes := od.unackedBytes + od.getSerializedChunkSize data
      unackedItems := od.unackedItems + 1 } :=
    ⟨hpush, ⟨rfl, rfl, (extends_pushBack od _).length⟩, id⟩
  simp only [OutstandingData.insert]
  split_ifs
  · exact hk.trans (hpush.abandonAllFor discard _ queue)
  · exact hk

theorem Consistent.nackAll (queue : σ) :
    Ensures (nackAll discard (od, queue)) fun r => Keeps od r.1 := by
  refine Ensures.foldlM (.refl hc) ?_
  rintro ⟨od₁, queue₁⟩ hk tsn htsn
  obtain ⟨h1, h2⟩ : od.lastCumulativeTsnAck < tsn ∧ tsn < od.nextTsn :=
    mem_tsns.mp (mem_filter.mp htsn).1
  have hlast : od₁.lastCumulativeTsnAck = od.lastCumulativeTsnAck := hk.ext.last
  have hnext : od.nextTsn ≤ od₁.nextTsn := hk.ext.nextTsn
  have h1' : od₁.lastCumulativeTsnAck < tsn := by omega
  have h2' : tsn < od₁.nextTsn := by omega
  refine (hk.consistent.nackItem discard h1' h2' true false queue₁).bind ?_
  rintro ⟨loss, od₂, queue₂⟩ ⟨hc₂, hext₂, hfast₂⟩
  exact .some (hk.trans ⟨hc₂, hext₂, hfast₂ rfl⟩)

end

end Discarding

def chunks (fast : Bool) (od : OutstandingData) : OrdSet Int :=
  if fast then od.toBeFastRetransmitted else od.toBeRetransmitted

variable {fast : Bool}

theorem Consistent.retransmit_replaces (hc : Consistent od) (hget : od.getItem tsn = some item)
    (hmem : tsn ∈ chunks fast od) (hout : ¬ item.isOutstanding) :
    Replaces od (od.retransmit fast tsn item) tsn item item.markAsRetransmitted := by
  have hdisjoint := hc.disjoint tsn
  have hzero : unackedSize od.dataChunkHeaderSize item = 0 ∧ unackedCount item = 0 := by
    simp [unackedSize, unackedCount, hout]
  have hnot : item.markAsRetransmitted.shouldBeRetransmitted = false := rfl
  refine
    { get := hget, header := rfl, last := rfl, data := rfl
      bytes := by rw [hzero.1]; rfl
      items := by rw [hzero.2]; rfl
      fast := ?_, slow := ?_, retransmit := ?_, disjoint := ?_
      nacked := by simp [hnot] }
  all_goals cases fast with
    | true =>
      have hslow : tsn ∉ od.toBeRetransmitted := hdisjoint hmem
      simp +contextual [OutstandingData.retransmit, hslow, hnot]
    | false =>
      have hfast : tsn ∉ od.toBeFastRetransmitted := fun h => hdisjoint h hmem
      simp +contextual [OutstandingData.retransmit, hfast, hnot]

theorem chunks_retransmit (h : t ≠ tsn) (hmem : t ∈ chunks fast od) :
    t ∈ chunks fast (od.retransmit fast tsn item) := by
  cases fast <;> simpa [chunks, retransmit, h] using hmem

theorem noFast_retransmit (hf : NoFast od) (fast : Bool) : NoFast (od.retransmit fast tsn item) := by
  intro t ht
  cases fast
  · exact hf t ht
  · exact hf t (mem_erase.mp ht).2

theorem Consistent.extractLoop {l : List Int} {maxSize : Nat} (hc : Consistent od)
    (hmem : ∀ t ∈ l, t ∈ chunks fast od) (hsorted : l.Pairwise (· < ·)) :
    Ensures (extractLoop fast l maxSize od) fun r => Keeps od r.2 ∧
      (r.1.map fun c => od.getSerializedChunkSize c.2).sum ≤ maxSize := by
  induction l generalizing od maxSize with
  | nil => exact .some ⟨.refl hc, Nat.zero_le _⟩
  | cons tsn rest ih =>
    obtain ⟨hhead, htail⟩ := pairwise_cons.mp hsorted
    have htsn : tsn ∈ chunks fast od := hmem tsn mem_cons_self
    obtain ⟨item, hget, hr⟩ : ∃ item, od.getItem tsn = some item ∧ item.shouldBeRetransmitted := by
      rw [← hc.retransmit]
      cases fast
      · exact .inl htsn
      · exact .inr htsn
    have hn := hc.nacked item (mem_of_getItem hget) hr
    have hcheck : item.shouldBeRetransmitted ∧ ¬ item.isOutstanding ∧ ¬ item.isAbandoned ∧
        ¬ item.isAcked := by
      simp only [shouldBeRetransmitted, isNacked, decide_eq_true_eq] at hr hn
      simp [shouldBeRetransmitted, isOutstanding, isAbandoned, isAcked, hr, hn]
    have hrest : ∀ t ∈ rest, t ∈ chunks fast od := fun t ht => hmem t (mem_cons_of_mem _ ht)
    simp only [OutstandingData.extractLoop, hget]
    refine Ensures.guard_bind hcheck (Ensures.ite (fun hfit => ?_) (fun _ => ?_))
    · have hrep := hc.retransmit_replaces hget htsn hcheck.2.1
      have hk := hrep.keeps hc fun hf => noFast_retransmit hf fast
      refine Ensures.ite (fun _ => .some ⟨hk, by simpa using hfit⟩) (fun _ => ?_)
      refine (ih hk.consistent (fun t ht => chunks_retransmit (hhead t ht).ne' (hrest t ht))
        htail).bind ?_
      rintro ⟨result, od'⟩ ⟨hk', hsum⟩
      refine .some ⟨hk.trans hk', ?_⟩
      simp only [getSerializedChunkSize, hrep.header, map_cons, sum_cons] at hsum hfit ⊢
      omega
    · refine Ensures.ite (fun _ => .some ⟨.refl hc, Nat.zero_le _⟩) (fun _ => ?_)
      exact ih hc hrest htail

theorem Consistent.getChunksToBeFastRetransmitted (hc : Consistent od) (maxSize : Nat) :
    Ensures (od.getChunksToBeFastRetransmitted maxSize) fun r =>
      Consistent r.2 ∧ Extends od r.2 ∧ NoFast r.2 := by
  have hmem : ∀ t ∈ od.toBeFastRetransmitted.toList, t ∈ chunks true od := by
    intro t ht
    exact mem_toList.mp ht
  refine (hc.extractLoop hmem od.toBeFastRetransmitted.toList_sorted).bind ?_
  rintro ⟨result, od'⟩ ⟨hk, -⟩
  have hc' := hk.consistent
  refine .some ⟨⟨hc'.bytes, hc'.items, fun t => ?_, by simp, hc'.nacked⟩,
    ⟨hk.ext.header, hk.ext.last, hk.ext.length⟩, by simp [NoFast]⟩
  rw [mem_union, or_iff_left (notMem_empty t)]
  exact hc'.retransmit t

theorem noFast_iff : od.hasDataToBeFastRetransmitted = false ↔ NoFast od := by
  simp only [hasDataToBeFastRetransmitted, Bool.not_eq_false', List.isEmpty_iff,
    List.eq_nil_iff_forall_not_mem, mem_toList]
  exact Iff.rfl

theorem Consistent.getChunksToBeRetransmitted (hc : Consistent od) (hfast : NoFast od)
    (maxSize : Nat) : Ensures (od.getChunksToBeRetransmitted maxSize) fun r => Keeps od r.2 ∧
      (r.1.map fun c => od.getSerializedChunkSize c.2).sum ≤ maxSize := by
  have hno := noFast_iff.mpr hfast
  refine Ensures.guard_bind (by simp [hno]) (hc.extractLoop ?_ od.toBeRetransmitted.toList_sorted)
  intro t ht
  exact mem_toList.mp ht

theorem Consistent.isConsistent (hc : Consistent od) : od.isConsistent = true := by
  have hbytes : ((od.outstandingData.filter isOutstanding).map fun item =>
      od.getSerializedChunkSize item.data).sum =
      (od.outstandingData.map (unackedSize od.dataChunkHeaderSize)).sum := by
    induction od.outstandingData with
    | nil => rfl
    | cons item rest ih =>
      simp only [getSerializedChunkSize] at ih ⊢
      cases h : item.isOutstanding <;> simp [h, unackedSize, ih]
  have hitems : (od.outstandingData.filter isOutstanding).length =
      (od.outstandingData.map unackedCount).sum := by
    induction od.outstandingData with
    | nil => rfl
    | cons item rest ih =>
      cases h : item.isOutstanding <;> simp [h, unackedCount, ih]
      omega
  have htsns : od.tsns.filter (fun tsn => (od.getItem tsn).any shouldBeRetransmitted) =
      (od.toBeRetransmitted.union od.toBeFastRetransmitted).toList := by
    refine (toList_eq ?_ fun t => ?_).symm
    · refine List.Pairwise.filter _ (pairwise_map.mpr ?_)
      exact pairwise_lt_range.imp fun h => by omega
    · rw [mem_union, hc.retransmit, mem_filter, Option.any_eq_true]
      constructor
      · rintro ⟨-, item, hi, hr⟩
        exact ⟨item, hi, hr⟩
      · rintro ⟨item, hi, hr⟩
        exact ⟨mem_tsns.mpr (getItem_range hi), item, hi, hr⟩
  simp only [OutstandingData.isConsistent, hbytes, hitems, htsns, hc.bytes, hc.items, decide_true,
    Bool.and_self]

theorem new_consistent (header : Nat) (last : Int) : Consistent (new header last) := by
  have hget : ∀ t, (new header last).getItem t = none := by
    intro t
    have hn := (new header last).nextTsn_eq
    exact if_neg fun h => by simp [new] at hn h; omega
  exact ⟨rfl, rfl, fun t => by simp only [hget]; simp [new], by simp [new], by simp [new]⟩

end WebRtc.DcSctp.OutstandingData
