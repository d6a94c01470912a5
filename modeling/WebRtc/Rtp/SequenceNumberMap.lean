import WebRtc.Lib.BinarySearch
import WebRtc.Lib.Checked
import WebRtc.Numerics.SerialOrder

/-! The map from the sequence numbers of the last packets to what is known of them
(`rtp_sequence_number_map.cc`), a deque in the order of the numbers. -/

namespace WebRtc.Rtp

open List

variable {Info : Type}

structure Association (Info : Type) where
  sequenceNumber : BitVec 16
  info : Info

structure SequenceNumberMap (Info : Type) where
  maxEntries : Nat
  associations : List (Association Info)

namespace SequenceNumberMap

def inOrder (l : List (Association Info)) : Bool :=
  match l.head?, l.getLast? with
  | some front, some back => aheadOf back.sequenceNumber front.sequenceNumber
  | _, _ => false

/-- The part of `InsertPacket` for a number outside of the range of the entries. -/
def insertAfter (m : SequenceNumberMap Info) (a : Association Info) :
    Option (SequenceNumberMap Info) := do
  guard (m.associations.length ≤ m.maxEntries)
  let first := if m.associations.length = m.maxEntries then m.maxEntries - 3 * m.maxEntries / 4 else 0
  guard (first < m.associations.length)
  let eraseTo := first + lowerBoundIndex
    (fun e => aheadOf e.sequenceNumber a.sequenceNumber) (m.associations.drop first)
  let l := m.associations.drop eraseTo ++ [a]
  guard (l.length = 1 ∨ inOrder l = true)
  return { m with associations := l }

def insertPacket (m : SequenceNumberMap Info) (a : Association Info) :
    Option (SequenceNumberMap Info) := do
  guard (m.associations.length < 2 ∨ inOrder m.associations = true)
  match m.associations.head?, m.associations.getLast? with
  | some front, some back =>
    if aheadOrAt a.sequenceNumber front.sequenceNumber &&
        aheadOrAt back.sequenceNumber a.sequenceNumber then
      return { m with associations := [a] }
    else m.insertAfter a
  | _, _ => return { m with associations := [a] }

def get (m : SequenceNumberMap Info) (s : BitVec 16) : Option Info := do
  let front ← m.associations.head?
  let offset := 0 - front.sequenceNumber
  let e ← m.associations[lowerBoundIndex
    (fun e => decide ((e.sequenceNumber + offset).toNat < (s + offset).toNat)) m.associations]?
  if e.sequenceNumber = s then return e.info else none

end SequenceNumberMap

variable {α : Type}

namespace SequenceNumberMap

variable {m m' : SequenceNumberMap Info} {a front : Association Info} {l : List (Association Info)}

structure Ascending (front : Association Info) (l : List (Association Info)) : Prop where
  sorted : l.Pairwise fun a b =>
    past front.sequenceNumber a.sequenceNumber < past front.sequenceNumber b.sequenceNumber
  ahead : ∀ a ∈ l, aheadOrAt a.sequenceNumber front.sequenceNumber = true

structure Valid (m : SequenceNumberMap Info) : Prop where
  size : m.associations.length ≤ m.maxEntries
  ascending : ∀ front, m.associations.head? = some front → Ascending front m.associations

theorem ascending_singleton (a : Association Info) : Ascending a [a] := by
  refine ⟨pairwise_singleton .., ?_⟩
  intro b hb
  rw [mem_singleton.mp hb, aheadOrAt_iff, past_self]
  omega

theorem Ascending.past_lt (h : Ascending front l) {back : Association Info}
    (hback : l.getLast? = some back) {s : BitVec 16}
    (hout : ¬(aheadOrAt s front.sequenceNumber && aheadOrAt back.sequenceNumber s) = true) :
    ∀ b ∈ l, past front.sequenceNumber b.sequenceNumber < past front.sequenceNumber s := by
  have hmem := mem_of_getLast? hback
  have hahead := (aheadOrAt_iff _ _).mp (h.ahead back hmem)
  -- The last entry is the farthest.
  have hlast : ∀ b ∈ l, past front.sequenceNumber b.sequenceNumber ≤
      past front.sequenceNumber back.sequenceNumber := by
    intro b hb
    obtain ⟨init, rfl⟩ : ∃ init, l = init ++ [back] := List.getLast?_eq_some_iff.mp hback
    rcases mem_append.mp hb with hb | hb
    · exact ((pairwise_append.mp h.sorted).2.2 b hb back (mem_singleton_self _)).le
    · rw [mem_singleton.mp hb]
  have hfar : past front.sequenceNumber back.sequenceNumber < past front.sequenceNumber s := by
    by_contra hle
    rw [Bool.and_eq_true, aheadOrAt_iff, aheadOrAt_iff, past_sub (not_lt.mp hle)] at hout
    have hs : past front.sequenceNumber s = 0 → s = front.sequenceNumber := by
      intro hzero
      unfold past at hzero
      bv_omega
    have hsame : past front.sequenceNumber s = past front.sequenceNumber back.sequenceNumber →
        s = back.sequenceNumber := by
      intro heq
      unfold past at heq
      bv_omega
    by_cases hzero : past front.sequenceNumber s = 0
    · rw [hs hzero] at hout
      rw [past_self] at hout
      omega
    · by_cases heq : past front.sequenceNumber s = past front.sequenceNumber back.sequenceNumber
      · rw [hsame heq] at hout
        omega
      · omega
  intro b hb
  exact (hlast b hb).trans_lt hfar

theorem Ascending.append (h : Ascending front l) {kept : List (Association Info)}
    (hkept : kept.Sublist l) (hpast : ∀ b ∈ l, past front.sequenceNumber b.sequenceNumber <
      past front.sequenceNumber a.sequenceNumber)
    (hahead : ∀ b ∈ kept, aheadOf b.sequenceNumber a.sequenceNumber = false) :
    ∀ g, (kept ++ [a]).head? = some g → Ascending g (kept ++ [a]) := by
  intro g hg
  cases hk : kept with
  | nil =>
    rw [hk] at hg
    cases hg
    exact ascending_singleton a
  | cons x rest =>
    rw [hk] at hg
    cases hg
    have hsorted := h.sorted.sublist hkept
    have hgl : g ∈ l := hkept.subset (hk ▸ mem_cons_self)
    have hga := hpast g hgl
    have hadv := aheadOrAt_of_not_aheadOf (hahead g (hk ▸ mem_cons_self))
    have hge : ∀ b ∈ kept, past front.sequenceNumber g.sequenceNumber ≤
        past front.sequenceNumber b.sequenceNumber := by
      intro b hb
      rw [hk] at hb hsorted
      rcases mem_cons.mp hb with rfl | hb
      · exact le_rfl
      · exact ((pairwise_cons.mp hsorted).1 b hb).le
    rw [← hk]
    refine ⟨?_, ?_⟩
    · refine pairwise_append.mpr ⟨?_, pairwise_singleton .., ?_⟩
      · refine hsorted.imp_of_mem fun hb hc hbc => ?_
        rw [past_sub (hge _ hb), past_sub (hge _ hc)]
        have := hge _ hb
        omega
      · intro b hb c hc
        rw [mem_singleton.mp hc, past_sub (hge b hb), past_sub hga.le]
        have := hge b hb
        have := hpast b (hkept.subset hb)
        omega
    · intro b hb
      rcases mem_append.mp hb with hb | hb
      · rw [aheadOrAt_iff, past_sub hga.le] at hadv
        rw [aheadOrAt_iff, past_sub (hge b hb)]
        have := hge b hb
        have := hpast b (hkept.subset hb)
        omega
      · rw [mem_singleton.mp hb]
        exact hadv

theorem drop_length_takeWhile (p : α → Bool) (l : List α) :
    l.drop (l.takeWhile p).length = l.dropWhile p := by
  induction l with
  | nil => rfl
  | cons x l ih =>
    by_cases hx : p x = true
    · rw [takeWhile_cons_of_pos hx, dropWhile_cons_of_pos hx, length_cons, drop_succ_cons, ih]
    · rw [takeWhile_cons_of_neg hx, dropWhile_cons_of_neg hx]
      rfl

theorem inOrder_of_ascending (h : ∀ g, l.head? = some g → Ascending g l) (hl : 2 ≤ l.length) :
    inOrder l = true := by
  obtain ⟨g, x, rest, rfl⟩ : ∃ g x rest, l = g :: x :: rest := by
    match l, hl with
    | g :: x :: rest, _ => exact ⟨g, x, rest, rfl⟩
  have hasc := h g rfl
  obtain ⟨back, hback⟩ : ∃ back, (x :: rest).getLast? = some back :=
    Option.isSome_iff_exists.mp (by simp)
  have hlast : (g :: x :: rest).getLast? = some back := by rw [List.getLast?_cons_cons, hback]
  have hpos := (pairwise_cons.mp hasc.sorted).1 back (mem_of_getLast? hback)
  rw [inOrder, hlast]
  refine (aheadOf_iff _ _).mpr ⟨?_, hasc.ahead back (mem_of_getLast? hlast)⟩
  omega

def firstKept (m : SequenceNumberMap Info) : Nat :=
  if m.associations.length = m.maxEntries then m.maxEntries - 3 * m.maxEntries / 4 else 0

def kept (m : SequenceNumberMap Info) (a : Association Info) : List (Association Info) :=
  (m.associations.drop m.firstKept).dropWhile fun e => aheadOf e.sequenceNumber a.sequenceNumber

theorem kept_sublist (m : SequenceNumberMap Info) (a : Association Info) :
    (m.kept a).Sublist m.associations :=
  (dropWhile_sublist _).trans (drop_sublist ..)

theorem Valid.insertAfter (h : m.Valid) (hmax : 4 < m.maxEntries)
    (hfront : m.associations.head? = some front)
    (hpast : ∀ b ∈ m.associations, past front.sequenceNumber b.sequenceNumber <
      past front.sequenceNumber a.sequenceNumber) :
    m.insertAfter a = some { m with associations := m.kept a ++ [a] } ∧
      Valid { m with associations := m.kept a ++ [a] } := by
  have hasc := h.ascending front hfront
  have hsize := h.size
  have hpos : 0 < m.associations.length :=
    length_pos_of_mem (mem_of_mem_head? hfront)
  have hfirst : m.firstKept < m.associations.length := by
    unfold firstKept
    split_ifs <;> omega
  -- The entries that are ahead of the number come first.
  have hdivided : (m.associations.drop m.firstKept).Pairwise fun b c =>
      aheadOf c.sequenceNumber a.sequenceNumber = true →
        aheadOf b.sequenceNumber a.sequenceNumber = true := by
    refine (hasc.sorted.sublist (drop_sublist ..)).imp_of_mem fun hb hc hlt => ?_
    have hb := hpast _ (mem_of_mem_drop hb)
    have hc := hpast _ (mem_of_mem_drop hc)
    rw [aheadOf_iff_of_lt hb, aheadOf_iff_of_lt hc]
    omega
  obtain ⟨hindex, hstay⟩ := lowerBoundIndex_eq hdivided
  have hvalid : Valid { m with associations := m.kept a ++ [a] } := by
    refine ⟨?_, hasc.append (m.kept_sublist a) hpast hstay⟩
    have hlength : (m.kept a).length ≤ m.associations.length - m.firstKept := by
      rw [← length_drop]
      exact (dropWhile_sublist _).length_le
    show (m.kept a ++ [a]).length ≤ m.maxEntries
    rw [length_append, length_singleton]
    unfold firstKept at hlength
    split_ifs at hlength <;> omega
  refine ⟨?_, hvalid⟩
  have hdrop : m.associations.drop (m.firstKept + lowerBoundIndex
      (fun e => aheadOf e.sequenceNumber a.sequenceNumber) (m.associations.drop m.firstKept)) =
      m.kept a := by
    rw [hindex, ← drop_drop, drop_length_takeWhile]
    rfl
  have horder : (m.kept a ++ [a]).length = 1 ∨ inOrder (m.kept a ++ [a]) = true := by
    by_cases hone : (m.kept a ++ [a]).length = 1
    · exact .inl hone
    · refine .inr (inOrder_of_ascending hvalid.ascending ?_)
      rw [length_append, length_singleton] at hone ⊢
      omega
  have hcut : m.insertAfter a = (do
      guard (m.associations.length ≤ m.maxEntries)
      guard (m.firstKept < m.associations.length)
      let l := m.associations.drop (m.firstKept + lowerBoundIndex
        (fun e => aheadOf e.sequenceNumber a.sequenceNumber) (m.associations.drop m.firstKept)) ++ [a]
      guard (l.length = 1 ∨ inOrder l = true)
      return { m with associations := l }) := rfl
  rw [hcut, hdrop]
  simp only [guard, if_pos hsize, if_pos hfirst, if_pos horder]
  rfl

theorem Valid.insertPacket (h : m.Valid) (hmax : 4 < m.maxEntries) (a : Association Info) :
    ∃ m', m.insertPacket a = some m' ∧ m'.Valid ∧ m'.maxEntries = m.maxEntries ∧
      (m'.associations = [a] ∧ (∀ front back, m.associations.head? = some front →
          m.associations.getLast? = some back →
          aheadOrAt back.sequenceNumber a.sequenceNumber = true) ∨
        m'.associations = m.kept a ++ [a] ∧
          ∀ b ∈ m.associations, b.sequenceNumber ≠ a.sequenceNumber) := by
  have hfresh : Valid { m with associations := [a] } := by
    refine ⟨by show 1 ≤ m.maxEntries; omega, ?_⟩
    intro front hfront
    cases hfront
    exact ascending_singleton a
  have hcheck : m.associations.length < 2 ∨ inOrder m.associations = true := by
    by_cases hlength : m.associations.length < 2
    · exact .inl hlength
    · exact .inr (inOrder_of_ascending h.ascending (not_lt.mp hlength))
  rw [SequenceNumberMap.insertPacket]
  simp only [guard, if_pos hcheck]
  cases hl : m.associations with
  | nil => exact ⟨_, rfl, hfresh, rfl, .inl ⟨rfl, nofun⟩⟩
  | cons front rest =>
    obtain ⟨back, hback⟩ : ∃ back, (front :: rest).getLast? = some back :=
      Option.isSome_iff_exists.mp (by simp)
    rw [hback, List.head?_cons]
    by_cases hin : (aheadOrAt a.sequenceNumber front.sequenceNumber &&
        aheadOrAt back.sequenceNumber a.sequenceNumber) = true
    · refine ⟨_, if_pos hin, hfresh, rfl, .inl ⟨rfl, ?_⟩⟩
      intro front' back' _ hback'
      cases hback'
      exact (Bool.and_eq_true .. |>.mp hin).2
    · have hfront : m.associations.head? = some front := by rw [hl]; rfl
      have hpast := (h.ascending front hfront).past_lt (by rw [hl]; exact hback) hin
      obtain ⟨hinsert, hvalid⟩ := h.insertAfter hmax hfront hpast
      refine ⟨_, (if_neg hin).trans hinsert, hvalid, rfl, .inr ⟨rfl, ?_⟩⟩
      intro b hb heq
      have hlt := hpast b (by rw [hl]; exact hb)
      rw [heq] at hlt
      exact lt_irrefl _ hlt

theorem mem_of_get {s : BitVec 16} {info : Info} (h : m.get s = some info) :
    ⟨s, info⟩ ∈ m.associations := by
  rw [get] at h
  obtain ⟨front, -, h⟩ := Option.bind_eq_some_iff.mp h
  obtain ⟨e, he, h⟩ := Option.bind_eq_some_iff.mp h
  split_ifs at h with hs
  cases h
  subst hs
  exact mem_of_getElem? he

theorem Valid.get_of_mem (h : m.Valid) (ha : a ∈ m.associations) :
    m.get a.sequenceNumber = some a.info := by
  obtain ⟨front, hfront⟩ : ∃ front, m.associations.head? = some front :=
    Option.isSome_iff_exists.mp (by
      rw [isSome_head?]
      exact ne_nil_of_mem ha)
  have hsorted := (h.ascending front hfront).sorted
  have hpast : ∀ s : BitVec 16, (s + (0 - front.sequenceNumber)).toNat = past front.sequenceNumber s := by
    intro s
    unfold past
    bv_omega
  obtain ⟨before, after, hl⟩ := append_of_mem ha
  rw [get, hfront]
  simp only [hpast, Option.bind_eq_bind, Option.bind_some]
  rw [hl, pairwise_append, pairwise_cons] at hsorted
  have hindex : lowerBoundIndex (fun e => decide (past front.sequenceNumber e.sequenceNumber <
      past front.sequenceNumber a.sequenceNumber)) m.associations = before.length := by
    rw [hl]
    apply lowerBoundIndex_append
    · intro b hb
      exact decide_eq_true (hsorted.2.2 b hb a mem_cons_self)
    · intro b hb
      apply decide_eq_false
      rcases mem_cons.mp hb with rfl | hb
      · exact lt_irrefl _
      · exact (hsorted.2.1.1 b hb).not_gt
  rw [hindex, hl, List.getElem?_append_right le_rfl, Nat.sub_self]
  simp

end SequenceNumberMap

structure MapRun (Info : Type) where
  map : SequenceNumberMap Info
  inserted : List (Association Info)

namespace MapRun

variable {r : MapRun Info}

def insertPacket (r : MapRun Info) (a : Association Info) : Option (MapRun Info) :=
  (r.map.insertPacket a).map fun m => ⟨m, r.inserted ++ [a]⟩

def latest (inserted : List (Association Info)) (s : BitVec 16) : Option Info :=
  (inserted.reverse.find? fun a => decide (a.sequenceNumber = s)).map Association.info

def Rising (l : List (Association Info)) : Prop :=
  l.Pairwise fun a b => 0 < past a.sequenceNumber b.sequenceNumber ∧
    past a.sequenceNumber b.sequenceNumber < 2 ^ 15

structure Sound (r : MapRun Info) : Prop where
  valid : r.map.Valid
  room : 4 < r.map.maxEntries
  latest : ∀ a ∈ r.map.associations, latest r.inserted a.sequenceNumber = some a.info
  recent : ∀ l recent, r.inserted = l ++ recent → Rising recent →
    recent.rtake (3 * r.map.maxEntries / 4) <:+ r.map.associations

theorem latest_concat (inserted : List (Association Info)) (a : Association Info) (s : BitVec 16) :
    MapRun.latest (inserted ++ [a]) s =
      if a.sequenceNumber = s then some a.info else MapRun.latest inserted s := by
  rw [MapRun.latest, reverse_append, reverse_singleton, singleton_append, List.find?_cons]
  by_cases h : a.sequenceNumber = s <;> simp [h, MapRun.latest]

theorem not_aheadOrAt_of_past {a b : BitVec 16} (h : 0 < past a b) (h' : past a b < 2 ^ 15) :
    aheadOrAt a b = false := by
  rw [Bool.eq_false_iff, ne_eq, aheadOrAt_iff]
  unfold past at h h' ⊢
  bv_omega

theorem suffix_dropWhile {p : α → Bool} {before l : List α}
    (h : ∀ x ∈ l, p x = false) : l <:+ (before ++ l).dropWhile p := by
  induction before with
  | nil =>
    cases l with
    | nil => exact nil_suffix
    | cons x l =>
      rw [nil_append, dropWhile_cons_of_neg (by rw [h x mem_cons_self]; decide)]
  | cons y before ih =>
    by_cases hy : p y = true
    · rw [cons_append, dropWhile_cons_of_pos hy]
      exact ih
    · rw [cons_append, dropWhile_cons_of_neg hy]
      exact (suffix_append before l).trans (suffix_cons y _)

theorem rtake_suffix (l : List α) (n : Nat) : l.rtake n <:+ l := by
  rw [List.rtake]
  exact drop_suffix ..

theorem length_rtake_le (l : List α) (n : Nat) : (l.rtake n).length ≤ n := by
  rw [List.rtake, length_drop]
  omega

theorem Rising.past_of_mem {l : List (Association Info)} {a b : Association Info}
    (h : Rising (l ++ [a])) (hb : b ∈ l) :
    0 < past b.sequenceNumber a.sequenceNumber ∧ past b.sequenceNumber a.sequenceNumber < 2 ^ 15 :=
  (pairwise_append.mp h).2.2 b hb a (mem_singleton_self a)

theorem recent_suffix_kept {m : SequenceNumberMap Info} {recent : List (Association Info)}
    {a : Association Info} {q : Nat} (hq : 3 * m.maxEntries / 4 = q + 1)
    (h : recent.rtake (q + 1) <:+ m.associations) (hrising : Rising (recent ++ [a])) :
    recent.rtake (q + 1) <:+ m.kept a := by
  have hdrop : recent.rtake (q + 1) <:+ m.associations.drop m.firstKept := by
    refine suffix_of_suffix_length_le h (drop_suffix ..) ?_
    have hlength := length_rtake_le recent (q + 1)
    have hle := h.length_le
    rw [length_drop]
    unfold SequenceNumberMap.firstKept
    split_ifs <;> omega
  obtain ⟨before, hbefore⟩ := hdrop
  rw [SequenceNumberMap.kept, ← hbefore]
  apply suffix_dropWhile
  intro b hb
  obtain ⟨hpos, hlt⟩ := hrising.past_of_mem ((rtake_suffix recent (q + 1)).subset hb)
  rw [aheadOf, not_aheadOrAt_of_past hpos hlt, Bool.and_false]

theorem Sound.insertPacket (h : r.Sound) (a : Association Info) : Ensures (r.insertPacket a) Sound := by
  obtain ⟨m', hinsert, hvalid, hmax, hshape⟩ := h.valid.insertPacket h.room a
  refine ⟨⟨m', r.inserted ++ [a]⟩, by rw [MapRun.insertPacket, hinsert]; rfl, hvalid, hmax ▸ h.room,
    ?_, ?_⟩
  · intro b hb
    show MapRun.latest (r.inserted ++ [a]) b.sequenceNumber = some b.info
    rw [latest_concat]
    rcases hshape with ⟨hone, -⟩ | ⟨hmore, hne⟩
    · change b ∈ m'.associations at hb
      rw [hone] at hb
      rw [mem_singleton.mp hb, if_pos rfl]
    · change b ∈ m'.associations at hb
      rw [hmore] at hb
      rcases mem_append.mp hb with hb | hb
      · have hold := (r.map.kept_sublist a).subset hb
        rw [if_neg (hne b hold).symm]
        exact h.latest b hold
      · rw [mem_singleton.mp hb, if_pos rfl]
  · intro l recent heq hrising
    change r.inserted ++ [a] = l ++ recent at heq
    show recent.rtake (3 * m'.maxEntries / 4) <:+ m'.associations
    rcases eq_nil_or_concat recent with rfl | ⟨recent, x, rfl⟩
    · rw [rtake_nil]
      exact nil_suffix
    · rw [concat_eq_append, ← append_assoc] at heq
      obtain ⟨hinserted, hx⟩ := append_inj' heq rfl
      cases hx
      rw [concat_eq_append] at hrising ⊢
      have hroom := h.room
      obtain ⟨q, hq⟩ : ∃ q, 3 * r.map.maxEntries / 4 = q + 1 := ⟨3 * r.map.maxEntries / 4 - 1, by omega⟩
      have hold := h.recent l recent hinserted (pairwise_append.mp hrising).1
      rw [hq] at hold
      rw [hmax, hq, rtake_concat_succ]
      rcases hshape with ⟨hone, hahead⟩ | ⟨hmore, -⟩
      · rcases eq_nil_or_concat recent with rfl | ⟨before, y, rfl⟩
        · rw [rtake_nil, hone]
          exact suffix_rfl
        · -- The last entry would be ahead of the number that follows it.
          rw [concat_eq_append] at hold hrising
          rw [rtake_concat_succ] at hold
          obtain ⟨rest, hrest⟩ := hold
          have hback : r.map.associations.getLast? = some y := by
            rw [← hrest, ← append_assoc]
            simp
          obtain ⟨front, hfront⟩ : ∃ front, r.map.associations.head? = some front :=
            Option.isSome_iff_exists.mp (by
              rw [isSome_head?]
              exact ne_nil_of_mem (mem_of_getLast? hback))
          obtain ⟨hpos, hlt⟩ := hrising.past_of_mem (b := y) (by simp)
          have hno := not_aheadOrAt_of_past hpos hlt
          rw [hahead front y hfront hback] at hno
          cases hno
      · have hkept := recent_suffix_kept hq hold hrising
        rw [hmore]
        have hless : recent.rtake q <:+ recent.rtake (q + 1) := by
          refine suffix_of_suffix_length_le (rtake_suffix ..) (rtake_suffix ..) ?_
          rw [List.rtake, List.rtake, length_drop, length_drop]
          omega
        obtain ⟨before, hbefore⟩ := hless.trans hkept
        rw [← hbefore, append_assoc]
        exact suffix_append ..

end MapRun

def mapMachine (Info : Type) : Machine (MapRun Info) (Association Info) where
  initial r := 4 < r.map.maxEntries ∧ r.map.maxEntries ≤ 2 ^ 15 ∧ r.map.associations = [] ∧
    r.inserted = []
  enabled _ _ := True
  step := MapRun.insertPacket

/-- No check of an insertion fails; the entries ascend and are not too many; what is found is the most
recent insertion, and the most recent of a rising run are found. -/
theorem sequenceNumberMap_recent {r : MapRun Info} (h : (mapMachine Info).Reachable r) :
    (∀ a, (r.map.insertPacket a).isSome) ∧ (∀ front, r.map.associations.head? = some front →
        SequenceNumberMap.Ascending front r.map.associations) ∧
      r.map.associations.length ≤ r.map.maxEntries ∧
      (∀ s info, r.map.get s = some info → MapRun.latest r.inserted s = some info) ∧
      ∀ l recent, r.inserted = l ++ recent → MapRun.Rising recent →
        ∀ a ∈ recent.rtake (3 * r.map.maxEntries / 4), r.map.get a.sequenceNumber = some a.info := by
  have hs : r.Sound := (h.invariant (I := MapRun.Sound) (fun r hr => by
    obtain ⟨hroom, -, hempty, hnone⟩ : _ ∧ _ ∧ _ ∧ _ := hr
    refine ⟨⟨by rw [hempty]; exact Nat.zero_le _, by rw [hempty]; nofun⟩, hroom, by rw [hempty]; nofun, ?_⟩
    intro l recent heq _
    rw [hnone] at heq
    rw [(append_eq_nil_iff.mp heq.symm).2, rtake_nil]
    exact nil_suffix) fun r a hr _ => hr.insertPacket a).1
  refine ⟨?_, hs.valid.ascending, hs.valid.size, ?_, ?_⟩
  · intro a
    obtain ⟨m', hm', -⟩ := hs.valid.insertPacket hs.room a
    rw [hm']
    rfl
  · intro s info hget
    exact hs.latest _ (SequenceNumberMap.mem_of_get hget)
  · intro l recent heq hrising a ha
    exact hs.valid.get_of_mem ((hs.recent l recent heq hrising).subset ha)

instance (r : MapRun Info) (a : Association Info) : Decidable ((mapMachine Info).enabled r a) :=
  inferInstanceAs (Decidable True)

theorem sequenceNumberMap_recent_wrapped :
    ∃ r, (mapMachine Nat).Reachable r ∧ r.map.get 65535 = some 7 ∧
      r.map.associations.length ≤ r.map.maxEntries := by
  have hrun : ((mapMachine Nat).run ⟨⟨5, []⟩, []⟩ [⟨65534, 6⟩, ⟨65535, 7⟩, ⟨3, 8⟩]).any
      (fun r => decide (r.map.maxEntries = 5 ∧
        r.inserted.map (fun a => (a.sequenceNumber, a.info)) = [(65534, 6), (65535, 7), (3, 8)])) =
      true := by
    decide
  obtain ⟨r, hr, hend⟩ := Option.any_eq_true .. |>.mp hrun
  have hreach : (mapMachine Nat).Reachable r :=
    .run (.initial ⟨by decide, by decide, rfl, rfl⟩) hr
  obtain ⟨hmax, hinserted⟩ := of_decide_eq_true hend
  have hlist : r.inserted = [⟨65534, 6⟩, ⟨65535, 7⟩, ⟨3, 8⟩] := by
    refine (map_injective_iff.mpr ?_) hinserted
    rintro ⟨s, i⟩ ⟨t, j⟩ heq
    cases heq
    rfl
  obtain ⟨-, -, hsize, -, hrecent⟩ := sequenceNumberMap_recent hreach
  refine ⟨r, hreach, ?_, hsize⟩
  have hrising : MapRun.Rising [⟨65534, 6⟩, ⟨65535, 7⟩, (⟨3, 8⟩ : Association Nat)] := by
    unfold MapRun.Rising
    decide
  exact hrecent [] _ hlist hrising ⟨65535, 7⟩ (by rw [hmax]; simp [List.rtake])

end WebRtc.Rtp
