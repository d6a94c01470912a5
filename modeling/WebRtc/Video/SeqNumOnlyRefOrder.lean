import WebRtc.Video.SeqNumOnlyRefRuns

/-! Delivery of the items of a stream to the finder of references. The first missing item is the next
one that the finder waits for, and when nothing is missing every frame was handed off. -/

namespace WebRtc.Video

open PacketStream List

@[simp] theorem insertOrdered_nil {α : Type} (key : α → BitVec 16) (a : α) :
    insertOrdered key [] a = [a] := rfl

theorem insertOrdered_cons {α : Type} (key : α → BitVec 16) (e : α) (l : List α) (a : α) :
    insertOrdered key (e :: l) a = if aheadOf (key a) (key e) then e :: insertOrdered key l a
      else if aheadOf (key e) (key a) then a :: e :: l else e :: l := by
  simp only [insertOrdered, lowerBound, span_eq_takeWhile_dropWhile]
  by_cases hbefore : aheadOf (key a) (key e) = true
  · simp only [takeWhile_cons, dropWhile_cons, hbefore, if_true]
    cases hafter : l.dropWhile fun e => aheadOf (key a) (key e) with
    | nil => simp
    | cons x after =>
      dsimp only
      split_ifs <;> rfl
  · simp only [takeWhile_cons, dropWhile_cons, hbefore, if_false, Bool.false_eq_true, nil_append]

namespace RefFinder

variable {s : PacketStream} {delivered ps : List Nat} {h K i : Nat} {out : List HandedFrame}
  {r : RefFinder}

theorem Core.aheadOf_stashed (hc : Core s h K ps r) (hi : i < s.count)
    (hnear : s.firstNum i < s.firstNum h + 100) (hhi : h ≤ i) :
    ∀ p ∈ ps, aheadOf (num (s.firstNum i)) (num (s.firstNum p)) = decide (p < i) ∧
      aheadOf (num (s.firstNum p)) (num (s.firstNum i)) = decide (i < p) := by
  intro p hp
  obtain ⟨hle, hcount, -, hpnear⟩ := hc.waiting p hp
  have hmono := firstNum_mono (s := s) hle
  have hmonoi := firstNum_mono (s := s) hhi
  rw [aheadOf_num (by omega) (by omega), aheadOf_num (by omega) (by omega)]
  rcases lt_trichotomy p i with hlt | rfl | hgt
  · have hnums := firstNum_lt hlt hi.le
    exact ⟨decide_eq_decide.mpr (by omega), decide_eq_decide.mpr (by omega)⟩
  · simp
  · have hnums := firstNum_lt hgt hcount.le
    exact ⟨decide_eq_decide.mpr (by omega), decide_eq_decide.mpr (by omega)⟩

theorem insertOrdered_eq {f : Nat → BitVec 16} (hfresh : i ∉ ps)
    (hahead : ∀ p ∈ ps, aheadOf (f i) (f p) = decide (p < i) ∧ aheadOf (f p) (f i) = decide (i < p)) :
    insertOrdered id (ps.map f) (f i) = (ps.orderedInsert (· ≤ ·) i).map f := by
  induction ps with
  | nil => rfl
  | cons p ps ih =>
    obtain ⟨hi, hp⟩ := hahead p mem_cons_self
    have hne : i ≠ p := fun heq => hfresh (heq ▸ mem_cons_self)
    rw [map_cons, insertOrdered_cons, orderedInsert_cons, id, id, hi, hp]
    by_cases hlt : p < i
    · rw [if_pos (decide_eq_true hlt), if_neg (by omega), map_cons,
        ih (fun hmem => hfresh (mem_cons_of_mem p hmem))
          fun q hq => hahead q (mem_cons_of_mem p hq)]
    · rw [if_neg (by simpa using hlt), if_pos (decide_eq_true (by omega)), if_pos (by omega)]
      rfl

theorem pairwise_orderedInsert (hsorted : ps.Pairwise (· < ·)) (hfresh : i ∉ ps) :
    (ps.orderedInsert (· ≤ ·) i).Pairwise (· < ·) := by
  induction ps with
  | nil => exact pairwise_singleton ..
  | cons p ps ih =>
    obtain ⟨hfirst, hrest⟩ := pairwise_cons.mp hsorted
    have hne : i ≠ p := fun heq => hfresh (heq ▸ mem_cons_self)
    rw [orderedInsert_cons]
    split_ifs with hle
    · refine pairwise_cons.mpr ⟨?_, hsorted⟩
      intro q hq
      rcases mem_cons.mp hq with rfl | hq
      · omega
      · have := hfirst q hq
        omega
    · refine pairwise_cons.mpr ⟨?_, ih hrest fun hmem => hfresh (mem_cons_of_mem p hmem)⟩
      intro q hq
      rcases (mem_orderedInsert _).mp hq with rfl | hq
      · omega
      · exact hfirst q hq

theorem num_sub_hundred (t : Nat) : num t - 100 = wrap 16 ((t : Int) - 100) := by
  have hadd := wrap_add_natCast (w := 16) ((t : Int) - 100) 100
  rw [eq_comm, BitVec.eq_sub_iff_add_eq, num]
  rw [show (t : Int) - 100 + (100 : Nat) = t by push_cast; omega] at hadd
  exact hadd.symm

theorem Core.lowerBound_padding (hc : Core s h K ps r) {t : Nat} (ht : s.firstNum h ≤ t)
    (hnear : t < s.firstNum h + 100) :
    lowerBound id r.stashedPadding (num t - 100) = ([], r.stashedPadding) := by
  rw [hc.padding, lowerBound]
  cases hps : ps with
  | nil => rfl
  | cons p ps' =>
    obtain ⟨hp, -, -, hpnear⟩ := hc.waiting p (by rw [hps]; exact mem_cons_self)
    have hmono := firstNum_mono (s := s) hp
    have hahead : aheadOf (num t - 100) (num (s.firstNum p)) = false := by
      rw [num_sub_hundred, num, aheadOf_wrap (by decide) (by rw [abs_lt]; omega)]
      exact decide_eq_false (by omega)
    generalize num t - 100 = oldest at hahead ⊢
    simp [List.span, List.span.loop, hahead]

theorem Tracked.paddingReceived (ht : Tracked s delivered h K ps out r) (hi : i ∉ delivered)
    (hcount : i < s.count) (hpadding : s.isFrame i = false)
    (hnear : s.firstNum i < s.firstNum h + 100) (hkey : i = h ∨ s.firstNum i ≤ K + 10000) :
    ∃ handed r' h' K' ps', r.paddingReceived (num (s.firstNum i)) = some (handed, r') ∧
      Tracked s (i :: delivered) h' K' ps' (out ++ handed) r' := by
  have hc := ht.passing.core
  have hhi := ht.le_of_not_mem hi
  have hmono := firstNum_mono (s := s) hhi
  have hbase := hc.key
  have hbasenear := ht.passing.near
  have hfresh : i ∉ ps := fun hmem => hi ((ht.delivered i).mpr (.inr (.inl hmem)))
  have hmem : ∀ j, j ∈ ps.orderedInsert (· ≤ ·) i ↔ j = i ∨ j ∈ ps := fun j =>
    mem_orderedInsert _
  have hc₁ : Core s h K (ps.orderedInsert (· ≤ ·) i)
      { r with stashedPadding := (ps.orderedInsert (· ≤ ·) i).map fun i => num (s.firstNum i) } := by
    refine ⟨hc.pos, hc.le, hc.gops, hc.key, rfl, pairwise_orderedInsert hc.sorted hfresh, ?_⟩
    intro j hj
    rcases (hmem j).mp hj with rfl | hj
    · exact ⟨hhi, hcount, hpadding, hnear⟩
    · exact hc.waiting j hj
  obtain ⟨h₁, K₁, hh₁, hK₁, hpassed, hnot, hnear₁, hc₂, hstash, hunwrapper⟩ :=
    hc₁.update (t := s.firstNum i) (by omega) (by unfold Near at hbasenear; omega) (by
      rcases hhi.lt_or_eq with hlt | rfl
      · refine .inr (.inr ⟨by omega, ?_, hbasenear⟩)
        intro hin
        rcases (hmem h).mp hin with heq | hin
        · omega
        · exact ht.passing.next hin
      · exact .inr (.inl ⟨rfl, (hmem h).mpr (.inl rfl)⟩))
  have hstay : ∀ y ∈ r.stashedFrames, h₁ ≤ y.index := by
    intro y hy
    have hwy := ht.waiting y hy
    by_contra hbefore
    have hframe := (hc₁.waiting _ (hpassed y.index hwy.le (by omega))).2.2.1
    rw [hwy.isFrame] at hframe
    cases hframe
  have hframes : s.frames h₁ = s.frames h :=
    frames_of_padding hh₁ fun j hj hj' => (hc₁.waiting j (hpassed j hj hj')).2.2.1
  have hout : Handed s h₁ out r.unwrapper := by
    have hprev : s.prevFrame h₁ = s.prevFrame h := by rw [prevFrame, prevFrame, hframes]
    refine ⟨by rw [ht.passing.handed.indices, hframes], ht.passing.handed.first,
      ht.passing.handed.chain, ?_⟩
    rw [hprev]
    exact ht.passing.handed.last
  obtain ⟨handed, r', h', K', ps', hretry, ht'⟩ :=
    Passing.retryStashedFrames (i :: delivered)
      ⟨hc₂, hnear₁, hnot, by rw [hunwrapper]; exact hout⟩ (by
      rw [hstash]
      intro y hy
      exact (ht.waiting y hy).mono (hstay y hy) hh₁ hK₁) (by
      rw [hstash]
      exact ht.nodup) (by
      intro j
      rw [hstash, mem_cons, ht.delivered, mem_filter, decide_eq_true_eq, hmem]
      constructor
      · intro hj
        by_cases hlt : j < h₁
        · exact .inl hlt
        · rcases hj with rfl | hj | hj | hj
          · exact .inr (.inl ⟨.inl rfl, by omega⟩)
          · omega
          · exact .inr (.inl ⟨.inr hj, by omega⟩)
          · exact .inr (.inr hj)
      · rintro (hj | ⟨rfl | hj, -⟩ | hj)
        · by_cases hlt : j < h
          · exact .inr (.inl hlt)
          · rcases (hmem j).mp (hpassed j (by omega) hj) with rfl | hin
            · exact .inl rfl
            · exact .inr (.inr (.inl hin))
        · exact .inl rfl
        · exact .inr (.inr (.inl hj))
        · exact .inr (.inr (.inr hj)))
  refine ⟨handed, r', h', K', ps', ?_, ht'⟩
  rw [RefFinder.paddingReceived, hc.lowerBound_padding hmono hnear]
  have hinsert : insertOrdered id r.stashedPadding (num (s.firstNum i)) =
      (ps.orderedInsert (· ≤ ·) i).map fun i => num (s.firstNum i) := by
    rw [hc.padding]
    exact insertOrdered_eq (f := fun i => num (s.firstNum i)) hfresh
      (hc.aheadOf_stashed hcount hnear hhi)
  simp only [hinsert]
  exact hretry

theorem create_manage_key (s : PacketStream) :
    ∃ handed r' h' K' ps', create.manageFrame (s.frameOf 0) = some (handed, r') ∧
      Tracked s [0] h' K' ps' handed r' := by
  have hcount : 0 < s.count := Nat.succ_pos _
  have hsucc : s.lastNum 0 + 1 = s.firstNum 1 := lastNum_add_one hcount
  have hahead : aheadOf (num (s.lastNum 0)) (num (s.lastNum 0)) = false := by
    rw [aheadOf_num (by omega) (by omega)]
    exact decide_eq_false (by omega)
  have hcheck : aheadOrAt (num (s.lastNum 0)) (num (s.lastNum 0)) = true := by
    rw [aheadOrAt_num (by omega) (by omega)]
    exact decide_eq_true le_rfl
  have hvalue : ((num (s.lastNum 0)).toNat : Int) =
      s.lastNum 0 + -(2 ^ 16 * ((s.lastNum 0 / 2 ^ 16 : Nat) : Int)) := by
    rw [num, wrap_toNat]
    push_cast
    omega
  generalize hg : (⟨num (s.lastNum 0), num (s.lastNum 0), num (s.lastNum 0)⟩ : Gop) = g
  generalize hu : ((SeqNumUnwrapper.pristine (w := 16)).unwrap (num (s.lastNum 0))).2 = u
  have hulast : u.lastUnwrapped = (num (s.lastNum 0)).toNat := by rw [← hu]; rfl
  have huvalue : u.lastValue ≠ none := by rw [← hu]; simp
  have hpeek : u.peekUnwrap (num (s.lastNum 0)) = (num (s.lastNum 0)).toNat := by
    have hwrap : num (s.lastNum 0) = wrap 16 ((num (s.lastNum 0)).toNat : Int) := by
      simp [wrap]
    conv_lhs => rw [hwrap]
    exact SeqNumUnwrapper.peekUnwrap_wrap (by decide) _ huvalue (by rw [hulast]; simp)
  have hc : Core s 1 (s.lastNum 0) [] ⟨[g], [], [], u⟩ := by
    refine ⟨by omega, hcount, ?_, by omega, rfl, List.Pairwise.nil, by simp⟩
    rw [← hg, prevFrame_succ s.isFrame_zero, ← hsucc, Nat.add_sub_cancel]
  obtain ⟨h₁, K₁, hh₁, hK₁, hpassed, hnot, hnear₁, hc₁, hstash, hunwrapper⟩ :=
    hc.update (t := s.lastNum 0) le_rfl (by omega) (.inl hsucc)
  have hone : h₁ = 1 := by
    by_contra hne
    cases hpassed 1 le_rfl (by omega)
  subst hone
  generalize hr₁ : RefFinder.updateLastPictureIdWithPadding _ _ = r₁ at hc₁ hstash hunwrapper
  have hinternal : create.manageFrameInternal (s.frameOf 0) =
      some (.handOff ⟨0, (num (s.lastNum 0)).toNat, []⟩,
        { r₁ with unwrapper := (u.unwrap (num (s.lastNum 0))).2 }) := by
    have hupper : upperBound Gop.key [g] (num (s.lastNum 0)) = ([g], []) := by
      rw [← hg]
      simp [upperBound, List.span, List.span.loop, hahead]
    have hoff : handOff ⟨[g], [], [], .pristine⟩ (s.frameOf 0) [] [] g =
        some (.handOff ⟨0, (num (s.lastNum 0)).toNat, []⟩,
          { r₁ with unwrapper := (u.unwrap (num (s.lastNum 0))).2 }) := by
      subst hg
      simp [handOff, frameOf, hcheck, hahead, hu, hr₁, hunwrapper, hpeek]
    simpa [manageFrameInternal, create, frameOf, hg, cleanGops_singleton, hupper] using hoff
  have hhanded : Handed s 1 [⟨0, (num (s.lastNum 0)).toNat, []⟩]
      (u.unwrap (num (s.lastNum 0))).2 := by
    refine ⟨rfl, ?_, isChain_singleton _, -(2 ^ 16 * ((s.lastNum 0 / 2 ^ 16 : Nat) : Int)), _,
      (dvd_mul_right _ _).neg_right, rfl, ?_, hpeek, by simp⟩
    · intro x hx
      cases hx
      rfl
    · rw [prevFrame_succ s.isFrame_zero]
      exact hvalue
  have hpassing : Passing s 1 K₁ [] [⟨0, (num (s.lastNum 0)).toNat, []⟩]
      { r₁ with unwrapper := (u.unwrap (num (s.lastNum 0))).2 } :=
    ⟨⟨hc₁.pos, hc₁.le, hc₁.gops, hc₁.key, hc₁.padding, hc₁.sorted, by simp⟩, hnear₁,
      not_mem_nil, hhanded⟩
  obtain ⟨handed, r', h', K', ps', hretry, ht'⟩ :=
    hpassing.retryStashedFrames [0] (by
      rw [hstash]
      simp) (by
      rw [hstash]
      exact nodup_nil) (by
      intro j
      rw [hstash]
      simp)
  refine ⟨_, r', h', K', ps', ?_, ht'⟩
  rw [manageFrame, hinternal]
  simp only [Option.bind_eq_bind, Option.bind_some]
  rw [hretry]
  rfl

end RefFinder

structure RefRun where
  finder : RefFinder
  delivered : List Nat
  output : List HandedFrame

namespace RefRun

variable {s : PacketStream} {r : RefRun} {i : Nat}

def create : RefRun := ⟨.create, [], []⟩

def deliver (s : PacketStream) (r : RefRun) (i : Nat) : Option RefRun := do
  let (handed, finder) ← if s.isFrame i then r.finder.manageFrame (s.frameOf i)
    else r.finder.paddingReceived (num (s.firstNum i))
  return ⟨finder, i :: r.delivered, r.output ++ handed⟩

def missing (s : PacketStream) (r : RefRun) : Nat :=
  ((List.range s.count).find? (· ∉ r.delivered)).getD s.count

/-- An item other than the key frame arrives at most 99 items, or packets if it is padding, before its
turn. The packets of a frame lie within half the sequence numbers from the first missing packet, from
the end of the frame before it and from the key of the group of pictures; and padding that is not the
next item does not move the key. -/
def Smooth (s : PacketStream) (r : RefRun) (i : Nat) : Prop :=
  i = 0 ∨
    if s.isFrame i then
      i < r.missing s + 100 ∧ s.lastNum i < s.firstNum (r.missing s) + 2 ^ 15 ∧
        s.lastNum i < s.lastNum (s.prevFrame i) + 2 ^ 15 ∧
        ∀ g ∈ r.finder.lastSeqNumGop, (forwardDiff g.key (num (s.lastNum i))).toNat < 2 ^ 15
    else
      s.firstNum i < s.firstNum (r.missing s) + 100 ∧
        (i = r.missing s ∨
          ∀ g ∈ r.finder.lastSeqNumGop, (forwardDiff g.key (num (s.firstNum i))).toNat ≤ 10000)

end RefRun

def refMachine (s : PacketStream) : Machine RefRun Nat where
  initial r := r = .create
  enabled r i := i < s.count ∧ i ∉ r.delivered ∧ (i = 0 ∨ 0 ∈ r.delivered)
  step := RefRun.deliver s

namespace RefRun

variable {s : PacketStream} {r : RefRun} {i : Nat}

def Good (s : PacketStream) (r : RefRun) : Prop :=
  r = .create ∨ ∃ h K ps, RefFinder.Tracked s r.delivered h K ps r.output r.finder

theorem missing_eq {h K : Nat} {ps : List Nat}
    (ht : RefFinder.Tracked s r.delivered h K ps r.output r.finder) : r.missing s = h := by
  have hle := ht.passing.core.le
  have hnot : h ∉ r.delivered := by
    rw [ht.delivered]
    rintro (hlt | hmem | hmem)
    · omega
    · exact ht.passing.next hmem
    · exact ht.next hmem
  have hbefore : ∀ j < h, j ∈ r.delivered := fun j hj => (ht.delivered j).mpr (.inl hj)
  rcases hle.lt_or_eq with hlt | heq
  · have hfind : (List.range s.count).find? (· ∉ r.delivered) = some h := by
      rw [List.find?_range_eq_some]
      exact ⟨by simpa using hnot, mem_range.mpr hlt, fun j hj => by simpa using hbefore j hj⟩
    rw [missing, hfind, Option.getD_some]
  · have hfind : (List.range s.count).find? (· ∉ r.delivered) = none := by
      rw [List.find?_eq_none]
      intro j hj
      simpa using hbefore j (heq ▸ mem_range.mp hj)
    rw [missing, hfind, Option.getD_none, heq]

theorem Good.deliver (hg : Good s r) (he : (refMachine s).enabled r i) (hs : r.Smooth s i) :
    Ensures (r.deliver s i) (Good s) := by
  obtain ⟨hcount, hfresh, hfirst⟩ := he
  rcases hg with rfl | ⟨h, K, ps, ht⟩
  · have hzero : i = 0 := hfirst.resolve_right not_mem_nil
    subst hzero
    obtain ⟨handed, r', h', K', ps', hmanage, ht'⟩ := RefFinder.create_manage_key s
    refine ⟨⟨r', [0], handed⟩, ?_, .inr ⟨h', K', ps', ht'⟩⟩
    rw [RefRun.deliver, if_pos s.isFrame_zero]
    show (RefFinder.create.manageFrame (s.frameOf 0) >>= _) = _
    rw [hmanage]
    rfl
  · have hpos := ht.passing.core.pos
    have hkey := ht.passing.core.key
    have hnear := ht.passing.near
    have hhi := ht.le_of_not_mem hfresh
    have hmono := firstNum_mono (s := s) hhi
    have hlast := firstNum_le_lastNum hcount
    have hs := hs.resolve_left (show i ≠ 0 by omega)
    rw [missing_eq ht, ht.passing.core.gops] at hs
    simp only [mem_singleton, forall_eq] at hs
    unfold RefFinder.Near at hnear
    by_cases hframe : s.isFrame i = true
    · rw [if_pos hframe] at hs
      obtain ⟨hitems, hpackets, hgap, hdiff⟩ := hs
      rw [forwardDiff_num (by omega) (by omega)] at hdiff
      have hw : RefFinder.Waiting s h K (s.frameOf i) :=
        ⟨rfl, hhi, hcount, hframe, hitems, show s.lastNum i < _ by omega, hgap⟩
      rcases hhi.lt_or_eq with hlt | rfl
      · obtain ⟨r', hmanage, ht'⟩ := ht.manage_later hfresh hw hlt
        refine ⟨⟨r', i :: r.delivered, r.output ++ []⟩, ?_, .inr ⟨h, K, ps, ?_⟩⟩
        · rw [RefRun.deliver, if_pos hframe, hmanage]
          rfl
        · rw [append_nil]
          exact ht'
      · obtain ⟨handed, r', h', K', ps', hmanage, ht'⟩ := ht.manage_next hw
        refine ⟨⟨r', h :: r.delivered, r.output ++ handed⟩, ?_, .inr ⟨h', K', ps', ht'⟩⟩
        rw [RefRun.deliver, if_pos hframe, hmanage]
        rfl
    · rw [if_neg hframe] at hs
      obtain ⟨hpackets, hmove⟩ := hs
      rw [forwardDiff_num (by omega) (by omega)] at hmove
      obtain ⟨handed, r', h', K', ps', hreceived, ht'⟩ :=
        ht.paddingReceived hfresh hcount (Bool.eq_false_iff.mpr hframe) hpackets
          (hmove.imp_right fun hle => by omega)
      refine ⟨⟨r', i :: r.delivered, r.output ++ handed⟩, ?_, .inr ⟨h', K', ps', ht'⟩⟩
      rw [RefRun.deliver, if_neg hframe, hreceived]
      rfl

structure Complete (s : PacketStream) (r : RefRun) : Prop where
  handed : r.output.map HandedFrame.index = s.frames s.count
  first : ∀ x, r.output.head? = some x → x.references = []
  chain : r.output.IsChain fun a b => b.references = [a.id]
  stashed : r.finder.stashedFrames = []

theorem Good.complete (hg : Good s r) (hall : ∀ i < s.count, i ∈ r.delivered) : Complete s r := by
  rcases hg with rfl | ⟨h, K, ps, ht⟩
  · exact absurd (hall 0 (Nat.succ_pos _)) not_mem_nil
  · have hcount : h = s.count := by
      rw [← missing_eq ht, missing, List.find?_eq_none.mpr, Option.getD_none]
      intro j hj
      simpa using hall j (mem_range.mp hj)
    subst hcount
    refine ⟨ht.passing.handed.indices, ht.passing.handed.first, ht.passing.handed.chain, ?_⟩
    apply eq_nil_iff_forall_not_mem.mpr
    intro x hx
    have hw := ht.waiting x hx
    exact absurd hw.lt (Nat.not_lt.mpr hw.le)

end RefRun

/-- In a run whose deliveries are all smooth no check fails, and when everything has arrived every
frame was handed off. -/
theorem refFinder_complete (s : PacketStream) {r : RefRun}
    (h : ((refMachine s).restrict (RefRun.Smooth s)).Reachable r) :
    (∀ i, (refMachine s).enabled r i → r.Smooth s i → (r.deliver s i).isSome) ∧
      ((∀ i < s.count, i ∈ r.delivered) → r.Complete s) := by
  obtain ⟨hg, hstep⟩ := h.invariant (I := RefRun.Good s) (fun r hr => .inl hr)
    fun r i hg (he : _ ∧ _) => hg.deliver he.1 he.2
  refine ⟨fun i he hs => ?_, hg.complete⟩
  obtain ⟨r', hr', -⟩ := hg.deliver he hs
  rw [hr']
  rfl

instance (s : PacketStream) (r : RefRun) (i : Nat) : Decidable (r.Smooth s i) := by
  unfold RefRun.Smooth
  infer_instance

instance (s : PacketStream) (r : RefRun) (i : Nat) : Decidable ((refMachine s).enabled r i) :=
  inferInstanceAs (Decidable (i < s.count ∧ i ∉ r.delivered ∧ (i = 0 ∨ 0 ∈ r.delivered)))

instance (s : PacketStream) (r : RefRun) (i : Nat) :
    Decidable (((refMachine s).restrict (RefRun.Smooth s)).enabled r i) :=
  inferInstanceAs (Decidable ((refMachine s).enabled r i ∧ r.Smooth s i))

theorem refFinder_complete_reordered :
    ∃ r, ((refMachine ⟨65534, 0, [.frame 0, .padding, .frame 0]⟩).restrict
        (RefRun.Smooth ⟨65534, 0, [.frame 0, .padding, .frame 0]⟩)).Reachable r ∧
      r.delivered = [1, 3, 2, 0] ∧ r.Complete ⟨65534, 0, [.frame 0, .padding, .frame 0]⟩ := by
  have hrun : (((refMachine ⟨65534, 0, [.frame 0, .padding, .frame 0]⟩).restrict
      (RefRun.Smooth ⟨65534, 0, [.frame 0, .padding, .frame 0]⟩)).run .create [0, 2, 3, 1]).any
      (fun r => decide (r.delivered = [1, 3, 2, 0])) = true := by
    decide +kernel
  obtain ⟨r, hr, hdelivered⟩ := Option.any_eq_true .. |>.mp hrun
  have hreach := Machine.Reachable.run (.initial rfl) hr
  have hdelivered := of_decide_eq_true hdelivered
  refine ⟨r, hreach, hdelivered, (refFinder_complete _ hreach).2 ?_⟩
  rw [hdelivered]
  decide

/-- The padding at 10002 arrives one place before its turn and moves the key of the group of pictures
past the frame at 10001, which is then dropped. -/
theorem refFinder_drops_frame :
    ∃ (s : PacketStream) (r : RefRun), (refMachine s).Reachable r ∧ s.count = 4 ∧
      r.delivered = [2, 3, 1, 0] ∧ ¬r.Complete s := by
  have hrun : ((refMachine ⟨0, 0, [.frame 9999, .frame 0, .padding]⟩).run .create [0, 1, 3, 2]).any
      (fun r => decide (r.delivered = [2, 3, 1, 0] ∧ r.output.map HandedFrame.index = [0, 1])) =
      true := by
    decide +kernel
  obtain ⟨r, hr, hend⟩ := Option.any_eq_true .. |>.mp hrun
  obtain ⟨hdelivered, houtput⟩ := of_decide_eq_true hend
  refine ⟨_, r, Machine.Reachable.run (.initial rfl) hr, rfl, hdelivered, ?_⟩
  intro hcomplete
  have hhanded := hcomplete.handed
  rw [houtput] at hhanded
  revert hhanded
  decide

end WebRtc.Video
