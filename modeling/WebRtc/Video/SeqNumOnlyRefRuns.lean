import WebRtc.Video.SeqNumStream

/-! The frames of a stream that arrive out of order are handed off in its order, with the frame before
each as its reference. -/

namespace WebRtc.Video

open PacketStream List Option

namespace RefFinder

variable {s : PacketStream} {h K : Nat} {ps : List Nat} {r r' : RefFinder}

/-- The items before `h` are passed, the padding packets `ps` are stashed, and the group of pictures
has a key that is not past the passed items. -/
structure Core (s : PacketStream) (h K : Nat) (ps : List Nat) (r : RefFinder) : Prop where
  pos : 0 < h
  le : h ≤ s.count
  gops : r.lastSeqNumGop =
    [⟨num K, num (s.lastNum (s.prevFrame h)), num (s.firstNum h - 1)⟩]
  key : K < s.firstNum h
  padding : r.stashedPadding = ps.map fun i => num (s.firstNum i)
  sorted : ps.Pairwise (· < ·)
  waiting : ∀ i ∈ ps, h ≤ i ∧ i < s.count ∧ s.isFrame i = false ∧ s.firstNum i < s.firstNum h + 100

theorem Core.num_next (hc : Core s h K ps r) : num (s.firstNum h - 1) + 1 = num (s.firstNum h) := by
  have hkey := hc.key
  rw [← num_succ, Nat.sub_add_cancel (by omega)]

theorem takePadding_eq (hle : h ≤ s.count) (hpos : 0 < s.firstNum h) (hsorted : ps.Pairwise (· < ·))
    (hwaiting : ∀ i ∈ ps, h ≤ i ∧ i < s.count ∧ s.isFrame i = false ∧
      s.firstNum i < s.firstNum h + 100) :
    ∃ h', h ≤ h' ∧ h' ≤ s.count ∧ (∀ i, h ≤ i → i < h' → i ∈ ps) ∧ h' ∉ ps ∧
      takePadding (num (s.firstNum h - 1)) (ps.map fun i => num (s.firstNum i)) =
        (num (s.firstNum h' - 1), (ps.filter (h' ≤ ·)).map fun i => num (s.firstNum i)) := by
  induction ps generalizing h with
  | nil => exact ⟨h, le_rfl, hle, fun i hi hi' => absurd hi' (by omega), not_mem_nil, rfl⟩
  | cons p ps ih =>
    obtain ⟨hp, hpcount, hpframe, hpnear⟩ := hwaiting p mem_cons_self
    obtain ⟨hfirst, hrest⟩ := pairwise_cons.mp hsorted
    have hnext : num (s.firstNum h - 1) + 1 = num (s.firstNum h) := by
      rw [← num_succ, Nat.sub_add_cancel hpos]
    rw [map_cons, takePadding, hnext]
    rcases hp.lt_or_eq with hlt | rfl
    · -- The next packet of the stream is not stashed.
      have hne := num_ne (firstNum_lt hlt (by omega)) (show s.firstNum p < _ by omega)
      refine ⟨h, le_rfl, hle, fun i hi hi' => absurd hi' (by omega), ?_, ?_⟩
      · intro hmem
        rcases mem_cons.mp hmem with rfl | hmem
        · omega
        · have := hfirst h hmem
          omega
      · rw [if_neg hne.symm]
        have hall : (p :: ps).filter (h ≤ ·) = p :: ps := by
          apply filter_eq_self.mpr
          intro i hi
          rw [decide_eq_true_eq]
          exact (hwaiting i hi).1
        rw [hall, map_cons]
    · have hstep := firstNum_padding hpcount hpframe
      obtain ⟨h', hle', hcount', hpassed, hnot, htake⟩ := ih (show h + 1 ≤ s.count by omega)
        (by omega) hrest (by
          intro i hi
          obtain ⟨-, hicount, hiframe, hinear⟩ := hwaiting i (mem_cons_of_mem h hi)
          exact ⟨hfirst i hi, hicount, hiframe, by omega⟩)
      refine ⟨h', by omega, hcount', ?_, ?_, ?_⟩
      · intro i hi hi'
        rcases hi.lt_or_eq with hlt | rfl
        · exact mem_cons_of_mem h (hpassed i hlt hi')
        · exact mem_cons_self
      · intro hmem
        rcases mem_cons.mp hmem with rfl | hmem
        · omega
        · exact hnot hmem
      · rw [if_pos rfl]
        have hcur : s.firstNum (h + 1) - 1 = s.firstNum h := by omega
        rw [hcur] at htake
        rw [htake, filter_cons_of_neg (by simpa using hle')]

def Near (s : PacketStream) (h K : Nat) : Prop := s.firstNum h ≤ K + 10101

theorem Core.update (hc : Core s h K ps r) {t : Nat} (ht : K ≤ t) (ht' : t < K + 2 ^ 15)
    (hpast : t + 1 = s.firstNum h ∨ t = s.firstNum h ∧ h ∈ ps ∨
      t ≤ K + 10000 ∧ h ∉ ps ∧ Near s h K) :
    ∃ h' K', h ≤ h' ∧ K ≤ K' ∧ (∀ i, h ≤ i → i < h' → i ∈ ps) ∧
      h' ∉ ps.filter (h' ≤ ·) ∧ Near s h' K' ∧
      Core s h' K' (ps.filter (h' ≤ ·)) (r.updateLastPictureIdWithPadding (num t)) ∧
      (r.updateLastPictureIdWithPadding (num t)).stashedFrames = r.stashedFrames ∧
      (r.updateLastPictureIdWithPadding (num t)).unwrapper = r.unwrapper := by
  have hkey := hc.key
  obtain ⟨h', hle, hcount, hpassed, hnot, htake⟩ :=
    takePadding_eq hc.le (by omega) hc.sorted hc.waiting
  have hframes : s.frames h' = s.frames h :=
    frames_of_padding hle fun i hi hi' => (hc.waiting i (hpassed i hi hi')).2.2.1
  have hprev : s.prevFrame h' = s.prevFrame h := by rw [prevFrame, prevFrame, hframes]
  have hmono := firstNum_mono (s := s) hle
  -- The passed padding is less than a hundred packets.
  have hspan : s.firstNum h' ≤ s.firstNum h + 100 := by
    rcases hle.lt_or_eq with hlt | rfl
    · obtain ⟨-, hicount, hiframe, hinear⟩ := hc.waiting (h' - 1) (hpassed (h' - 1) (by omega) (by omega))
      have hstep := firstNum_padding hicount hiframe
      rw [Nat.sub_add_cancel (by omega)] at hstep
      omega
    · omega
  have hupper : upperBound Gop.key r.lastSeqNumGop (num t) =
      ([⟨num K, num (s.lastNum (s.prevFrame h)), num (s.firstNum h - 1)⟩], []) := by
    rw [hc.gops, upperBound]
    have hahead : aheadOf (num K) (num t) = false := by
      rw [aheadOf_num (by omega) ht']
      exact decide_eq_false (by omega)
    simp [List.span, List.span.loop, hahead]
  have hlower : lowerBound id r.stashedPadding (num (s.firstNum h - 1) + 1) =
      ([], r.stashedPadding) := by
    rw [hc.num_next, hc.padding, lowerBound]
    cases hps : ps with
    | nil => rfl
    | cons p ps' =>
      obtain ⟨hp, hpcount, -, hpnear⟩ := hc.waiting p (by rw [hps]; exact mem_cons_self)
      have hpmono := firstNum_mono (s := s) hp
      have hahead : aheadOf (num (s.firstNum h)) (num (s.firstNum p)) = false := by
        rw [aheadOf_num (by omega) (by omega)]
        exact decide_eq_false (by omega)
      simp [List.span, List.span.loop, hahead]
  have hdiff := forwardDiff_num ht (show t < K + 2 ^ 16 by omega)
  have hlater : K < t → 10000 < t - K → t < s.firstNum h' := by
    intro hKt hfar
    rcases hpast with hlast | ⟨rfl, hmem⟩ | ⟨hnear, -⟩
    · omega
    · have hne : h ≠ h' := fun heq => hnot (heq ▸ hmem)
      exact firstNum_lt (by omega) hcount
    · omega
  have hnear : ∀ K', K' = (if t - K > 10000 then t else K) → Near s h' K' := by
    intro K' hK'
    unfold Near at hpast ⊢
    rcases hpast with hlast | ⟨rfl, hmem⟩ | ⟨hnear, hmem, hbase⟩
    · split_ifs at hK' <;> omega
    · split_ifs at hK' <;> omega
    · have hsame : h' = h := by
        by_contra hne
        exact hmem (hpassed h le_rfl (by omega))
      rw [hsame]
      split_ifs at hK' <;> omega
  have hresult : r.updateLastPictureIdWithPadding (num t) = { r with
      stashedPadding := (ps.filter (h' ≤ ·)).map fun i => num (s.firstNum i)
      lastSeqNumGop := [⟨num (if t - K > 10000 then t else K), num (s.lastNum (s.prevFrame h)),
        num (s.firstNum h' - 1)⟩] } := by
    rw [hc.padding] at hlower
    unfold updateLastPictureIdWithPadding
    simp only [hupper, List.getLast?_singleton, hlower, hc.padding, htake, hdiff, nil_append,
      dropLast_singleton]
    split_ifs <;> rfl
  rw [hresult]
  refine ⟨h', if t - K > 10000 then t else K, hle, ?_, hpassed, ?_, hnear _ rfl, ?_, rfl, rfl⟩
  · split_ifs <;> omega
  · intro hmem
    exact hnot (mem_filter.mp hmem).1
  · have hpos := hc.pos
    refine ⟨by omega, hcount, by rw [hprev], ?_, rfl, hc.sorted.filter _, ?_⟩
    · split_ifs with hfar
      · exact hlater (by omega) hfar
      · omega
    · intro i hi
      obtain ⟨hmem, hge⟩ := mem_filter.mp hi
      obtain ⟨-, hicount, hiframe, hinear⟩ := hc.waiting i hmem
      exact ⟨of_decide_eq_true hge, hicount, hiframe, by omega⟩

structure Handed (s : PacketStream) (h : Nat) (out : List HandedFrame) (u : SeqNumUnwrapper 16) :
    Prop where
  indices : out.map HandedFrame.index = s.frames h
  first : ∀ x, out.head? = some x → x.references = []
  chain : out.IsChain fun a b => b.references = [a.id]
  last : ∃ (c : Int) (x : HandedFrame), (2 ^ 16 : Int) ∣ c ∧ out.getLast? = some x ∧
    x.id = s.lastNum (s.prevFrame h) + c ∧ u.lastUnwrapped = x.id ∧ u.lastValue ≠ none

theorem wrap_add_of_dvd {c : Int} (hc : (2 ^ 16 : Int) ∣ c) (t : Int) : wrap 16
    (t + c) = wrap 16 t := by
  rw [wrap_eq_iff]
  obtain ⟨k, rfl⟩ := hc
  exact Int.add_mul_emod_self_left ..

theorem cleanGops_singleton (g : Gop) (x : BitVec 16) : cleanGops [g] x = [g] := by
  rw [cleanGops, length_singleton, Nat.sub_self, Nat.min_zero, drop_zero]

theorem manage_delta {g : Gop} {frame : SeqFrame} (hgops : r.lastSeqNumGop = [g])
    (hdelta : frame.isKey = false) (hgroup : aheadOf g.key frame.lastSeqNum = false) :
    r.manageFrameInternal frame = if frame.firstSeqNum - 1 ≠ g.withPadding then some (.stash, r)
      else r.handOff frame [] [] g := by
  obtain ⟨gops, padding, stashed, u⟩ := r
  cases hgops
  simp [manageFrameInternal, hdelta, cleanGops_singleton, upperBound, List.span, List.span.loop, hgroup]

def advanced (r : RefFinder) (g : Gop) (last : BitVec 16) : RefFinder :=
  updateLastPictureIdWithPadding { r with
    unwrapper := (r.unwrapper.unwrap g.lastId).2
    lastSeqNumGop := [⟨g.key, last, last⟩] } last

theorem handOff_delta {g : Gop} {frame : SeqFrame} (hdelta : frame.isKey = false)
    (hcheck : aheadOrAt frame.lastSeqNum g.key = true)
    (hahead : aheadOf frame.lastSeqNum g.lastId = true) :
    r.handOff frame [] [] g = some (.handOff ⟨frame.index,
        (r.advanced g frame.lastSeqNum).unwrapper.peekUnwrap frame.lastSeqNum,
        [r.unwrapper.peekUnwrap g.lastId]⟩,
      { r.advanced g frame.lastSeqNum with
        unwrapper := ((r.advanced g frame.lastSeqNum).unwrapper.unwrap frame.lastSeqNum).2 }) := by
  simp [handOff, hdelta, hcheck, hahead, advanced]

theorem num_sub_one {t : Nat} (ht : 0 < t) : num t - 1 = num (t - 1) := by
  rw [eq_comm, BitVec.eq_sub_iff_add_eq, ← num_succ, Nat.sub_add_cancel ht]

theorem Core.not_before (hc : Core s h K ps r) {t : Nat} (ht : s.firstNum h ≤ t + 1)
    (ht' : t < K + 2 ^ 15) : aheadOf (num K) (num t) = false := by
  have hkey := hc.key
  rw [aheadOf_num (by omega) ht']
  exact decide_eq_false (by omega)

theorem Core.manage_later (hc : Core s h K ps r) {i : Nat} (hi : h < i) (hcount : i < s.count)
    (hlast : s.lastNum i < K + 2 ^ 15) :
    r.manageFrameInternal (s.frameOf i) = some (.stash, r) := by
  have hlt := firstNum_lt hi hcount.le
  have hle := firstNum_le_lastNum hcount
  have hkey := hc.key
  have hne : num (s.firstNum i) - 1 ≠ num (s.firstNum h - 1) := by
    rw [num_sub_one (by omega)]
    exact (num_ne (by omega) (by omega)).symm
  have hdelta : (s.frameOf i).isKey = false := decide_eq_false (by omega)
  rw [manage_delta hc.gops hdelta (hc.not_before (by omega) hlast)]
  exact if_pos hne

variable {out : List HandedFrame}

theorem Core.manage_next (hc : Core s h K ps r)
    (hout : Handed s h out r.unwrapper) (hcount : h < s.count) (hframe : s.isFrame h = true)
    (hlast : s.lastNum h < K + 2 ^ 15) (hgap : s.lastNum h < s.lastNum (s.prevFrame h) + 2 ^ 15) :
    ∃ x r' h' K', r.manageFrameInternal (s.frameOf h) = some (.handOff x, r') ∧ h < h' ∧ K ≤ K' ∧
      (∀ i, h < i → i < h' → i ∈ ps) ∧ h' ∉ ps.filter (h' ≤ ·) ∧ Near s h' K' ∧
      Core s h' K' (ps.filter (h' ≤ ·)) r' ∧ r'.stashedFrames = r.stashedFrames ∧
      Handed s h' (out ++ [x]) r'.unwrapper := by
  have hkey := hc.key
  have hpos := hc.pos
  have hzero : h ≠ 0 := by omega
  have hle := firstNum_le_lastNum hcount
  have hsucc := lastNum_add_one hcount
  have hprevlt := prevFrame_lt (s := s) hpos
  have hprevlast : s.lastNum (s.prevFrame h) < s.firstNum h := by
    have hadd := lastNum_add_one (s := s) (show s.prevFrame h < s.count by omega)
    have hmono := firstNum_mono (s := s) (show s.prevFrame h + 1 ≤ h by omega)
    omega
  have hdelta : (s.frameOf h).isKey = false := decide_eq_false hzero
  have hcheck : aheadOrAt (num (s.lastNum h)) (num K) = true := by
    rw [aheadOrAt_num hlast (by omega)]
    exact decide_eq_true (by omega)
  have hahead : aheadOf (num (s.lastNum h)) (num (s.lastNum (s.prevFrame h))) = true := by
    rw [aheadOf_num hgap (by omega)]
    exact decide_eq_true (by omega)
  obtain ⟨c, y, hdvd, hy, hyid, hunwrapped, hvalue⟩ := hout.last
  -- The unwrapper stands at the frame before, which is the reference.
  have hreference : r.unwrapper.peekUnwrap (num (s.lastNum (s.prevFrame h))) = y.id := by
    rw [num, ← wrap_add_of_dvd hdvd, ← hyid]
    exact SeqNumUnwrapper.peekUnwrap_wrap (by decide) _ hvalue (by rw [hunwrapped]; simp)
  generalize hu : (r.unwrapper.unwrap (num (s.lastNum (s.prevFrame h)))).2 = u
  have hulast : u.lastUnwrapped = y.id := by rw [← hu]; exact hreference
  have huvalue : u.lastValue ≠ none := by rw [← hu]; simp
  have hid : u.peekUnwrap (num (s.lastNum h)) = s.lastNum h + c := by
    rw [num, ← wrap_add_of_dvd hdvd]
    refine SeqNumUnwrapper.peekUnwrap_wrap (by decide) u huvalue ?_
    rw [hulast, hyid, abs_lt]
    omega
  generalize hr₁ : ({ r with
    unwrapper := u
    lastSeqNumGop := [⟨num K, num (s.lastNum h), num (s.lastNum h)⟩] } : RefFinder) = r₁
  have hc₁ : Core s (h + 1) K ps r₁ := by
    rw [← hr₁]
    refine ⟨by omega, hcount, ?_, by omega, hc.padding, hc.sorted, ?_⟩
    · show [_] = [_]
      rw [prevFrame_succ hframe, ← hsucc, Nat.add_sub_cancel]
    · intro i hi
      obtain ⟨hge, hicount, hiframe, hinear⟩ := hc.waiting i hi
      have hne : i ≠ h := by
        rintro rfl
        rw [hframe] at hiframe
        cases hiframe
      exact ⟨by omega, hicount, hiframe, by omega⟩
  obtain ⟨h', K', hh', hK', hpassed, hnot, hnear, hc', hstash, hunwrapper⟩ :=
    hc₁.update (show K ≤ s.lastNum h by omega) hlast (.inl hsucc)
  have hstash₁ : r₁.stashedFrames = r.stashedFrames := by rw [← hr₁]
  have hunwrapper₁ : r₁.unwrapper = u := by rw [← hr₁]
  generalize hr₂ : r₁.updateLastPictureIdWithPadding (num (s.lastNum h)) = r₂ at hc' hstash hunwrapper
  rw [hunwrapper₁] at hunwrapper
  refine ⟨⟨h, s.lastNum h + c, [y.id]⟩, { r₂ with unwrapper := (u.unwrap (num (s.lastNum h))).2 },
    h', K', ?_, by omega, hK', fun i hi hi' => hpassed i hi hi', hnot, hnear, ?_, ?_, ?_⟩
  · have hmatch : ¬(s.frameOf h).firstSeqNum - 1 ≠ num (s.firstNum h - 1) :=
      not_not.mpr (num_sub_one (by omega))
    have hadvanced : r.advanced ⟨num K, num (s.lastNum (s.prevFrame h)), num (s.firstNum h - 1)⟩
        (num (s.lastNum h)) = r₂ := by
      rw [advanced, hu, hr₁, hr₂]
    rw [manage_delta hc.gops hdelta (hc.not_before (by omega) hlast), if_neg hmatch,
      handOff_delta (g := ⟨num K, num (s.lastNum (s.prevFrame h)), num (s.firstNum h - 1)⟩) hdelta
        hcheck hahead]
    rw [show (s.frameOf h).lastSeqNum = num (s.lastNum h) from rfl]
    simp only [hadvanced, hunwrapper, hreference, hid]
    rfl
  · exact ⟨hc'.pos, hc'.le, hc'.gops, hc'.key, hc'.padding, hc'.sorted, hc'.waiting⟩
  · exact hstash.trans hstash₁
  · have hframes : s.frames h' = s.frames h ++ [h] := by
      rw [frames_of_padding hh' fun i hi hi' => (hc.waiting i (hpassed i hi hi')).2.2.1, frames_succ,
        if_pos hframe]
    have hprev' : s.prevFrame h' = h := by
      rw [prevFrame, hframes]
      simp
    refine ⟨?_, ?_, ?_, c, ⟨h, s.lastNum h + c, [y.id]⟩, hdvd, by simp, ?_, ?_, by simp⟩
    · rw [map_append, hout.indices, hframes]
      rfl
    · intro x hx
      cases out with
      | nil => cases hy
      | cons z out => exact hout.first x hx
    · rw [isChain_append]
      refine ⟨hout.chain, isChain_singleton _, ?_⟩
      intro a ha b hb
      rw [hy] at ha
      cases ha
      cases hb
      rfl
    · rw [hprev']
    · exact hid

structure Waiting (s : PacketStream) (h K : Nat) (frame : SeqFrame) : Prop where
  eq : frame = s.frameOf frame.index
  le : h ≤ frame.index
  lt : frame.index < s.count
  isFrame : s.isFrame frame.index = true
  near : frame.index < h + 100
  last : s.lastNum frame.index < K + 2 ^ 15
  gap : s.lastNum frame.index < s.lastNum (s.prevFrame frame.index) + 2 ^ 15

theorem Waiting.mono {h' K' : Nat} {frame : SeqFrame} (hw : Waiting s h K frame)
    (hh : h' ≤ frame.index) (hle : h ≤ h') (hK : K ≤ K') : Waiting s h' K' frame := by
  have hnear := hw.near
  have hlast := hw.last
  exact ⟨hw.eq, hh, hw.lt, hw.isFrame, by omega, by omega, hw.gap⟩

/-- What the passes over the stashed frames keep: the items before `h` are passed, and the next one is
no stashed padding. -/
structure Passing (s : PacketStream) (h K : Nat) (ps : List Nat) (out : List HandedFrame)
    (r : RefFinder) : Prop where
  core : Core s h K ps r
  near : Near s h K
  next : h ∉ ps
  handed : Handed s h out r.unwrapper

theorem filter_filter_le {α : Type} (f : α → Nat) (l : List α) {h₁ h₂ : Nat} (hle : h₁ ≤ h₂) :
    (l.filter (h₁ ≤ f ·)).filter (h₂ ≤ f ·) = l.filter (h₂ ≤ f ·) := by
  rw [List.filter_filter]
  apply List.filter_congr
  intro x _
  by_cases hx : h₂ ≤ f x
  · simp [hx, hle.trans hx]
  · simp [hx]

section

variable (hp : Passing s h K ps out r)
include hp

theorem Passing.retryPass {fs : List SeqFrame} (hwait : ∀ x ∈ fs, Waiting s h K x)
    (hnodup : (fs.map SeqFrame.index).Nodup) :
    ∃ handed kept r' h' K', RefFinder.retryPass fs r = some (handed, kept, r') ∧ h ≤ h' ∧ K ≤ K' ∧
      Passing s h' K' (ps.filter (h' ≤ ·)) (out ++ handed) r' ∧
      (∀ i, h ≤ i → i < h' → i ∈ ps ∨ i ∈ fs.map SeqFrame.index) ∧
      kept = fs.filter (h' ≤ ·.index) ∧ (handed = [] → h' = h ∧ h ∉ fs.map SeqFrame.index) ∧
      handed.length + kept.length = fs.length := by
  induction fs generalizing h K ps out r with
  | nil =>
    refine ⟨[], [], r, h, K, rfl, le_rfl, le_rfl, ?_, fun i hi hi' => absurd hi' (by omega), rfl,
      fun _ => ⟨rfl, not_mem_nil⟩, rfl⟩
    rw [append_nil, filter_eq_self.mpr fun i hi => decide_eq_true (hp.core.waiting i hi).1]
    exact hp
  | cons f fs ih =>
    have hf := hwait f mem_cons_self
    obtain ⟨hfresh, hnodup⟩ := nodup_cons.mp hnodup
    rcases hf.le.lt_or_eq with hlt | heq
    · -- The frame is not the next item and stays.
      obtain ⟨handed, kept, r', h', K', hpass, hh, hK, hp', hpassed, hkept, hnone, hlen⟩ :=
        ih hp (fun x hx => hwait x (mem_cons_of_mem f hx)) hnodup
      have hmanage := hp.core.manage_later hlt hf.lt hf.last
      rw [← hf.eq] at hmanage
      have hstays : h' ≤ f.index := by
        by_contra hpast
        rcases hpassed f.index hf.le (by omega) with hmem | hmem
        · have hframe := (hp.core.waiting f.index hmem).2.2.1
          rw [hf.isFrame] at hframe
          cases hframe
        · exact hfresh hmem
      refine ⟨handed, f :: kept, r', h', K', ?_, hh, hK, hp', ?_, ?_, ?_, ?_⟩
      · rw [RefFinder.retryPass, hmanage]
        simp only [bind_eq_bind, bind_some]
        rw [hpass]
        rfl
      · intro i hi hi'
        exact (hpassed i hi hi').imp_right (mem_cons_of_mem _)
      · rw [filter_cons_of_pos (by simpa using hstays), hkept]
      · intro hempty
        obtain ⟨hsame, hnot⟩ := hnone hempty
        refine ⟨hsame, ?_⟩
        intro hmem
        rcases mem_cons.mp hmem with hindex | hmem
        · omega
        · exact hnot hmem
      · rw [length_cons, length_cons]
        omega
    · obtain ⟨x, r₁, h₁, K₁, hmanage, hh₁, hK₁, hpassed₁, hnot₁, hnear₁, hc₁, -, hout₁⟩ :=
        hp.core.manage_next hp.handed (by rw [heq]; exact hf.lt) (by rw [heq]; exact hf.isFrame)
          (by rw [heq]; exact hf.last) (by rw [heq]; exact hf.gap)
      rw [heq, ← hf.eq] at hmanage
      have hwait₁ : ∀ y ∈ fs, Waiting s h₁ K₁ y := by
        intro y hy
        have hw := hwait y (mem_cons_of_mem f hy)
        refine hw.mono ?_ hh₁.le hK₁
        by_contra hbefore
        have hne : y.index ≠ h := by
          intro hindex
          rw [heq] at hindex
          exact hfresh (hindex ▸ mem_map_of_mem hy)
        have hge := hw.le
        have hframe := (hp.core.waiting _ (hpassed₁ y.index (by omega) (by omega))).2.2.1
        rw [hw.isFrame] at hframe
        cases hframe
      obtain ⟨handed, kept, r', h', K', hpass, hh, hK, hp', hpassed, hkept, -, hlen⟩ :=
        ih ⟨hc₁, hnear₁, hnot₁, hout₁⟩ hwait₁ hnodup
      refine ⟨x :: handed, kept, r', h', K', ?_, by omega, by omega, ?_, ?_, ?_, nofun, ?_⟩
      · rw [RefFinder.retryPass, hmanage]
        simp only [bind_eq_bind, bind_some]
        rw [hpass]
        rfl
      · rw [filter_filter_le (fun i => i) _ hh, append_assoc] at hp'
        exact hp'
      · intro i hi hi'
        by_cases hmid : h₁ ≤ i
        · rcases hpassed i hmid hi' with hmem | hmem
          · exact .inl (mem_filter.mp hmem).1
          · exact .inr (mem_cons_of_mem _ hmem)
        · rcases hi.lt_or_eq with hlt | rfl
          · exact .inl (hpassed₁ i hlt (by omega))
          · exact .inr (by rw [heq]; exact mem_cons_self)
      · rw [filter_cons_of_neg (by simp; omega), hkept]
      · rw [length_cons, length_cons]
        omega

theorem Passing.withStash
    (stashed : List SeqFrame) : Passing s h K ps out { r with stashedFrames := stashed } :=
  ⟨⟨hp.core.pos, hp.core.le, hp.core.gops, hp.core.key, hp.core.padding, hp.core.sorted,
    hp.core.waiting⟩, hp.near, hp.next, hp.handed⟩

theorem Passing.retryLoop {n : Nat} (hwait : ∀ x ∈ r.stashedFrames, Waiting s h K x)
    (hnodup : (r.stashedFrames.map SeqFrame.index).Nodup) (hn : r.stashedFrames.length < n) :
    ∃ handed r' h' K', RefFinder.retryLoop n r = some (handed, r') ∧ h ≤ h' ∧ K ≤ K' ∧
      Passing s h' K' (ps.filter (h' ≤ ·)) (out ++ handed) r' ∧
      (∀ i, h ≤ i → i < h' → i ∈ ps ∨ i ∈ r.stashedFrames.map SeqFrame.index) ∧
      r'.stashedFrames = r.stashedFrames.filter (h' ≤ ·.index) ∧
      h' ∉ r'.stashedFrames.map SeqFrame.index := by
  induction n generalizing h K ps out r with
  | zero => omega
  | succ n ih =>
    obtain ⟨handed, kept, r₁, h₁, K₁, hpass, hh₁, hK₁, hp₁, hpassed₁, hkept, hnone, hlen⟩ :=
      hp.retryPass hwait hnodup
    rw [RefFinder.retryLoop, hpass]
    simp only [bind_eq_bind, bind_some]
    by_cases hempty : handed = []
    · obtain ⟨rfl, hnot⟩ := hnone hempty
      have hsame : kept = r.stashedFrames := by
        rw [hkept]
        exact filter_eq_self.mpr fun x hx => decide_eq_true (hwait x hx).le
      rw [if_pos hempty]
      rw [hempty, append_nil] at hp₁
      refine ⟨[], _, h₁, K₁, rfl, le_rfl, hK₁, ?_, hpassed₁, hkept, ?_⟩
      · rw [append_nil]
        exact hp₁.withStash kept
      · show h₁ ∉ kept.map SeqFrame.index
        rw [hsame]
        exact hnot
    · rw [if_neg hempty]
      have hpos : 0 < handed.length := length_pos_iff.mpr hempty
      have hmem : ∀ x, x ∈ kept ↔ x ∈ r.stashedFrames ∧ h₁ ≤ x.index := by
        intro x
        rw [hkept, mem_filter, decide_eq_true_eq]
      obtain ⟨more, r', h', K', hloop, hh, hK, hp', hpassed, hstash, hnot⟩ :=
        ih (hp₁.withStash kept)
          (fun x hx => ((hwait x ((hmem x).mp hx).1).mono ((hmem x).mp hx).2 hh₁ hK₁))
          (by
            show (kept.map SeqFrame.index).Nodup
            rw [hkept]
            exact hnodup.sublist (filter_sublist.map _))
          (show kept.length < n by omega)
      refine ⟨handed ++ more, r', h', K', ?_, by omega, by omega, ?_, ?_, ?_, hnot⟩
      · rw [hloop]
        rfl
      · rw [filter_filter_le _ _ hh, append_assoc] at hp'
        exact hp'
      · intro i hi hi'
        by_cases hmid : h₁ ≤ i
        · rcases hpassed i hmid hi' with hin | hin
          · exact .inl (mem_filter.mp hin).1
          · obtain ⟨x, hx, rfl⟩ := mem_map.mp hin
            exact .inr (mem_map_of_mem ((hmem x).mp hx).1)
        · exact hpassed₁ i hi (by omega)
      · rw [hstash]
        show kept.filter _ = _
        rw [hkept, filter_filter_le _ _ hh]

end

structure Tracked (s : PacketStream) (delivered : List Nat) (h K : Nat) (ps : List Nat)
    (out : List HandedFrame) (r : RefFinder) : Prop where
  passing : Passing s h K ps out r
  waiting : ∀ x ∈ r.stashedFrames, Waiting s h K x
  nodup : (r.stashedFrames.map SeqFrame.index).Nodup
  next : h ∉ r.stashedFrames.map SeqFrame.index
  delivered : ∀ i, i ∈ delivered ↔ i < h ∨ i ∈ ps ∨ i ∈ r.stashedFrames.map SeqFrame.index

theorem Passing.retryStashedFrames (delivered : List Nat)
    (hp : Passing s h K ps out r) (hwait : ∀ x ∈ r.stashedFrames, Waiting s h K x)
    (hnodup : (r.stashedFrames.map SeqFrame.index).Nodup)
    (hdelivered : ∀ i, i ∈ delivered ↔ i < h ∨ i ∈ ps ∨ i ∈ r.stashedFrames.map SeqFrame.index) :
    ∃ handed r' h' K' ps', r.retryStashedFrames = some (handed, r') ∧
      Tracked s delivered h' K' ps' (out ++ handed) r' := by
  obtain ⟨handed, r', h', K', hloop, hh, hK, hp', hpassed, hstash, hnot⟩ :=
    hp.retryLoop hwait hnodup (Nat.lt_succ_self _)
  have hmem : ∀ x, x ∈ r'.stashedFrames ↔ x ∈ r.stashedFrames ∧ h' ≤ x.index := by
    intro x
    rw [hstash, mem_filter, decide_eq_true_eq]
  refine ⟨handed, r', h', K', _, hloop, hp', ?_, ?_, hnot, ?_⟩
  · intro x hx
    exact (hwait x ((hmem x).mp hx).1).mono ((hmem x).mp hx).2 hh hK
  · rw [hstash]
    exact hnodup.sublist (filter_sublist.map _)
  · intro i
    rw [hdelivered]
    constructor
    · rintro (hi | hi | hi)
      · exact .inl (by omega)
      · by_cases hlt : i < h'
        · exact .inl hlt
        · exact .inr (.inl (mem_filter.mpr ⟨hi, by simpa using hlt⟩))
      · obtain ⟨x, hx, rfl⟩ := mem_map.mp hi
        by_cases hlt : x.index < h'
        · exact .inl hlt
        · exact .inr (.inr (mem_map_of_mem ((hmem x).mpr ⟨hx, by omega⟩)))
    · rintro (hi | hi | hi)
      · by_cases hlt : i < h
        · exact .inl hlt
        · exact .inr (hpassed i (by omega) hi)
      · exact .inr (.inl (mem_filter.mp hi).1)
      · obtain ⟨x, hx, rfl⟩ := mem_map.mp hi
        exact .inr (.inr (mem_map_of_mem ((hmem x).mp hx).1))

variable {delivered : List Nat} {out : List HandedFrame} {i : Nat}

section

variable (ht : Tracked s delivered h K ps out r)
include ht

theorem Tracked.le_of_not_mem (hi : i ∉ delivered) : h ≤ i := by
  by_contra hlt
  exact hi ((ht.delivered i).mpr (.inl (by omega)))

theorem Tracked.length_stashed : r.stashedFrames.length ≤ 100 := by
  have hbound : ∀ i ∈ r.stashedFrames.map SeqFrame.index, i ∈ Finset.Ico h (h + 100) := by
    intro i hi
    obtain ⟨x, hx, rfl⟩ := mem_map.mp hi
    have hw := ht.waiting x hx
    exact Finset.mem_Ico.mpr ⟨hw.le, hw.near⟩
  have hcard := Finset.card_le_card (fun i hi => hbound i (mem_toFinset.mp hi))
  rw [toFinset_card_of_nodup ht.nodup, length_map, Nat.card_Ico] at hcard
  omega

theorem Tracked.manage_later (hi : i ∉ delivered) (hw : Waiting s h K (s.frameOf i)) (hlt : h < i) :
    ∃ r', r.manageFrame (s.frameOf i) = some ([], r') ∧
      Tracked s (i :: delivered) h K ps out r' := by
  have hmanage := ht.passing.core.manage_later hlt hw.lt hw.last
  have hsize : ¬r.stashedFrames.length > 100 := Nat.not_lt.mpr ht.length_stashed
  have hfresh : i ∉ r.stashedFrames.map SeqFrame.index := fun hmem =>
    hi ((ht.delivered i).mpr (.inr (.inr hmem)))
  refine ⟨{ r with stashedFrames := s.frameOf i :: r.stashedFrames }, ?_, ?_⟩
  · rw [manageFrame, hmanage]
    simp only [bind_eq_bind, bind_some]
    rw [if_neg hsize]
    rfl
  · refine ⟨ht.passing.withStash _, ?_, ?_, ?_, ?_⟩
    · intro x hx
      rcases mem_cons.mp hx with rfl | hx
      · exact hw
      · exact ht.waiting x hx
    · exact nodup_cons.mpr ⟨hfresh, ht.nodup⟩
    · intro hmem
      rcases mem_cons.mp hmem with heq | hmem
      · change h = i at heq
        omega
      · exact ht.next hmem
    · intro j
      show j ∈ i :: delivered ↔ j < h ∨ j ∈ ps ∨ j ∈ i :: r.stashedFrames.map SeqFrame.index
      rw [mem_cons, mem_cons, ht.delivered]
      tauto

theorem Tracked.manage_next (hw : Waiting s h K (s.frameOf h)) :
    ∃ handed r' h' K' ps', r.manageFrame (s.frameOf h) = some (handed, r') ∧
      Tracked s (h :: delivered) h' K' ps' (out ++ handed) r' := by
  obtain ⟨x, r₁, h₁, K₁, hmanage, hh₁, hK₁, hpassed₁, hnot₁, hnear₁, hc₁, hstash₁, hout₁⟩ :=
    ht.passing.core.manage_next ht.passing.handed hw.lt hw.isFrame hw.last hw.gap
  have hstay : ∀ y ∈ r.stashedFrames, h₁ ≤ y.index := by
    intro y hy
    have hwy := ht.waiting y hy
    have hne : y.index ≠ h := fun heq => ht.next (heq ▸ mem_map_of_mem hy)
    have hle := hwy.le
    by_contra hbefore
    have hframe := (ht.passing.core.waiting _ (hpassed₁ y.index (by omega) (by omega))).2.2.1
    rw [hwy.isFrame] at hframe
    cases hframe
  obtain ⟨handed, r', h', K', ps', hretry, ht'⟩ :=
    Passing.retryStashedFrames (h :: delivered) ⟨hc₁, hnear₁, hnot₁, hout₁⟩ (by
      rw [hstash₁]
      intro y hy
      exact (ht.waiting y hy).mono (hstay y hy) hh₁.le hK₁) (by
      rw [hstash₁]
      exact ht.nodup) (by
      intro j
      rw [hstash₁, mem_cons, ht.delivered, mem_filter, decide_eq_true_eq]
      constructor
      · rintro (rfl | hj | hj | hj)
        · exact .inl hh₁
        · exact .inl (by omega)
        · by_cases hlt : j < h₁
          · exact .inl hlt
          · exact .inr (.inl ⟨hj, by omega⟩)
        · exact .inr (.inr hj)
      · rintro (hj | ⟨hj, -⟩ | hj)
        · rcases lt_trichotomy j h with hlt | heq | hgt
          · exact .inr (.inl hlt)
          · exact .inl heq
          · exact .inr (.inr (.inl (hpassed₁ j hgt hj)))
        · exact .inr (.inr (.inl hj))
        · exact .inr (.inr (.inr hj)))
  refine ⟨x :: handed, r', h', K', ps', ?_, ?_⟩
  · rw [manageFrame, hmanage]
    simp only [bind_eq_bind, bind_some]
    rw [hretry]
    rfl
  · rw [append_assoc] at ht'
    exact ht'

end

end RefFinder

end WebRtc.Video
