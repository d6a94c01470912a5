import WebRtc.Video.FrameBuffer

/-! Which units the frame buffer offers: what it offers can be decoded, it offers a unit whenever
one can be decoded, and the cached continuity never hides one. -/

namespace WebRtc.Video

open List

namespace FrameBuffer

variable {b b' : FrameBuffer} {history : DecodedFramesHistory} {cutoff : Int}

/-! The search for units. -/

theorem findLoop_cons (f : FrameEntry) (rest unit : List FrameEntry) (result : Found) :
    findLoop history cutoff (f :: rest) unit result = if f.1 > cutoff then result
      else findLoop history cutoff rest (joinUnit unit f)
        (if f.2.encodedFrame.isLastSpatialLayer && unitDecodable history (joinUnit unit f) then
          found (joinUnit unit f) f result else result) := rfl

theorem found_some (unit : List FrameEntry) (f : FrameEntry) (next : TemporalUnit)
    (info : DecodabilityInfo) : ∃ info', found unit f (some (next, info)) = some (next, info') := by
  cases unit with
  | nil => exact ⟨info, rfl⟩
  | cons first rest => exact ⟨_, rfl⟩

variable {next : TemporalUnit}

variable {rest unit : List FrameEntry} {info : DecodabilityInfo}

theorem findLoop_some :
    (findLoop history cutoff rest unit (some (next, info))).map Prod.fst = some next := by
  induction rest generalizing unit info with
  | nil => rfl
  | cons f rest ih =>
    rw [findLoop_cons]
    obtain ⟨info', hfound⟩ := found_some (joinUnit unit f) f next info
    rw [hfound]
    split_ifs
    · rfl
    · exact ih
    · exact ih

def block (unit frames : List FrameEntry) : List FrameEntry := frames.foldl joinUnit unit

theorem joinUnit_ne_nil (unit : List FrameEntry) (f : FrameEntry) : joinUnit unit f ≠ [] := by
  unfold joinUnit
  cases unit with
  | nil => exact cons_ne_nil _ _
  | cons first rest =>
    dsimp only
    split_ifs <;> simp

def EndsUnit (history : DecodedFramesHistory) (unit : List FrameEntry) (f : FrameEntry) : Prop :=
  f.2.encodedFrame.isLastSpatialLayer = true ∧ unitDecodable history unit = true

theorem findLoop_complete {before after unit : List FrameEntry} {f : FrameEntry} {result : Found}
    (hcut : ∀ e ∈ before ++ [f], e.1 ≤ cutoff)
    (hends : EndsUnit history (block unit (before ++ [f])) f) :
    (findLoop history cutoff (before ++ f :: after) unit result).isSome := by
  induction before generalizing unit result with
  | nil =>
    have hf : f.1 ≤ cutoff := hcut f (by simp)
    rw [nil_append, findLoop_cons, if_neg (not_lt.mpr hf)]
    obtain ⟨hlast, hunit⟩ := hends
    change unitDecodable history (joinUnit unit f) = true at hunit
    rw [hlast, hunit, Bool.and_self, if_pos rfl]
    obtain ⟨first, rest, hjoin⟩ := exists_cons_of_ne_nil (joinUnit_ne_nil unit f)
    rw [hjoin, ← Option.isSome_map]
    cases result with
    | none =>
      rw [found, findLoop_some]
      rfl
    | some result =>
      rw [found, findLoop_some]
      rfl
  | cons e before ih =>
    have he : e.1 ≤ cutoff := hcut e (by simp)
    rw [cons_append, findLoop_cons, if_neg (not_lt.mpr he)]
    exact ih (fun x hx => hcut x (mem_cons_of_mem e hx)) hends

theorem findLoop_sound (h : findLoop history cutoff rest unit none = some (next, info)) :
    ∃ before f after first, rest = before ++ f :: after ∧
      EndsUnit history (block unit (before ++ [f])) f ∧
      (block unit (before ++ [f])).head? = some first ∧ next = ⟨first.1, f.1⟩ := by
  induction rest generalizing unit with
  | nil => cases h
  | cons f rest ih =>
    rw [findLoop_cons] at h
    split_ifs at h with hcut hends
    · obtain ⟨first, others, hjoin⟩ := exists_cons_of_ne_nil (joinUnit_ne_nil unit f)
      rw [hjoin, found] at h
      have hnext := congrArg (Option.map Prod.fst) h
      rw [findLoop_some] at hnext
      cases hnext
      refine ⟨[], f, rest, first, rfl, ?_, ?_, rfl⟩
      · show EndsUnit history (joinUnit unit f) f
        simpa [EndsUnit] using hends
      · show (joinUnit unit f).head? = some first
        rw [hjoin]
        rfl
    · obtain ⟨before, g, after, first, hrest, hg, hfirst, hnext⟩ := ih h
      exact ⟨f :: before, g, after, first, by rw [hrest]; rfl, hg, hfirst, hnext⟩

structure Run (before run : List FrameEntry) (timestamp : BitVec 32) : Prop where
  nonempty : run ≠ []
  same : ∀ f ∈ run, f.2.encodedFrame.rtpTimestamp = timestamp
  starts : ∀ f, before.getLast? = some f → f.2.encodedFrame.rtpTimestamp ≠ timestamp

theorem exists_run_block (frames : List FrameEntry) (f : FrameEntry) :
    ∃ before, frames ++ [f] = before ++ block [] (frames ++ [f]) ∧
      Run before (block [] (frames ++ [f])) f.2.encodedFrame.rtpTimestamp := by
  induction frames using List.reverseRecOn generalizing f with
  | nil =>
    exact ⟨[], rfl, ⟨cons_ne_nil _ _, by simp [block, joinUnit], by simp⟩⟩
  | append_singleton frames g ih =>
    obtain ⟨before, hsplit, hrun⟩ := ih g
    have hblock : block [] (frames ++ [g] ++ [f]) = joinUnit (block [] (frames ++ [g])) f := by
      rw [block, foldl_append]
      rfl
    rw [hblock]
    generalize block [] (frames ++ [g]) = unit at *
    obtain ⟨first, rest, rfl⟩ := exists_cons_of_ne_nil hrun.nonempty
    have hfirst := hrun.same first mem_cons_self
    unfold joinUnit
    dsimp only
    rw [hfirst]
    split_ifs with hnew
    · refine ⟨frames ++ [g], rfl, cons_ne_nil _ _, by simp, ?_⟩
      intro e he
      rw [List.getLast?_concat] at he
      cases he
      exact Ne.symm hnew
    · have hsame := not_not.mp hnew
      refine ⟨before, by rw [hsplit, append_assoc], by simp, ?_, hsame ▸ hrun.starts⟩
      intro e he
      rcases mem_append.mp he with he | he
      · rw [hsame]
        exact hrun.same e he
      · rw [mem_singleton.mp he]

theorem block_of_run {before run : List FrameEntry} {timestamp : BitVec 32}
    (h : Run before run timestamp) : block [] (before ++ run) = run := by
  obtain ⟨f, rest, rfl⟩ := exists_cons_of_ne_nil h.nonempty
  have hf := h.same f mem_cons_self
  have hstart : joinUnit (block [] before) f = [f] := by
    cases hbefore : before using List.reverseRecOn with
    | nil => rfl
    | append_singleton before g =>
      obtain ⟨front, hsplit, hrun⟩ := exists_run_block before g
      have hne := h.starts g (by rw [hbefore, List.getLast?_concat])
      generalize block [] (before ++ [g]) = unit at *
      obtain ⟨first, others, rfl⟩ := exists_cons_of_ne_nil hrun.nonempty
      unfold joinUnit
      dsimp only
      rw [if_pos]
      rw [hf, hrun.same first mem_cons_self]
      exact Ne.symm hne
  have hgrow : ∀ (l unit : List FrameEntry), (∀ e ∈ l, e.2.encodedFrame.rtpTimestamp = timestamp) →
      block (f :: unit) l = f :: unit ++ l := by
    intro l
    induction l with
    | nil => simp [block]
    | cons e l ih =>
      intro unit hl
      have he : joinUnit (f :: unit) e = f :: (unit ++ [e]) := by
        unfold joinUnit
        dsimp only
        rw [if_neg (by rw [hl e mem_cons_self, hf]; exact not_not.mpr rfl)]
        rfl
      rw [block, foldl_cons, he, ← block, ih _ fun x hx => hl x (mem_cons_of_mem e hx)]
      simp
  have hsplit : block [] (before ++ f :: rest) = block (joinUnit (block [] before) f) rest := by
    rw [block, foldl_append]
    rfl
  rw [hsplit, hstart, hgrow rest [] fun e he => h.same e (mem_cons_of_mem f he)]
  rfl

structure DecodableRun (b : FrameBuffer) (before run after : List FrameEntry) (last : FrameEntry) :
    Prop where
  stored : b.frames.entries = before ++ run ++ after
  together : Run before run last.2.encodedFrame.rtpTimestamp
  ends : run.getLast? = some last
  lastLayer : last.2.encodedFrame.isLastSpatialLayer = true
  decodable : unitDecodable b.decodedFrameHistory run = true

theorem DecodableRun.sorted {before run after : List FrameEntry} {last : FrameEntry}
    (h : DecodableRun b before run after last) :
    run.Pairwise (fun a b => a.1 < b.1) ∧ (∀ e ∈ before, ∀ f ∈ run, e.1 < f.1) ∧
      ∀ e ∈ after, ∀ f ∈ run, f.1 < e.1 := by
  have hsorted := b.frames.sorted
  rw [h.stored, append_assoc] at hsorted
  obtain ⟨-, hright, hbefore⟩ := pairwise_append.mp hsorted
  obtain ⟨hrun, -, hafter⟩ := pairwise_append.mp hright
  exact ⟨hrun, fun e he f hf => hbefore e he f (mem_append_left _ hf),
    fun e he f hf => hafter f hf e he⟩

theorem DecodableRun.find? {before run after : List FrameEntry} {last f : FrameEntry}
    (h : DecodableRun b before run after last) (hf : f ∈ run) : b.frames.find? f.1 = some f.2 := by
  apply b.frames.mem_entries_iff.mp
  rw [h.stored]
  exact mem_append_left _ (mem_append_right _ hf)

theorem exists_run_of_decodableUnits (h : b.decodableUnits.map Prod.fst = some next) :
    ∃ before run after first last, DecodableRun b before run after last ∧
      run.head? = some first ∧ next = ⟨first.1, last.1⟩ := by
  unfold decodableUnits at h
  cases hcut : b.lastContinuousTemporalUnitFrameId with
  | none =>
    rw [hcut] at h
    cases h
  | some cutoff =>
    rw [hcut] at h
    obtain ⟨⟨next', info⟩, hloop, rfl⟩ := Option.map_eq_some_iff.mp h
    obtain ⟨frames, f, after, first, hentries, hends, hfirst, hnext⟩ := findLoop_sound hloop
    obtain ⟨before, hsplit, hrun⟩ := exists_run_block frames f
    refine ⟨before, block [] (frames ++ [f]), after, first, f, ⟨?_, hrun, ?_, hends.1, hends.2⟩,
      hfirst, hnext⟩
    · rw [← hsplit, hentries, append_assoc]
      rfl
    · have hlast : (before ++ block [] (frames ++ [f])).getLast? = some f := by
        rw [← hsplit, List.getLast?_concat]
      rwa [List.getLast?_append_of_ne_nil _ hrun.nonempty] at hlast

theorem DecodableRun.isSome_decodableUnits {before run after : List FrameEntry} {last : FrameEntry}
    (h : DecodableRun b before run after last)
    (hcut : ∃ cutoff, b.lastContinuousTemporalUnitFrameId = some cutoff ∧ last.1 ≤ cutoff) :
    b.decodableUnits.isSome := by
  obtain ⟨cutoff, hcutoff, hle⟩ := hcut
  obtain ⟨front, hfront⟩ := List.getLast?_eq_some_iff.mp h.ends
  have hentries : b.frames.entries = (before ++ front) ++ last :: after := by
    rw [h.stored, hfront]
    simp
  have hsorted := b.frames.sorted
  rw [hentries] at hsorted
  have hblock : block [] ((before ++ front) ++ [last]) = run := by
    rw [append_assoc, ← hfront]
    exact block_of_run h.together
  unfold decodableUnits
  rw [hcutoff]
  dsimp only
  rw [hentries]
  apply findLoop_complete
  · intro e he
    rcases mem_append.mp he with he | he
    · have hlt := (pairwise_append.mp hsorted).2.2 e he last mem_cons_self
      omega
    · rw [mem_singleton.mp he]
      exact hle
  · rw [hblock]
    exact ⟨h.lastLayer, h.decodable⟩

/-! Continuity. -/

structure Stored (b : FrameBuffer) (decoded : Set Int) : Prop where
  history : b.decodedFrameHistory.Remembers decoded
  valid : ∀ id f, b.frames.find? id = some f → f.encodedFrame.id = id ∧
    DecodedFramesHistory.Inner id ∧ (∀ r ∈ f.encodedFrame.references, r < id) ∧
    f.encodedFrame.references.length ≤ kMaxFrameReferences
  later : ∀ id f, b.frames.find? id = some f → ∀ last,
    b.decodedFrameHistory.lastFrameId = some last → last < id
  bound : ∀ id f, b.frames.find? id = some f → f.continuous = true →
    f.encodedFrame.isLastSpatialLayer = true →
    ∃ cutoff, b.lastContinuousTemporalUnitFrameId = some cutoff ∧ id ≤ cutoff
  size : b.frames.entries.length ≤ b.maxSize

variable {decoded : Set Int}

theorem Stored.getReferences (h : b.Stored decoded) {id : Int} {f : FrameInfo}
    (hf : b.frames.find? id = some f) : Video.getReferences f = f.encodedFrame.references :=
  take_of_length_le (h.valid id f hf).2.2.2

def ClosedAt (b : FrameBuffer) (id : Int) : Prop :=
  ∀ f, b.frames.find? id = some f → b.isContinuous f = true → f.continuous = true

theorem isContinuous_congr {f : FrameInfo} (hhistory : b'.decodedFrameHistory = b.decodedFrameHistory)
    (hframes : ∀ r ∈ getReferences f, b'.frames.find? r = b.frames.find? r) :
    b'.isContinuous f = b.isContinuous f := by
  unfold isContinuous
  rw [hhistory, Bool.eq_iff_iff, all_eq_true, all_eq_true]
  exact forall₂_congr fun r hr => by rw [hframes r hr]

theorem DecodableRun.continuous (h : b.Stored decoded) (hclosed : ∀ id, b.ClosedAt id)
    {before run after : List FrameEntry} {last : FrameEntry}
    (hrun : DecodableRun b before run after last) : ∀ f ∈ run, f.2.continuous = true := by
  have hstored : ∀ f ∈ run, b.frames.find? f.1 = some f.2 := fun f hf => hrun.find? hf
  obtain ⟨hsorted, -, -⟩ := hrun.sorted
  -- The first frame that is not flagged would have flagged references only.
  by_contra hnot
  push Not at hnot
  obtain ⟨f, hf, hflag⟩ := hnot
  obtain ⟨g, rest, hfilter⟩ : ∃ g rest, run.filter (fun f => !f.2.continuous) = g :: rest :=
    exists_cons_of_ne_nil (ne_nil_of_mem (mem_filter.mpr ⟨hf, by simpa using hflag⟩))
  have hg : g ∈ run ∧ g.2.continuous = false := by
    have hmem : g ∈ run.filter (fun f => !f.2.continuous) := by
      rw [hfilter]
      exact mem_cons_self
    simpa using mem_filter.mp hmem
  have hfirst : ∀ e ∈ run, e.1 < g.1 → e.2.continuous = true := by
    intro e he hlt
    by_contra hflag
    have hmem : e ∈ run.filter (fun f => !f.2.continuous) :=
      mem_filter.mpr ⟨he, by simpa using hflag⟩
    have hpair := hsorted.filter (fun f => !f.2.continuous)
    rw [hfilter] at hmem hpair
    rcases mem_cons.mp hmem with rfl | hmem
    · exact lt_irrefl _ hlt
    · exact absurd ((pairwise_cons.mp hpair).1 e hmem) (not_lt.mpr hlt.le)
  have hcontinuous : b.isContinuous g.2 = true := by
    apply all_eq_true.mpr
    intro r hr
    have hdecodable := all_eq_true.mp (all_eq_true.mp hrun.decodable g hg.1) r hr
    rcases Bool.or_eq_true_iff.mp hdecodable with hdec | hin
    · rw [hdec, Bool.true_or]
    · rw [contains_iff_mem] at hin
      obtain ⟨e, he, rfl⟩ := mem_map.mp hin
      rw [h.getReferences (hstored g hg.1)] at hr
      have hlt := (h.valid g.1 g.2 (hstored g hg.1)).2.2.1 e.1 hr
      rw [hstored e he]
      simp [hfirst e he hlt]
  rw [hclosed g.1 g.2 (hstored g hg.1) hcontinuous] at hg
  exact Bool.noConfusion hg.2

theorem DecodableRun.offered (h : b.Stored decoded) (hclosed : ∀ id, b.ClosedAt id)
    {before run after : List FrameEntry} {last : FrameEntry}
    (hrun : DecodableRun b before run after last) : b.decodableUnits.isSome := by
  apply hrun.isSome_decodableUnits
  have hlast : last ∈ run := mem_of_getLast? hrun.ends
  exact h.bound last.1 last.2 (hrun.find? hlast) (hrun.continuous h hclosed last hlast) hrun.lastLayer

end FrameBuffer

end WebRtc.Video
