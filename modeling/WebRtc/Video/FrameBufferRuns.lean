import WebRtc.Video.FrameBufferUnits

/-! Runs of the frame buffer: what is extracted can be decoded in that order, and a unit that can be
decoded is always offered. -/

namespace WebRtc.Video

open List Option

namespace FrameBuffer

variable {b b' : FrameBuffer} {decoded : Set Int}

structure Sound (b : FrameBuffer) (decoded : Set Int) : Prop extends b.Stored decoded where
  closed : ∀ id, b.ClosedAt id
  next : b.nextDecodableTemporalUnit = b.decodableUnits.map Prod.fst

theorem Stored.find (h : b.Stored decoded) (hclosed : ∀ id, b.ClosedAt id) :
    b.findNextAndLastDecodableTemporalUnit.Sound decoded :=
  { h with closed := hclosed, next := rfl }

theorem Stored.clear (h : b.Stored decoded) : b.clear.Sound ∅ where
  history := h.history.clear
  valid := nofun
  later := nofun
  bound := nofun
  size := Nat.zero_le _
  closed := nofun
  next := rfl

/-! Inserting a frame. -/

theorem exists_raise_self (last : Option Int) (id : Int) : ∃ c, raise last id = some c ∧ id ≤ c := by
  unfold raise
  cases last with
  | none => exact ⟨id, rfl, le_rfl⟩
  | some last =>
    simp only [all_some, decide_eq_true_eq]
    split_ifs with hlt
    · exact ⟨id, rfl, le_rfl⟩
    · exact ⟨last, rfl, not_lt.mp hlt⟩

theorem exists_raise {last : Option Int} {k : Int} (id : Int) (h : ∃ c, last = some c ∧ k ≤ c) :
    ∃ c, raise last id = some c ∧ k ≤ c := by
  obtain ⟨c, rfl, hle⟩ := h
  unfold raise
  simp only [all_some, decide_eq_true_eq]
  split_ifs with hlt
  · exact ⟨id, rfl, hle.trans hlt.le⟩
  · exact ⟨c, rfl, hle⟩

theorem length_upsert (m : OrdMap Int FrameInfo) (id : Int) (f : FrameInfo) :
    (m.upsert id fun _ => f).entries.length + (m.find? id).elim 0 (fun _ => 1) =
      m.entries.length + 1 := by
  have hsum := m.sumBy_upsert id (fun _ => f) fun _ => 1
  simpa [OrdMap.sumBy] using hsum

theorem propagateTo_cases (b : FrameBuffer) (id : Int) :
    b.propagateTo id = b ∧ b.ClosedAt id ∨
      ∃ f, b.frames.find? id = some f ∧
        (b.propagateTo id).frames = b.frames.upsert id (fun _ => { f with continuous := true }) ∧
        (b.propagateTo id).decodedFrameHistory = b.decodedFrameHistory ∧
        (b.propagateTo id).maxSize = b.maxSize ∧
        (b.propagateTo id).lastContinuousTemporalUnitFrameId =
          if f.encodedFrame.isLastSpatialLayer then raise b.lastContinuousTemporalUnitFrameId id
          else b.lastContinuousTemporalUnitFrameId := by
  unfold propagateTo ClosedAt
  cases hfind : b.frames.find? id with
  | none => exact .inl ⟨rfl, nofun⟩
  | some f =>
    dsimp only
    by_cases hflag : f.continuous = true
    · rw [if_pos hflag]
      refine .inl ⟨rfl, fun g hg _ => ?_⟩
      cases hg
      exact hflag
    · rw [if_neg hflag]
      by_cases hcont : b.isContinuous f = true
      · rw [if_pos hcont]
        exact .inr ⟨f, rfl, rfl, rfl, rfl, rfl⟩
      · rw [if_neg hcont]
        refine .inl ⟨rfl, fun g hg hg' => ?_⟩
        cases hg
        exact absurd hg' hcont

theorem Stored.propagateTo (h : b.Stored decoded) (id : Int) :
    (b.propagateTo id).Stored decoded := by
  rcases b.propagateTo_cases id with ⟨heq, -⟩ | ⟨f, hfind, hframes, hhistory, hmax, hlast⟩
  · rw [heq]
    exact h
  · have hget : ∀ k g, (b.propagateTo id).frames.find? k = some g →
        ∃ g', b.frames.find? k = some g' ∧ g'.encodedFrame = g.encodedFrame ∧
          (k = id ∨ g' = g) := by
      intro k g hg
      rw [hframes, OrdMap.find?_upsert] at hg
      split_ifs at hg with hk
      · cases hg
        exact ⟨f, hk ▸ hfind, rfl, .inl hk⟩
      · exact ⟨g, hg, rfl, .inr rfl⟩
    refine ⟨hhistory ▸ h.history, ?_, ?_, ?_, ?_⟩
    · intro k g hg
      obtain ⟨g', hg', hframe, -⟩ := hget k g hg
      rw [← hframe]
      exact h.valid k g' hg'
    · intro k g hg
      obtain ⟨g', hg', -⟩ := hget k g hg
      rw [hhistory]
      exact h.later k g' hg'
    · intro k g hg hcont hlayer
      obtain ⟨g', hg', hframe, hk | hsame⟩ := hget k g hg
      · rw [hk] at hg'
        rw [hfind] at hg'
        cases hg'
        rw [hlast, hframe, if_pos hlayer, hk]
        exact exists_raise_self _ id
      · subst hsame
        have hbound := h.bound k g' hg' hcont hlayer
        rw [hlast]
        split_ifs
        · exact exists_raise id hbound
        · exact hbound
    · have hlength := length_upsert b.frames id { f with continuous := true }
      rw [hfind] at hlength
      rw [hframes, hmax]
      have hsize := h.size
      simp only [elim_some] at hlength
      omega

theorem Stored.closedAt_propagateTo (h : b.Stored decoded) {id k : Int} (hk : k ≤ id)
    (hclosed : k < id → b.ClosedAt k) : (b.propagateTo id).ClosedAt k := by
  rcases b.propagateTo_cases id with ⟨heq, hid⟩ | ⟨f, hfind, hframes, hhistory, -, -⟩
  · rw [heq]
    rcases hk.lt_or_eq with hlt | rfl
    · exact hclosed hlt
    · exact hid
  · intro g hg hcont
    rw [hframes, OrdMap.find?_upsert] at hg
    split_ifs at hg with heq
    · cases hg
      rfl
    · apply hclosed (lt_of_le_of_ne hk heq) g hg
      rw [← hcont]
      refine (isContinuous_congr hhistory fun r hr => ?_).symm
      rw [h.getReferences hg] at hr
      have hlt := (h.valid k g hg).2.2.1 r hr
      rw [hframes, OrdMap.find?_upsert, if_neg (by omega)]

theorem Stored.foldl_propagateTo {ids : List Int} (hsorted : ids.Pairwise (· < ·))
    (h : b.Stored decoded) (hclosed : ∀ k, k ∉ ids → b.ClosedAt k)
    (hbefore : ∀ k, k ∉ ids → (b.frames.find? k).isSome → ∀ id ∈ ids, k < id) :
    (ids.foldl FrameBuffer.propagateTo b).Stored decoded ∧
      ∀ k, (ids.foldl FrameBuffer.propagateTo b).ClosedAt k := by
  induction ids generalizing b with
  | nil => exact ⟨h, fun k => hclosed k not_mem_nil⟩
  | cons id ids ih =>
    obtain ⟨hfirst, hrest⟩ := pairwise_cons.mp hsorted
    have hdomain : ∀ k, ((b.propagateTo id).frames.find? k).isSome = (b.frames.find? k).isSome := by
      intro k
      rcases b.propagateTo_cases id with ⟨heq, -⟩ | ⟨f, hfind, hframes, -⟩
      · rw [heq]
      · rw [hframes, OrdMap.find?_upsert]
        split_ifs with hk
        · rw [hk, hfind]
          rfl
        · rfl
    rw [foldl_cons]
    refine ih hrest (h.propagateTo id) ?_ ?_
    · intro k hk f hf
      have hsome : (b.frames.find? k).isSome := by
        rw [← hdomain, hf]
        rfl
      by_cases hkid : k = id
      · exact h.closedAt_propagateTo hkid.le (fun hlt => absurd hkid hlt.ne) f hf
      · have hnotin : k ∉ id :: ids := fun hmem => (mem_cons.mp hmem).elim hkid hk
        have hlt := hbefore k hnotin hsome id mem_cons_self
        exact h.closedAt_propagateTo hlt.le (fun _ => hclosed k hnotin) f hf
    · intro k hk hsome
      rw [hdomain] at hsome
      intro id' hid'
      by_cases hkid : k = id
      · rw [hkid]
        exact hfirst id' hid'
      · have hnotin : k ∉ id :: ids := fun hmem => (mem_cons.mp hmem).elim hkid hk
        exact hbefore k hnotin hsome id' (mem_cons_of_mem id hid')

theorem maxSize_propagateTo (b : FrameBuffer) (id : Int) : (b.propagateTo id).maxSize = b.maxSize := by
  rcases b.propagateTo_cases id with ⟨heq, -⟩ | ⟨f, -, -, -, hmax, -⟩
  · rw [heq]
  · exact hmax

theorem maxSize_store (b : FrameBuffer) (frame : EncodedFrame) :
    (b.store frame).maxSize = b.maxSize := by
  have hfold : ∀ (ids : List Int) (c : FrameBuffer), (ids.foldl propagateTo c).maxSize = c.maxSize := by
    intro ids
    induction ids with
    | nil => exact fun _ => rfl
    | cons id ids ih => exact fun c => (ih _).trans (maxSize_propagateTo c id)
  exact hfold _ _

structure Insertable (b : FrameBuffer) (frame : EncodedFrame) : Prop where
  inner : DecodedFramesHistory.Inner frame.id
  few : frame.references.length ≤ kMaxFrameReferences
  backwards : ∀ r ∈ frame.references, r < frame.id
  later : ∀ last, b.decodedFrameHistory.lastFrameId = some last → last < frame.id
  absent : b.frames.find? frame.id = none
  room : b.frames.entries.length < b.maxSize

theorem Sound.store (h : b.Sound decoded) {frame : EncodedFrame} (hframe : b.Insertable frame) :
    (b.store frame).Sound decoded := by
  let added : FrameBuffer := { b with frames := b.frames.upsert frame.id fun _ => ⟨frame, false⟩ }
  have hget : ∀ k g, added.frames.find? k = some g →
      k = frame.id ∧ g = ⟨frame, false⟩ ∨ k ≠ frame.id ∧ b.frames.find? k = some g := by
    intro k g hg
    rw [OrdMap.find?_upsert] at hg
    split_ifs at hg with hk
    · cases hg
      exact .inl ⟨hk, rfl⟩
    · exact .inr ⟨hk, hg⟩
  have hstored : added.Stored decoded := by
    refine ⟨h.history, ?_, ?_, ?_, ?_⟩
    · intro k g hg
      rcases hget k g hg with ⟨rfl, rfl⟩ | ⟨-, hg⟩
      · exact ⟨rfl, hframe.inner, hframe.backwards, hframe.few⟩
      · exact h.valid k g hg
    · intro k g hg
      rcases hget k g hg with ⟨rfl, -⟩ | ⟨-, hg⟩
      · exact hframe.later
      · exact h.later k g hg
    · intro k g hg hcont
      rcases hget k g hg with ⟨-, rfl⟩ | ⟨-, hg⟩
      · cases hcont
      · exact h.bound k g hg hcont
    · have hlength := length_upsert b.frames frame.id ⟨frame, false⟩
      rw [hframe.absent] at hlength
      have hroom := hframe.room
      show (b.frames.upsert frame.id fun _ => ⟨frame, false⟩).entries.length ≤ b.maxSize
      simp only [elim_none] at hlength
      omega
  have hkeys : ∀ k, k ∈ added.frames.entries.map Prod.fst ↔ (added.frames.find? k).isSome := by
    intro k
    rw [List.mem_map, Option.isSome_iff_exists]
    constructor
    · rintro ⟨e, he, rfl⟩
      exact ⟨e.2, added.frames.mem_entries_iff.mp he⟩
    · rintro ⟨g, hg⟩
      exact ⟨(k, g), added.frames.mem_entries_iff.mpr hg, rfl⟩
  let ids := (added.frames.entries.map Prod.fst).filter fun other => decide (frame.id ≤ other)
  have hmem : ∀ k, (added.frames.find? k).isSome → frame.id ≤ k → k ∈ ids := fun k hk hle =>
    List.mem_filter.mpr ⟨(hkeys k).mpr hk, decide_eq_true hle⟩
  -- The frames before the new one do not refer to it.
  have hearlier : ∀ k, k ∉ ids → added.ClosedAt k := by
    intro k hk f hf hcont
    have hlt : k < frame.id := by
      by_contra hle
      exact hk (hmem k (by rw [hf]; rfl) (not_lt.mp hle))
    rcases hget k f hf with ⟨rfl, -⟩ | ⟨-, hg⟩
    · exact absurd hlt (lt_irrefl _)
    · have hsame : added.isContinuous f = b.isContinuous f := by
        refine isContinuous_congr rfl fun r hr => ?_
        rw [h.getReferences hg] at hr
        have := (h.valid k f hg).2.2.1 r hr
        rw [OrdMap.find?_upsert, if_neg (by omega)]
      exact h.closed k f hg (hsame.symm.trans hcont)
  have hbefore : ∀ k, k ∉ ids → (added.frames.find? k).isSome → ∀ id ∈ ids, k < id := by
    intro k hk hsome id hid
    have hle : frame.id ≤ id := of_decide_eq_true (List.mem_filter.mp hid).2
    by_contra hge
    exact hk (hmem k hsome (hle.trans (not_lt.mp hge)))
  have hsorted : ids.Pairwise (· < ·) := (List.pairwise_map.mpr added.frames.sorted).filter _
  obtain ⟨hstored', hclosed⟩ := hstored.foldl_propagateTo hsorted hearlier hbefore
  exact hstored'.find hclosed

/-! The checks of `InsertFrame`. -/

theorem Sound.acceptDecoded (h : b.Sound decoded) {frame : EncodedFrame} {cleared : Bool}
    (haccept : b.acceptDecoded frame = some (cleared, b')) :
    b'.Sound (if cleared then ∅ else decoded) ∧ b'.maxSize = b.maxSize ∧
      ∀ last, b'.decodedFrameHistory.lastFrameId = some last → last < frame.id := by
  have hsame := h.history.same
  have htime := h.history.timestamp
  unfold FrameBuffer.acceptDecoded at haccept
  split at haccept
  · rename_i last timestamp hlast _
    split_ifs at haccept with hle hjump
    · cases haccept
      exact ⟨h.clear, rfl, nofun⟩
    · cases haccept
      refine ⟨h, rfl, fun other hother => ?_⟩
      rw [← hsame, hlast] at hother
      cases hother
      exact not_le.mp hle
  · rename_i hnone
    cases haccept
    refine ⟨h, rfl, fun last hlast => ?_⟩
    rw [hlast] at hsame htime
    obtain ⟨timestamp, htimestamp⟩ := isSome_iff_exists.mp htime
    exact absurd htimestamp (hnone last timestamp hsame)

theorem Sound.acceptSize (h : b.Sound decoded) {frame : EncodedFrame} {cleared : Bool}
    (hmax : b.maxSize ≠ 0)
    (hlater : ∀ last, b.decodedFrameHistory.lastFrameId = some last → last < frame.id)
    (haccept : b.acceptSize frame = some (cleared, b')) :
    b'.Sound (if cleared then ∅ else decoded) ∧ b'.maxSize = b.maxSize ∧
      b'.frames.entries.length < b'.maxSize ∧
      ∀ last, b'.decodedFrameHistory.lastFrameId = some last → last < frame.id := by
  unfold FrameBuffer.acceptSize at haccept
  split_ifs at haccept with hfull hkey
  · cases haccept
    exact ⟨h.clear, rfl, Nat.pos_of_ne_zero hmax, nofun⟩
  · cases haccept
    exact ⟨h, rfl, lt_of_le_of_ne h.size hfull, hlater⟩

/-- Whether `InsertFrame` clears the buffer. -/
def clearsFor (b : FrameBuffer) (frame : EncodedFrame) : Bool :=
  validReferences frame && (b.accept frame).any Prod.fst

theorem Sound.insertFrame (h : b.Sound decoded) {frame : EncodedFrame} (hmax : b.maxSize ≠ 0)
    (hinner : DecodedFramesHistory.Inner frame.id)
    (hfew : frame.references.length ≤ kMaxFrameReferences) :
    (b.insertFrame frame).2.Sound (if b.clearsFor frame then ∅ else decoded) ∧
      (b.insertFrame frame).2.maxSize = b.maxSize := by
  unfold FrameBuffer.insertFrame clearsFor
  cases hvalid : validReferences frame with
  | false => exact ⟨h, rfl⟩
  | true =>
    have hbackwards : ∀ r ∈ frame.references, r < frame.id := (of_decide_eq_true hvalid).1
    rw [Bool.not_true, if_neg Bool.false_ne_true, Bool.true_and]
    cases haccept : b.accept frame with
    | none => exact ⟨h, rfl⟩
    | some result =>
      obtain ⟨cleared, b'⟩ := result
      simp only [accept, bind_eq_bind, bind_eq_some_iff] at haccept
      obtain ⟨⟨cleared₁, b₁⟩, hfirst, ⟨cleared₂, b₂⟩, hsecond, heq⟩ := haccept
      cases heq
      obtain ⟨hsound₁, hmax₁, hlater₁⟩ := h.acceptDecoded hfirst
      obtain ⟨hsound₂, hmax₂, hroom, hlater₂⟩ :=
        hsound₁.acceptSize (hmax₁ ▸ hmax) hlater₁ hsecond
      have hdecoded : (if cleared₂ = true then (∅ : Set Int) else if cleared₁ = true then ∅ else decoded) =
          if (cleared₁ || cleared₂) = true then ∅ else decoded := by
        cases cleared₁ <;> cases cleared₂ <;> rfl
      rw [hdecoded] at hsound₂
      rw [any_some]
      dsimp only
      by_cases hdup : (b₂.frames.find? frame.id).isSome
      · rw [if_pos hdup]
        exact ⟨hsound₂, hmax₂.trans hmax₁⟩
      · rw [if_neg hdup]
        have hframe : b₂.Insertable frame :=
          ⟨hinner, hfew, hbackwards, hlater₂, not_isSome_iff_eq_none.mp hdup, hroom⟩
        exact ⟨hsound₂.store hframe, (maxSize_store b₂ frame).trans (hmax₂.trans hmax₁)⟩

/-! Extracting and dropping units. -/

variable {history : DecodedFramesHistory}

theorem Sound.eraseUnit (h : b.Sound decoded) {decoded' : Set Int}
    (unit : TemporalUnit) (moved : Int → Bool) (hhistory : history.Remembers decoded')
    (hlater : ∀ last, history.lastFrameId = some last → ∀ id, unit.lastFrame < id →
      (b.frames.find? id).isSome → last < id)
    (hdecoded : ∀ r, history.wasDecoded r = true → b.decodedFrameHistory.wasDecoded r = true ∨
      (b.frames.find? r).any FrameInfo.continuous = true) :
    (FrameBuffer.eraseUnit { b with decodedFrameHistory := history } unit moved).Sound decoded' := by
  have hget : ∀ k g, (b.frames.filterKeys fun id => decide (unit.lastFrame < id)).find? k = some g →
      unit.lastFrame < k ∧ b.frames.find? k = some g := by
    intro k g hg
    rw [OrdMap.find?_filterKeys] at hg
    split_ifs at hg with hk
    exact ⟨of_decide_eq_true hk, hg⟩
  apply Stored.find
  · refine ⟨hhistory, ?_, ?_, ?_, ?_⟩
    · intro k g hg
      exact h.valid k g (hget k g hg).2
    · intro k g hg last hlast
      obtain ⟨hlt, hfind⟩ := hget k g hg
      exact hlater last hlast k hlt (by rw [hfind]; rfl)
    · intro k g hg
      exact h.bound k g (hget k g hg).2
    · exact (length_filter_le _ _).trans h.size
  · intro k g hg hcont
    obtain ⟨-, hfind⟩ := hget k g hg
    apply h.closed k g hfind
    apply all_eq_true.mpr
    intro r hr
    rcases Bool.or_eq_true_iff.mp (all_eq_true.mp hcont r hr) with hdec | hstored
    · exact Bool.or_eq_true_iff.mpr (hdecoded r hdec)
    · change ((b.frames.filterKeys _).find? r).any FrameInfo.continuous = true at hstored
      cases he : (b.frames.filterKeys fun id => decide (unit.lastFrame < id)).find? r with
      | none =>
        rw [he] at hstored
        cases hstored
      | some e =>
        rw [he] at hstored
        rw [(hget r e he).2]
        exact Bool.or_eq_true_iff.mpr (.inr hstored)

theorem Sound.dropNextDecodableTemporalUnit (h : b.Sound decoded) :
    b.dropNextDecodableTemporalUnit.Sound decoded := by
  unfold FrameBuffer.dropNextDecodableTemporalUnit
  cases b.nextDecodableTemporalUnit with
  | none => exact h
  | some unit =>
    refine h.eraseUnit unit _ h.history ?_ fun r hr => .inl hr
    intro last hlast id _ hsome
    obtain ⟨f, hf⟩ := isSome_iff_exists.mp hsome
    exact h.later id f hf last hlast

theorem ensures_insertAll {frames : List FrameEntry}
    (h : history.Remembers decoded) (hsorted : frames.Pairwise fun a b => a.1 < b.1)
    (hinner : ∀ f ∈ frames, DecodedFramesHistory.Inner f.1)
    (hlater : ∀ last, history.lastFrameId = some last → ∀ f ∈ frames, last < f.1) :
    Ensures (frames.foldlM
      (fun history f => history.insertDecoded f.1 f.2.encodedFrame.rtpTimestamp) history)
      fun history' => history'.Remembers (decoded ∪ { id | id ∈ frames.map Prod.fst }) ∧
        history'.size = history.size ∧
        history'.lastFrameId = (frames.getLast?.map Prod.fst).or history.lastFrameId := by
  induction frames generalizing history decoded with
  | nil => exact .some ⟨by simpa using h, rfl, rfl⟩
  | cons f frames ih =>
    obtain ⟨hfirst, hrest⟩ := pairwise_cons.mp hsorted
    rw [foldlM_cons]
    refine (h.ensures_insertDecoded f.2.encodedFrame.rtpTimestamp (hinner f mem_cons_self)
      fun last hlast => hlater last hlast f mem_cons_self).bind
      fun history₁ ⟨hremembers, hlast, hsize⟩ => ?_
    refine (ih hremembers hrest (fun g hg => hinner g (mem_cons_of_mem f hg)) ?_).mono
      fun history₂ ⟨hremembers₂, hsize₂, hlast₂⟩ => ⟨?_, hsize₂.trans hsize, ?_⟩
    · intro last hlast' g hg
      rw [hlast] at hlast'
      cases hlast'
      exact hfirst g hg
    · have hset : insert f.1 decoded ∪ { id | id ∈ frames.map Prod.fst } =
          decoded ∪ { id | id ∈ (f :: frames).map Prod.fst } := by
        ext x
        simp only [Set.mem_union, Set.mem_insert_iff, Set.mem_ofPred_eq, map_cons, mem_cons]
        tauto
      rw [← hset]
      exact hremembers₂
    · rw [hlast₂, hlast, List.getLast?_cons]
      cases frames.getLast? <;> rfl

theorem DecodableRun.unitFrames {before run after : List FrameEntry} {first last : FrameEntry}
    (h : DecodableRun b before run after last) (hfirst : run.head? = some first) :
    b.unitFrames ⟨first.1, last.1⟩ = run := by
  obtain ⟨hsorted, hbefore, hafter⟩ := h.sorted
  obtain ⟨tail, rfl⟩ := List.head?_eq_some_iff.mp hfirst
  obtain ⟨front, hfront⟩ := List.getLast?_eq_some_iff.mp h.ends
  have hlast : last ∈ first :: tail := mem_of_getLast? h.ends
  have hle : ∀ f ∈ first :: tail, first.1 ≤ f.1 := by
    intro f hf
    rcases mem_cons.mp hf with rfl | hf
    · exact le_rfl
    · exact ((pairwise_cons.mp hsorted).1 f hf).le
  have hge : ∀ f ∈ first :: tail, f.1 ≤ last.1 := by
    intro f hf
    rw [hfront] at hf hsorted
    rcases mem_append.mp hf with hf | hf
    · exact ((pairwise_append.mp hsorted).2.2 f hf last mem_cons_self).le
    · rw [mem_singleton.mp hf]
  have hnone : before.filter (fun f => decide (first.1 ≤ f.1 ∧ f.1 ≤ last.1)) = [] := by
    apply filter_eq_nil_iff.mpr
    intro e he
    have := hbefore e he first mem_cons_self
    simp only [decide_eq_true_eq]
    omega
  have hall : (first :: tail).filter (fun f => decide (first.1 ≤ f.1 ∧ f.1 ≤ last.1)) =
      first :: tail :=
    filter_eq_self.mpr fun f hf => decide_eq_true ⟨hle f hf, hge f hf⟩
  have hnone' : after.filter (fun f => decide (first.1 ≤ f.1 ∧ f.1 ≤ last.1)) = [] := by
    apply filter_eq_nil_iff.mpr
    intro e he
    have := hafter e he last hlast
    simp only [decide_eq_true_eq]
    omega
  rw [FrameBuffer.unitFrames, h.stored, filter_append, filter_append, hnone, hall, hnone',
    nil_append, append_nil]

/-- What is extracted: frames of one timestamp, with larger ids than all before and in their order,
whose references are decoded and remembered or come before them in the unit. -/
structure Extracted (b : FrameBuffer) (decoded : Set Int) (frames : List EncodedFrame) : Prop where
  oneTimestamp : ∀ f ∈ frames, ∀ g ∈ frames, f.rtpTimestamp = g.rtpTimestamp
  increasing : frames.Pairwise fun f g => f.id < g.id
  later : ∀ f ∈ frames, ∀ d ∈ decoded, d < f.id
  references : ∀ f ∈ frames, ∀ r ∈ f.references,
    (r ∈ decoded ∧ ∃ last, b.decodedFrameHistory.lastFrameId = some last ∧
      last - b.decodedFrameHistory.size < r) ∨
    ∃ g ∈ frames, g.id = r ∧ g.id < f.id

theorem Sound.extracted (h : b.Sound decoded) {before run after : List FrameEntry}
    {last : FrameEntry} (hrun : DecodableRun b before run after last) :
    b.Extracted decoded (run.map fun f => f.2.encodedFrame) := by
  obtain ⟨hsorted, -, -⟩ := hrun.sorted
  have hid : ∀ f ∈ run, f.2.encodedFrame.id = f.1 := fun f hf =>
    (h.valid f.1 f.2 (hrun.find? hf)).1
  refine ⟨?_, ?_, ?_, ?_⟩
  · intro f hf g hg
    obtain ⟨f', hf', rfl⟩ := mem_map.mp hf
    obtain ⟨g', hg', rfl⟩ := mem_map.mp hg
    rw [hrun.together.same f' hf', hrun.together.same g' hg']
  · apply pairwise_map.mpr
    refine hsorted.imp_of_mem fun {f g} hf hg hlt => ?_
    rw [hid f hf, hid g hg]
    exact hlt
  · intro f hf d hd
    obtain ⟨f', hf', rfl⟩ := mem_map.mp hf
    rw [hid f' hf']
    cases hlast : b.decodedFrameHistory.lastFrameId with
    | none =>
      rw [(h.history.nothing hlast).1] at hd
      exact absurd hd (Set.notMem_empty d)
    | some l =>
      exact ((h.history.last l hlast).2.2 d hd).trans_lt (h.later f'.1 f'.2 (hrun.find? hf') l hlast)
  · intro f hf r hr
    obtain ⟨f', hf', rfl⟩ := mem_map.mp hf
    have hfind := hrun.find? hf'
    have hdecodable := all_eq_true.mp (all_eq_true.mp hrun.decodable f' hf') r
      (by rwa [h.getReferences hfind])
    rcases Bool.or_eq_true_iff.mp hdecodable with hdec | hin
    · exact .inl (h.history.wasDecoded_iff.mp hdec)
    · rw [contains_iff_mem] at hin
      obtain ⟨e, he, rfl⟩ := mem_map.mp hin
      refine .inr ⟨e.2.encodedFrame, mem_map_of_mem he, hid e he, ?_⟩
      rw [hid e he, hid f' hf']
      exact (h.valid f'.1 f'.2 hfind).2.2.1 e.1 hr

theorem Sound.ensures_extract (h : b.Sound decoded) :
    Ensures b.extractNextDecodableTemporalUnit fun result =>
      b.Extracted decoded result.1 ∧ result.2.maxSize = b.maxSize ∧
        result.2.Sound (decoded ∪ { id | id ∈ result.1.map EncodedFrame.id }) := by
  unfold extractNextDecodableTemporalUnit
  cases hnext : b.nextDecodableTemporalUnit with
  | none => exact .some ⟨⟨nofun, List.Pairwise.nil, nofun, nofun⟩, rfl, by simpa using h⟩
  | some unit =>
    obtain ⟨before, run, after, first, last, hrun, hfirst, rfl⟩ :=
      exists_run_of_decodableUnits (h.next ▸ hnext)
    dsimp only
    rw [hrun.unitFrames hfirst]
    obtain ⟨hsorted, -, -⟩ := hrun.sorted
    have hcontinuous := hrun.continuous h.toStored h.closed
    have hids : run.map Prod.fst = (run.map fun f => f.2.encodedFrame).map EncodedFrame.id := by
      rw [List.map_map]
      apply List.map_congr_left
      intro f hf
      exact ((h.valid f.1 f.2 (hrun.find? hf)).1).symm
    refine (ensures_insertAll h.history hsorted ?_ ?_).bind
      fun history ⟨hremembers, hsize, hlast⟩ => .some ⟨h.extracted hrun, rfl, ?_⟩
    · intro f hf
      exact (h.valid f.1 f.2 (hrun.find? hf)).2.1
    · intro l hl f hf
      exact h.later f.1 f.2 (hrun.find? hf) l hl
    · rw [hrun.ends] at hlast
      rw [← hids]
      refine h.eraseUnit _ _ hremembers ?_ ?_
      · intro l hl id hlt _
        rw [hlast] at hl
        cases hl
        exact hlt
      · intro r hr
        obtain ⟨hmem, l, hl, hwindow⟩ := hremembers.wasDecoded_iff.mp hr
        rw [hlast] at hl
        cases hl
        rw [hsize] at hwindow
        rcases hmem with hmem | hmem
        · left
          refine h.history.wasDecoded_iff.mpr ⟨hmem, ?_⟩
          cases hold : b.decodedFrameHistory.lastFrameId with
          | none =>
            rw [(h.history.nothing hold).1] at hmem
            exact absurd hmem (Set.notMem_empty r)
          | some l =>
            have hlt := h.later last.1 last.2 (hrun.find? (mem_of_getLast? hrun.ends)) l hold
            exact ⟨l, rfl, by omega⟩
        · right
          obtain ⟨e, he, rfl⟩ := List.mem_map.mp hmem
          rw [hrun.find? he]
          exact hcontinuous e he

end FrameBuffer

/-! Runs, with the ids that were extracted since the buffer was last cleared. -/

structure FrameRun where
  buffer : FrameBuffer
  extracted : Set Int

inductive FrameOp
  | insertFrame (frame : EncodedFrame)
  | extractNextDecodableTemporalUnit
  | dropNextDecodableTemporalUnit
  | clear

namespace FrameRun

def step (r : FrameRun) : FrameOp → Option FrameRun
  | .insertFrame frame => some
    { buffer := (r.buffer.insertFrame frame).2
      extracted := if r.buffer.clearsFor frame then ∅ else r.extracted }
  | .extractNextDecodableTemporalUnit =>
    r.buffer.extractNextDecodableTemporalUnit.map fun result =>
      { buffer := result.2
        extracted := r.extracted ∪ { id | id ∈ result.1.map EncodedFrame.id } }
  | .dropNextDecodableTemporalUnit =>
    some { r with buffer := r.buffer.dropNextDecodableTemporalUnit }
  | .clear => some ⟨r.buffer.clear, ∅⟩

def wellFormed : FrameOp → Prop
  | .insertFrame frame => frame.references.length ≤ kMaxFrameReferences
  | _ => True

def roomy (r : FrameRun) : FrameOp → Prop
  | .insertFrame frame => DecodedFramesHistory.Inner frame.id ∧ r.buffer.maxSize ≠ 0
  | _ => True

structure Decodes (r : FrameRun) : Prop where
  extract : ∃ frames buffer,
    r.buffer.extractNextDecodableTemporalUnit = some (frames, buffer) ∧
      r.buffer.Extracted r.extracted frames
  offered : ∀ before run after last, r.buffer.DecodableRun before run after last →
    r.buffer.nextDecodableTemporalUnit.isSome
  size : r.buffer.frames.entries.length ≤ r.buffer.maxSize

theorem decodes_of_sound {r : FrameRun} (h : r.buffer.Sound r.extracted) : r.Decodes := by
  obtain ⟨⟨frames, buffer⟩, hextract, hextracted, -⟩ := h.ensures_extract
  refine ⟨⟨frames, buffer, hextract, hextracted⟩, ?_, h.size⟩
  intro before run after last hrun
  rw [h.next, isSome_map]
  exact hrun.offered h.toStored h.closed

end FrameRun

def frameMachine : Machine FrameRun FrameOp where
  initial r := ∃ maxSize k legacy, k ≤ 62 ∧ r = ⟨.create maxSize (2 ^ k) legacy, ∅⟩
  enabled _ op := FrameRun.wellFormed op
  step := FrameRun.step

theorem frame_sound_step {r : FrameRun} {op : FrameOp} (h : r.buffer.Sound r.extracted)
    (hop : FrameRun.wellFormed op) (hroomy : r.roomy op) :
    Ensures (r.step op) fun r' => r'.buffer.Sound r'.extracted := by
  cases op with
  | insertFrame frame => exact .some (h.insertFrame hroomy.2 hroomy.1 hop).1
  | extractNextDecodableTemporalUnit =>
    obtain ⟨result, hextract, -, -, hsound⟩ := h.ensures_extract
    exact ⟨_, by rw [FrameRun.step, hextract]; rfl, hsound⟩
  | dropNextDecodableTemporalUnit => exact .some h.dropNextDecodableTemporalUnit
  | clear => exact .some h.toStored.clear

theorem frame_sound_initial (maxSize : Nat) {k : Nat} (hk : k ≤ 62) (legacy : Bool) :
    (FrameBuffer.create maxSize (2 ^ k) legacy).Sound ∅ where
  history := DecodedFramesHistory.remembers_create hk
  valid := nofun
  later := nofun
  bound := nofun
  size := Nat.zero_le _
  closed := nofun
  next := rfl

/-- In a run that keeps to inner ids and has room for a frame, units are decodable and no check
fails. -/
theorem frameBuffer_decodes {r : FrameRun} (h : (frameMachine.restrict FrameRun.roomy).Reachable r) :
    r.Decodes ∧ ∀ op, FrameRun.wellFormed op → r.roomy op → (r.step op).isSome := by
  obtain ⟨hsound, hstep⟩ := h.invariant (I := fun r => r.buffer.Sound r.extracted)
    (by
      rintro r ⟨maxSize, k, legacy, hk, rfl⟩
      exact frame_sound_initial maxSize hk legacy)
    fun r op hr (he : FrameRun.wellFormed op ∧ r.roomy op) => frame_sound_step hr he.1 he.2
  refine ⟨FrameRun.decodes_of_sound hsound, fun op hop hroomy => ?_⟩
  obtain ⟨r', hr', -⟩ := hstep op ⟨hop, hroomy⟩
  exact isSome_of_eq_some hr'

theorem frameBuffer_decodes_key : ∃ r, (frameMachine.restrict FrameRun.roomy).Reachable r ∧
      r.buffer.nextDecodableTemporalUnit = some ⟨5, 5⟩ ∧ r.Decodes := by
  have h0 : (frameMachine.restrict FrameRun.roomy).Reachable ⟨.create 2 (2 ^ 3) true, ∅⟩ :=
    .initial ⟨2, 3, true, by decide, rfl⟩
  have hop : (frameMachine.restrict FrameRun.roomy).enabled ⟨.create 2 (2 ^ 3) true, ∅⟩
      (.insertFrame ⟨5, 900, [], true⟩) :=
    ⟨show 0 ≤ 5 by decide, ⟨by decide, by decide⟩, by decide⟩
  have h := h0.step hop rfl
  exact ⟨_, h, rfl, (frameBuffer_decodes h).1⟩

/-- A buffer without room stores a key frame. -/
theorem frameBuffer_overfull_empty : ∃ r, frameMachine.Reachable r ∧ ¬ r.Decodes := by
  have h0 : frameMachine.Reachable ⟨.create 0 (2 ^ 3) true, ∅⟩ :=
    .initial ⟨0, 3, true, by decide, rfl⟩
  have hop : frameMachine.enabled ⟨.create 0 (2 ^ 3) true, ∅⟩
      (.insertFrame ⟨5, 900, [], true⟩) := show 0 ≤ 5 by decide
  have h := h0.step hop rfl
  exact ⟨_, h, fun hdecodes => absurd hdecodes.size (by decide)⟩

end WebRtc.Video
