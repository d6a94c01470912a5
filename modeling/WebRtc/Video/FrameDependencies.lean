import WebRtc.Lib.Checked

/-! The dependencies of frames by the codec buffers they use
(`frame_dependencies_calculator.cc`). A call drops the direct dependencies that are dependencies of
another one, one level deep; no dependency is lost by this. -/

namespace WebRtc.Video

open List

theorem transGen_of_reduced {α : Type} {r s : α → α → Prop} (rank : α → Int)
    (hr : ∀ a b, r a b → rank b < rank a)
    (hs : ∀ a b, s a b ↔ r a b ∧ ¬ ∃ c, r a c ∧ r c b) (a b : α) :
    Relation.TransGen s a b ↔ Relation.TransGen r a b := by
  have hedge : ∀ n : Nat, ∀ a b, (rank a - rank b).toNat = n → r a b → Relation.TransGen s a b := by
    intro n
    induction n using Nat.strong_induction_on with
    | _ n ih =>
      intro a b hn hab
      by_cases hc : ∃ c, r a c ∧ r c b
      · obtain ⟨c, hac, hcb⟩ := hc
        have h₁ := hr a c hac
        have h₂ := hr c b hcb
        exact (ih _ (by omega) a c rfl hac).trans (ih _ (by omega) c b rfl hcb)
      · exact .single ((hs a b).mpr ⟨hab, hc⟩)
  constructor
  · exact Relation.TransGen.mono (fun x y hxy => ((hs x y).mp hxy).1) a b
  · intro h
    induction h with
    | single hab => exact hedge _ _ _ rfl hab
    | tail _ hbc ih => exact ih.trans (hedge _ _ _ rfl hbc)

structure CodecBufferUsage where
  id : Int
  referenced : Bool
  updated : Bool
  deriving DecidableEq

structure BufferUsage where
  frameId : Option Int
  dependencies : Finset Int

def addReference (buffers : Nat → BufferUsage) (found : Finset Int × Finset Int)
    (usage : CodecBufferUsage) : Finset Int × Finset Int :=
  if usage.referenced then
    match (buffers usage.id.toNat).frameId with
    | none => found
    | some frameId =>
      (insert frameId found.1, found.2 ∪ (buffers usage.id.toNat).dependencies)
  else found

def updateBuffer (frameId : Int) (direct : Finset Int) (buffers : Nat → BufferUsage)
    (usage : CodecBufferUsage) : Nat → BufferUsage :=
  if usage.updated then Function.update buffers usage.id.toNat ⟨some frameId, direct⟩ else buffers

def fromBuffersUsage (buffers : Nat → BufferUsage) (frameId : Int)
    (buffersUsage : List CodecBufferUsage) : Option (List Int × (Nat → BufferUsage)) := do
  guard (buffersUsage ≠ [])
  guard (∀ usage ∈ buffersUsage, 0 ≤ usage.id)
  let found := buffersUsage.foldl (addReference buffers) (∅, ∅)
  return ((found.1 \ found.2).sort (· ≤ ·),
    buffersUsage.foldl (updateBuffer frameId found.1) buffers)

theorem mem_addReferences (buffers : Nat → BufferUsage) (usages : List CodecBufferUsage)
    (found : Finset Int × Finset Int) (g : Int) :
    (g ∈ (usages.foldl (addReference buffers) found).1 ↔ g ∈ found.1 ∨
      ∃ u ∈ usages, u.referenced = true ∧ (buffers u.id.toNat).frameId = some g) ∧
    (g ∈ (usages.foldl (addReference buffers) found).2 ↔ g ∈ found.2 ∨
      ∃ u ∈ usages, u.referenced = true ∧ ∃ f, (buffers u.id.toNat).frameId = some f ∧
        g ∈ (buffers u.id.toNat).dependencies) := by
  induction usages generalizing found with
  | nil => simp
  | cons u us ih =>
    rw [foldl_cons, (ih _).1, (ih _).2, addReference]
    by_cases hr : u.referenced = true
    · cases hb : (buffers u.id.toNat).frameId with
      | none => simp [hr, hb]
      | some f =>
        simp only [hr, if_true, hb, Finset.mem_insert, Finset.mem_union, exists_mem_cons_iff,
          true_and, Option.some_inj, eq_comm (a := f), exists_eq_left]
        constructor <;> tauto
    · simp [hr]

theorem updateBuffers_apply (frameId : Int) (direct : Finset Int) (buffers : Nat → BufferUsage)
    (usages : List CodecBufferUsage) (i : Nat) :
    usages.foldl (updateBuffer frameId direct) buffers i =
      if ∃ u ∈ usages, u.updated = true ∧ u.id.toNat = i then ⟨some frameId, direct⟩
      else buffers i := by
  induction usages generalizing buffers with
  | nil => simp
  | cons u us ih =>
    rw [foldl_cons, ih, updateBuffer]
    by_cases hrest : ∃ u ∈ us, u.updated = true ∧ u.id.toNat = i
    · rw [if_pos hrest, if_pos (exists_mem_cons_iff .. |>.mpr (.inr hrest))]
    · rw [if_neg hrest]
      by_cases hu : u.updated = true ∧ u.id.toNat = i
      · rw [if_pos hu.1, if_pos ⟨u, mem_cons_self, hu⟩, ← hu.2, Function.update_self]
      · have hno : ¬ ∃ u' ∈ u :: us, u'.updated = true ∧ u'.id.toNat = i := by
          rw [exists_mem_cons_iff]
          exact not_or.mpr ⟨hu, hrest⟩
        rw [if_neg hno]
        split
        · next h => exact Function.update_of_ne (fun he => hu ⟨h, he.symm⟩) ..
        · rfl

structure DependencyCall where
  frameId : Int
  buffersUsage : List CodecBufferUsage
  dependencies : List Int

def lastUpdate : List DependencyCall → Int → Option Int
  | [], _ => none
  | c :: cs, id =>
    if ∃ u ∈ c.buffersUsage, u.updated = true ∧ u.id = id then some c.frameId else lastUpdate cs id

/-- Frame `f` referenced a buffer whose last update before it was by frame `g`. -/
def References : List DependencyCall → Int → Int → Prop
  | [], _, _ => False
  | c :: cs, f, g =>
    (c.frameId = f ∧ ∃ u ∈ c.buffersUsage, u.referenced = true ∧ lastUpdate cs u.id = some g) ∨
      References cs f g

def Returned (calls : List DependencyCall) (f g : Int) : Prop :=
  ∃ c ∈ calls, c.frameId = f ∧ g ∈ c.dependencies

structure DependencyState where
  buffers : Nat → BufferUsage
  calls : List DependencyCall

structure DependencyOp where
  frameId : Int
  buffersUsage : List CodecBufferUsage

def dependencyMachine : Machine DependencyState DependencyOp where
  initial s := s = ⟨fun _ => ⟨none, ∅⟩, []⟩
  enabled s op := ∀ c ∈ s.calls, c.frameId < op.frameId
  step s op := do
    let (dependencies, buffers) ← fromBuffersUsage s.buffers op.frameId op.buffersUsage
    return ⟨buffers, ⟨op.frameId, op.buffersUsage, dependencies⟩ :: s.calls⟩

def Increasing (calls : List DependencyCall) : Prop :=
  calls.Pairwise fun newer older => older.frameId < newer.frameId

theorem lastUpdate_mem {calls : List DependencyCall} {id g : Int}
    (h : lastUpdate calls id = some g) : ∃ c ∈ calls, c.frameId = g := by
  induction calls with
  | nil => cases h
  | cons c cs ih =>
    rw [lastUpdate] at h
    split at h
    · exact ⟨c, mem_cons_self, by simpa using h⟩
    · obtain ⟨c', hc', he⟩ := ih h
      exact ⟨c', mem_cons_of_mem _ hc', he⟩

theorem References.mem {calls : List DependencyCall} {f g : Int} (h : References calls f g) :
    ∃ c ∈ calls, c.frameId = f := by
  induction calls with
  | nil => cases h
  | cons c cs ih =>
    rcases h with ⟨hf, _⟩ | h
    · exact ⟨c, mem_cons_self, hf⟩
    · obtain ⟨c', hc', he⟩ := ih h
      exact ⟨c', mem_cons_of_mem _ hc', he⟩

theorem References.earlier {calls : List DependencyCall} (hi : Increasing calls) {f g : Int}
    (h : References calls f g) : g < f ∧ ∃ c ∈ calls, c.frameId = g := by
  induction calls with
  | nil => cases h
  | cons c cs ih =>
    obtain ⟨hnew, hold⟩ := pairwise_cons.mp hi
    rcases h with ⟨rfl, u, _, _, hu⟩ | h
    · obtain ⟨c', hc', rfl⟩ := lastUpdate_mem hu
      exact ⟨hnew c' hc', c', mem_cons_of_mem _ hc', rfl⟩
    · obtain ⟨hlt, c', hc', he⟩ := ih hold h
      exact ⟨hlt, c', mem_cons_of_mem _ hc', he⟩

section Step

variable {c : DependencyCall} {cs : List DependencyCall} (hnew : ∀ c' ∈ cs, c'.frameId < c.frameId)

include hnew

theorem references_new (g : Int) : References (c :: cs) c.frameId g ↔
    ∃ u ∈ c.buffersUsage, u.referenced = true ∧ lastUpdate cs u.id = some g := by
  refine ⟨?_, fun h => .inl ⟨rfl, h⟩⟩
  rintro (⟨_, h⟩ | h)
  · exact h
  · obtain ⟨c', hc', he⟩ := h.mem
    exact absurd he (hnew c' hc').ne

omit hnew in
theorem references_old {f : Int} (hf : f ≠ c.frameId) (g : Int) :
    References (c :: cs) f g ↔ References cs f g :=
  ⟨fun h => h.resolve_left fun h => hf h.1.symm, .inr⟩

end Step

/-- The buffers know the last update and the references of the frame that made it, and a call
returned the references of its frame that no other one splits. -/
structure DependencyState.Sound (s : DependencyState) : Prop where
  increasing : Increasing s.calls
  updates : ∀ id : Int, 0 ≤ id → (s.buffers id.toNat).frameId = lastUpdate s.calls id
  dependencies : ∀ i g, (s.buffers i).frameId = some g →
    ∀ d, d ∈ (s.buffers i).dependencies ↔ References s.calls g d
  updated : ∀ i g, (s.buffers i).frameId = some g → ∃ c ∈ s.calls, c.frameId = g
  returned : ∀ f g, Returned s.calls f g ↔
    References s.calls f g ∧ ¬ ∃ h, References s.calls f h ∧ References s.calls h g
  sorted : ∀ c ∈ s.calls, c.dependencies.Pairwise (· < ·)

theorem DependencyState.Sound.initial : Sound ⟨fun _ => ⟨none, ∅⟩, []⟩ where
  increasing := .nil
  updates _ _ := rfl
  dependencies _ _ h := by cases h
  updated _ _ h := by cases h
  returned f g := by simp [Returned, References]
  sorted := by simp

namespace DependencyState.Sound

variable {s : DependencyState} (hs : s.Sound) {c : DependencyCall}
  (hnew : ∀ c' ∈ s.calls, c'.frameId < c.frameId) (hids : ∀ u ∈ c.buffersUsage, 0 ≤ u.id)

include hs hnew hids

theorem mem_direct (g : Int) : g ∈ (c.buffersUsage.foldl (addReference s.buffers) (∅, ∅)).1 ↔
      References (c :: s.calls) c.frameId g := by
  rw [(mem_addReferences _ _ _ _).1, references_new hnew]
  simp only [Finset.notMem_empty, false_or]
  refine exists_congr fun u => and_congr_right fun hu => and_congr_right fun _ => ?_
  rw [hs.updates u.id (hids u hu)]

theorem mem_indirect (d : Int) : d ∈ (c.buffersUsage.foldl (addReference s.buffers) (∅, ∅)).2 ↔
      ∃ g, References (c :: s.calls) c.frameId g ∧ References (c :: s.calls) g d := by
  rw [(mem_addReferences _ _ _ _).2]
  simp only [Finset.notMem_empty, false_or, references_new hnew]
  constructor
  · rintro ⟨u, hu, hr, g, hg, hd⟩
    refine ⟨g, ⟨u, hu, hr, by rw [← hs.updates u.id (hids u hu), hg]⟩, .inr ?_⟩
    exact (hs.dependencies _ g hg d).mp hd
  · rintro ⟨g, ⟨u, hu, hr, hg⟩, hd⟩
    obtain ⟨c', hc', he⟩ := lastUpdate_mem hg
    rw [← hs.updates u.id (hids u hu)] at hg
    have hne : g ≠ c.frameId := he ▸ (hnew c' hc').ne
    exact ⟨u, hu, hr, g, hg, (hs.dependencies _ g hg d).mpr ((references_old hne d).mp hd)⟩

theorem call {direct indirect : Finset Int}
    (hfound : c.buffersUsage.foldl (addReference s.buffers) (∅, ∅) = (direct, indirect))
    (hdeps : c.dependencies = (direct \ indirect).sort (· ≤ ·)) :
    Sound ⟨c.buffersUsage.foldl (updateBuffer c.frameId direct) s.buffers, c :: s.calls⟩ where
  increasing := pairwise_cons.mpr ⟨hnew, hs.increasing⟩
  updates id hid := by
    dsimp only
    rw [updateBuffers_apply, lastUpdate]
    have hiff : (∃ u ∈ c.buffersUsage, u.updated = true ∧ u.id.toNat = id.toNat) ↔
        ∃ u ∈ c.buffersUsage, u.updated = true ∧ u.id = id := by
      refine exists_congr fun u => and_congr_right fun hu => and_congr_right fun _ => ?_
      have := hids u hu
      omega
    by_cases h : ∃ u ∈ c.buffersUsage, u.updated = true ∧ u.id = id
    · rw [if_pos (hiff.mpr h), if_pos h]
    · rw [if_neg (mt hiff.mp h), if_neg h, hs.updates id hid]
  dependencies i g hg d := by
    dsimp only at hg ⊢
    rw [updateBuffers_apply] at hg ⊢
    split at hg
    · next h =>
      obtain rfl : c.frameId = g := by simpa using hg
      rw [if_pos h, ← hs.mem_direct hnew hids, hfound]
    · next h =>
      obtain ⟨c', hc', he⟩ := hs.updated i g hg
      rw [if_neg h, references_old (he ▸ (hnew c' hc').ne)]
      exact hs.dependencies i g hg d
  updated i g hg := by
    dsimp only at hg
    rw [updateBuffers_apply] at hg
    split at hg
    · exact ⟨c, mem_cons_self, by simpa using hg⟩
    · obtain ⟨c', hc', he⟩ := hs.updated i g hg
      exact ⟨c', mem_cons_of_mem _ hc', he⟩
  returned f g := by
    by_cases hf : f = c.frameId
    · subst hf
      have hret : Returned (c :: s.calls) c.frameId g ↔ g ∈ c.dependencies := by
        refine ⟨?_, fun h => ⟨c, mem_cons_self, rfl, h⟩⟩
        rintro ⟨c', hc', he, hg⟩
        rcases mem_cons.mp hc' with rfl | hc'
        · exact hg
        · exact absurd he (hnew c' hc').ne
      rw [hret, hdeps, Finset.mem_sort, Finset.mem_sdiff, ← hs.mem_direct hnew hids,
        ← hs.mem_indirect hnew hids, hfound]
    · have hret : Returned (c :: s.calls) f g ↔ Returned s.calls f g := by
        refine ⟨?_, fun ⟨c', hc', h⟩ => ⟨c', mem_cons_of_mem _ hc', h⟩⟩
        rintro ⟨c', hc', he, hg⟩
        rcases mem_cons.mp hc' with rfl | hc'
        · exact absurd he.symm hf
        · exact ⟨c', hc', he, hg⟩
      have hsplit : (∃ h, References (c :: s.calls) f h ∧ References (c :: s.calls) h g) ↔
          ∃ h, References s.calls f h ∧ References s.calls h g := by
        refine exists_congr fun h => ?_
        rw [references_old hf]
        refine and_congr_right fun hfh => references_old ?_ g
        obtain ⟨_, c', hc', he⟩ := hfh.earlier hs.increasing
        exact he ▸ (hnew c' hc').ne
      rw [hret, hs.returned, references_old hf, hsplit]
  sorted c' hc' := by
    rcases mem_cons.mp hc' with rfl | hc'
    · rw [hdeps]
      exact Finset.sortedLT_sort _ |>.pairwise
    · exact hs.sorted c' hc'

end DependencyState.Sound

theorem dependencyMachine_sound {s : DependencyState} (h : dependencyMachine.Reachable s) :
    s.Sound := by
  refine h.preserved (I := DependencyState.Sound) ?_ fun s op s' hs hnew hstep => ?_
  · rintro s rfl
    exact .initial
  · obtain ⟨⟨deps, buffers⟩, hrun, he⟩ := Option.bind_eq_some_iff.mp hstep
    cases he
    rw [fromBuffersUsage] at hrun
    obtain ⟨_, _, hrun⟩ := Option.bind_eq_some_iff.mp hrun
    obtain ⟨_, hg, hrun⟩ := Option.bind_eq_some_iff.mp hrun
    have hids : ∀ u ∈ op.buffersUsage, 0 ≤ u.id := by
      by_contra hno
      simp [guard, hno] at hg
    cases hrun
    exact hs.call (c := ⟨op.frameId, op.buffersUsage, _⟩) hnew hids rfl rfl

/-- The returned lists have the closure of all the references, and each is increasing and names
frames of earlier calls. -/
theorem returned_dependencies_complete {s : DependencyState} (h : dependencyMachine.Reachable s) :
    (∀ f g, Relation.TransGen (Returned s.calls) f g ↔ Relation.TransGen (References s.calls) f g) ∧
    ∀ c ∈ s.calls, c.dependencies.Pairwise (· < ·) ∧
      ∀ g ∈ c.dependencies, g < c.frameId ∧ ∃ c' ∈ s.calls, c'.frameId = g := by
  have hs := dependencyMachine_sound h
  refine ⟨transGen_of_reduced id (fun f g hr => (hr.earlier hs.increasing).1) hs.returned,
    fun c hc => ⟨hs.sorted c hc, fun g hg => ?_⟩⟩
  exact ((hs.returned _ _).mp ⟨c, hc, rfl, hg⟩).1.earlier hs.increasing

instance (s : DependencyState) (op : DependencyOp) : Decidable (dependencyMachine.enabled s op) :=
  inferInstanceAs (Decidable (∀ c ∈ s.calls, c.frameId < op.frameId))

def threeFrames : List DependencyOp :=
  [⟨1, [⟨0, false, true⟩]⟩, ⟨2, [⟨0, true, false⟩, ⟨1, false, true⟩]⟩,
    ⟨3, [⟨0, true, false⟩, ⟨1, true, false⟩]⟩]

theorem returned_dependencies_complete_three :
    ∃ s, dependencyMachine.Reachable s ∧ s.calls.map (·.dependencies) = [[2], [1], []] ∧
      (∀ f g, Relation.TransGen (Returned s.calls) f g ↔
        Relation.TransGen (References s.calls) f g) := by
  have hrun : (dependencyMachine.run ⟨fun _ => ⟨none, ∅⟩, []⟩ threeFrames).any
      (fun s => decide (s.calls.map (·.dependencies) = [[2], [1], []])) = true := by decide +kernel
  obtain ⟨s, hr, hd⟩ := Option.any_eq_true .. |>.mp hrun
  have hreach := Machine.Reachable.run (.initial rfl) hr
  exact ⟨s, hreach, of_decide_eq_true hd, (returned_dependencies_complete hreach).1⟩

end WebRtc.Video
