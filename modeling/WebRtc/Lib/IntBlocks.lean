import Mathlib

/-! Sets of integers held as a list of inclusive blocks that are nonempty,
increasing and neither overlap nor touch. -/

structure IntBlock where
  first : Int
  last : Int
  deriving DecidableEq, Repr

namespace IntBlock

def covered (bs : List IntBlock) : Set Int := {t | ∃ b ∈ bs, b.first ≤ t ∧ t ≤ b.last}

/-- Every block lies above `lo`, with a missing integer before it and before each next block. -/
def Separated : Int → List IntBlock → Prop
  | _, [] => True
  | lo, b :: bs => lo + 2 ≤ b.first ∧ b.first ≤ b.last ∧ Separated b.last bs

@[simp] theorem covered_nil : covered [] = ∅ := by simp [covered]

@[simp] theorem mem_covered_cons {b : IntBlock} {bs : List IntBlock} {t : Int} :
    t ∈ covered (b :: bs) ↔ (b.first ≤ t ∧ t ≤ b.last) ∨ t ∈ covered bs := by
  simp [covered]

theorem Separated.lt_of_mem {lo t : Int} {bs : List IntBlock} (h : Separated lo bs)
    (ht : t ∈ covered bs) : lo + 2 ≤ t := by
  induction bs generalizing lo with
  | nil => simp at ht
  | cons b bs ih =>
    obtain ⟨hf, hl, hs⟩ := h
    rcases mem_covered_cons.mp ht with ht | ht
    · omega
    · have := ih hs ht
      omega

theorem Separated.notMem_next {b : IntBlock} {bs : List IntBlock} (h : Separated b.last bs) {t : Int}
    (ht : t ≤ b.last + 1) : t ∉ covered bs := by
  intro hm
  have := h.lt_of_mem hm
  omega

theorem Separated.pairwise {lo : Int} {bs : List IntBlock} (h : Separated lo bs) :
    bs.Pairwise (fun a b => a.last + 1 < b.first) ∧ ∀ b ∈ bs, lo + 2 ≤ b.first ∧ b.first ≤ b.last := by
  induction bs generalizing lo with
  | nil => simp
  | cons b bs ih =>
    obtain ⟨hf, hl, hs⟩ := h
    obtain ⟨hp, hb⟩ := ih hs
    constructor
    · refine List.pairwise_cons.mpr ⟨fun c hc => ?_, hp⟩
      have := (hb c hc).1
      omega
    · intro c hc
      rcases List.mem_cons.mp hc with rfl | hc
      · exact ⟨hf, hl⟩
      · have := hb c hc
        omega

end IntBlock
