import Mathlib

/-! Numbers in the slots of a ring: a number has the slot of its remainder, and a run of numbers is
a block of slots, or two blocks when it spans across the border. -/

def ringIndex (capacity : Nat) (s : Int) : Nat := (s % capacity).toNat

/-- Write a value to the slots from `first` up to `last`. -/
def fillRange {α : Type} (slots : Nat → α) (x : α) (first last : Nat) : Nat → α :=
  fun i => if first ≤ i ∧ i < last then x else slots i

def fillBlocks {α : Type} (slots : Nat → α) (x : α) (capacity first last : Nat) : Nat → α :=
  if first ≤ last then fillRange slots x first last
  else fillRange (fillRange slots x first capacity) x 0 last

theorem ringIndex_lt {capacity : Nat} (h : 0 < capacity) (s : Int) :
    ringIndex capacity s < capacity := by
  have := Int.emod_lt_of_pos s (show (0 : Int) < capacity by omega)
  have := Int.emod_nonneg s (show (capacity : Int) ≠ 0 by omega)
  unfold ringIndex
  omega

theorem ringIndex_inj {capacity : Nat} {s t : Int} (h : |s - t| < capacity) :
    ringIndex capacity s = ringIndex capacity t ↔ s = t := by
  constructor
  · intro heq
    have hs := Int.emod_nonneg s (show (capacity : Int) ≠ 0 by have := abs_nonneg (s - t); omega)
    have ht := Int.emod_nonneg t (show (capacity : Int) ≠ 0 by have := abs_nonneg (s - t); omega)
    have hmod : s % capacity = t % capacity := by
      unfold ringIndex at heq
      omega
    have hdvd : (capacity : Int) ∣ s - t := Int.ModEq.dvd hmod.symm
    have hzero := Int.eq_zero_of_abs_lt_dvd hdvd h
    omega
  · rintro rfl
    rfl

theorem ringIndex_add {capacity : Nat} (hcapacity : 0 < capacity) (s : Int) {d : Nat}
    (hd : d < capacity) : ringIndex capacity (s + d) =
      if ringIndex capacity s + d < capacity then ringIndex capacity s + d
      else ringIndex capacity s + d - capacity := by
  have hpos : (0 : Int) < capacity := by omega
  have hnonneg := Int.emod_nonneg s hpos.ne'
  have hlt := Int.emod_lt_of_pos s hpos
  have hmod : (s + d) % capacity = (s % capacity + d) % capacity := (Int.emod_add_emod s _ _).symm
  unfold ringIndex
  rw [hmod]
  split_ifs with h
  · rw [Int.emod_eq_of_lt (by omega) (by omega)]
    omega
  · rw [← Int.sub_emod_right, Int.emod_eq_of_lt (by omega) (by omega)]
    omega

theorem fillBlocks_ringIndex {α : Type} {slots : Nat → α} {x : α} {capacity : Nat}
    {first last s : Int}
    (hcapacity : 0 < capacity) (hle : first ≤ last) (hlt : last - first < capacity)
    (hs : last - capacity ≤ s) (hs' : s < first + capacity) :
    fillBlocks slots x capacity (ringIndex capacity first) (ringIndex capacity last)
        (ringIndex capacity s) =
      if first ≤ s ∧ s < last then x else slots (ringIndex capacity s) := by
  obtain ⟨d, rfl⟩ : ∃ d : Nat, last = first + d := ⟨(last - first).toNat, by omega⟩
  -- A number below the window has the slot of the one a whole ring further on.
  obtain ⟨e, he, hindex, hmem⟩ : ∃ e : Nat, e < capacity ∧
      ringIndex capacity s = ringIndex capacity (first + e) ∧
      ((first ≤ s ∧ s < first + d) ↔ e < d) := by
    by_cases hfirst : first ≤ s
    · exact ⟨(s - first).toNat, by omega, by congr; omega, by omega⟩
    · refine ⟨(s + capacity - first).toNat, by omega, ?_, by omega⟩
      unfold ringIndex
      rw [← Int.add_emod_right s]
      congr 2
      omega
  have hd := ringIndex_add hcapacity first (show d < capacity by omega)
  have he' := ringIndex_add hcapacity first he
  have hlt := ringIndex_lt hcapacity first
  rw [fillBlocks, hindex, if_congr hmem rfl rfl]
  generalize ringIndex capacity (first + d) = i at *
  generalize ringIndex capacity (first + e) = j at *
  split_ifs at * <;> simp only [fillRange] <;> split_ifs <;> first | rfl | omega

