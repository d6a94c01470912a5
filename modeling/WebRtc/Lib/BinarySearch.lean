import Mathlib

/-! Binary search for the point up to which a predicate holds, as `std::lower_bound` makes it. -/

namespace WebRtc

open List

variable {α : Type}

/-- The search among `len` elements from `first`, for which `fuel` steps suffice. -/
def lowerBoundLoop (p : α → Bool) (l : List α) : Nat → Nat → Nat → Nat
  | 0, first, _ => first
  | fuel + 1, first, len =>
    if len = 0 then first
    else
      let half := len / 2
      if (l[first + half]?).any p then lowerBoundLoop p l fuel (first + half + 1) (len - half - 1)
      else lowerBoundLoop p l fuel first half

def lowerBoundIndex (p : α → Bool) (l : List α) : Nat := lowerBoundLoop p l l.length 0 l.length

theorem lowerBoundLoop_eq {p : α → Bool} {before after : List α} (hb : ∀ a ∈ before, p a = true)
    (ha : ∀ a ∈ after, p a = false) {fuel first len : Nat} (hfuel : len ≤ fuel)
    (hfirst : first ≤ before.length) (hlen : before.length ≤ first + len)
    (hend : first + len ≤ (before ++ after).length) :
    lowerBoundLoop p (before ++ after) fuel first len = before.length := by
  induction fuel generalizing first len with
  | zero =>
    rw [lowerBoundLoop]
    omega
  | succ fuel ih =>
    rw [lowerBoundLoop]
    by_cases hzero : len = 0
    · rw [if_pos hzero]
      omega
    · rw [if_neg hzero]
      dsimp only
      rw [length_append] at hend
      by_cases hside : first + len / 2 < before.length
      · have hget : ((before ++ after)[first + len / 2]?).any p = true := by
          rw [List.getElem?_append_left hside, List.getElem?_eq_getElem hside, Option.any_some]
          exact hb _ (getElem_mem hside)
        rw [if_pos hget]
        exact ih (by omega) (by omega) (by omega) (by rw [length_append]; omega)
      · have hget : ¬((before ++ after)[first + len / 2]?).any p = true := by
          have hin : first + len / 2 - before.length < after.length := by omega
          rw [List.getElem?_append_right (by omega), List.getElem?_eq_getElem hin, Option.any_some,
            ha _ (getElem_mem hin)]
          decide
        rw [if_neg hget]
        exact ih (by omega) (by omega) (by omega) (by rw [length_append]; omega)

theorem lowerBoundIndex_append {p : α → Bool} {before after : List α} (hb : ∀ a ∈ before, p a = true)
    (ha : ∀ a ∈ after, p a = false) : lowerBoundIndex p (before ++ after) = before.length :=
  lowerBoundLoop_eq hb ha le_rfl (Nat.zero_le _) (by rw [length_append]; omega) (by omega)

theorem lowerBoundIndex_eq {p : α → Bool} {l : List α}
    (h : l.Pairwise fun a b => p b = true → p a = true) :
    lowerBoundIndex p l = (l.takeWhile p).length ∧ ∀ a ∈ l.dropWhile p, p a = false := by
  have hafter : ∀ a ∈ l.dropWhile p, p a = false := by
    induction l with
    | nil => nofun
    | cons x l ih =>
      obtain ⟨hx, hl⟩ := pairwise_cons.mp h
      by_cases hpx : p x = true
      · rw [dropWhile_cons_of_pos hpx]
        exact ih hl
      · rw [dropWhile_cons_of_neg hpx]
        intro a ha
        rcases mem_cons.mp ha with rfl | ha
        · exact Bool.eq_false_iff.mpr hpx
        · exact Bool.eq_false_iff.mpr fun hpa => hpx (hx a ha hpa)
  refine ⟨?_, hafter⟩
  conv_lhs => rw [← takeWhile_append_dropWhile (p := p) (l := l)]
  exact lowerBoundIndex_append (fun a ha => mem_takeWhile_imp ha) hafter

end WebRtc
