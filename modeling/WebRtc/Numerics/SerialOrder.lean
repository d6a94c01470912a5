import WebRtc.Numerics.FixedWidth

/-! The order of wrapping numbers whose integers are less than half the range apart. -/

namespace WebRtc

variable {w : Nat}

theorem toNat_forwardDiff_wrap (a b : Int) :
    ((forwardDiff (wrap w a) (wrap w b)).toNat : Int) = (b - a) % 2 ^ w := by
  rw [forwardDiff_toNat, wrap_toNat, wrap_toNat, ← Int.sub_emod]

theorem forwardDiff_wrap {a b : Int} (h : a ≤ b) (h' : b - a < 2 ^ w) :
    ((forwardDiff (wrap w a) (wrap w b)).toNat : Int) = b - a := by
  rw [toNat_forwardDiff_wrap, Int.emod_eq_of_lt (by omega) h']

theorem aheadOrAt_wrap (hw : 0 < w) {a b : Int} (h : |a - b| < 2 ^ (w - 1)) :
    aheadOrAt (wrap w a) (wrap w b) = decide (b ≤ a) := by
  have hhalf : (2 : Int) ^ w = 2 * 2 ^ (w - 1) := by exact_mod_cast two_pow_eq_two_mul_half hw
  have hdiff := toNat_forwardDiff_wrap (w := w) b a
  rw [abs_lt] at h
  have hcast : ((2 ^ (w - 1) : Nat) : Int) = 2 ^ (w - 1) := by push_cast; rfl
  rw [aheadOrAt]
  change (if (forwardDiff (wrap w b) (wrap w a)).toNat = 2 ^ (w - 1) then _ else _) = _
  by_cases hle : b ≤ a
  · rw [Int.emod_eq_of_lt (by omega) (by omega)] at hdiff
    have hlt : (forwardDiff (wrap w b) (wrap w a)).toNat < 2 ^ (w - 1) := by omega
    rw [if_neg hlt.ne, decide_eq_true hlt, decide_eq_true hle]
  · have hwrap : (a - b) % 2 ^ w = a - b + 2 ^ w := by
      rw [← Int.add_emod_right, Int.emod_eq_of_lt (by omega) (by omega)]
    rw [hwrap] at hdiff
    have hge : 2 ^ (w - 1) < (forwardDiff (wrap w b) (wrap w a)).toNat := by omega
    rw [if_neg hge.ne', decide_eq_false (by omega), decide_eq_false hle]

theorem aheadOf_wrap (hw : 0 < w) {a b : Int} (h : |a - b| < 2 ^ (w - 1)) :
    aheadOf (wrap w a) (wrap w b) = decide (b < a) := by
  have hhalf : (2 : Int) ^ w = 2 * 2 ^ (w - 1) := by exact_mod_cast two_pow_eq_two_mul_half hw
  rw [aheadOf, aheadOrAt_wrap hw h]
  by_cases heq : a = b
  · simp [heq]
  · have hne : wrap w a ≠ wrap w b := fun hwrap => heq (eq_of_wrap_eq hwrap (by
      have := abs_nonneg (a - b)
      omega))
    rw [decide_eq_true hne, Bool.true_and]
    exact decide_eq_decide.mpr (by omega)

def past (b a : BitVec 16) : Nat := (a - b).toNat

theorem aheadOrAt_iff (a b : BitVec 16) :
    aheadOrAt a b = true ↔ past b a < 2 ^ 15 ∨ past b a = 2 ^ 15 ∧ b.toNat < a.toNat := by
  unfold aheadOrAt past forwardDiff
  by_cases h : (a - b).toNat = 2 ^ 15
  · rw [if_pos h]
    simp [h, BitVec.lt_def]
  · rw [if_neg h]
    simp only [h, false_and, or_false, decide_eq_true_eq]

theorem aheadOf_iff (a b : BitVec 16) :
    aheadOf a b = true ↔ 0 < past b a ∧ aheadOrAt a b = true := by
  unfold aheadOf past
  rw [Bool.and_eq_true, decide_eq_true_eq]
  refine and_congr_left fun _ => ?_
  constructor
  · intro h
    bv_omega
  · intro h heq
    bv_omega

theorem past_sub {f a s : BitVec 16} (h : past f a ≤ past f s) : past a s = past f s - past f a := by
  unfold past at h ⊢
  bv_omega

theorem past_wrapped {f a s : BitVec 16} (h : past f a < past f s) :
    past s a = 2 ^ 16 - (past f s - past f a) := by
  unfold past at h ⊢
  bv_omega

theorem past_self (a : BitVec 16) : past a a = 0 := by simp [past]

theorem aheadOf_iff_of_lt {f a s : BitVec 16} (h : past f a < past f s) :
    aheadOf a s = true ↔ 2 ^ 15 < past f s - past f a ∨
      past f s - past f a = 2 ^ 15 ∧ s.toNat < a.toNat := by
  have hlt : past f s < 2 ^ 16 := BitVec.isLt _
  rw [aheadOf_iff, aheadOrAt_iff, past_wrapped h]
  omega

theorem aheadOrAt_of_not_aheadOf {a s : BitVec 16} (h : aheadOf a s = false) :
    aheadOrAt s a = true := by
  rw [Bool.eq_false_iff, ne_eq, aheadOf_iff, aheadOrAt_iff] at h
  rw [aheadOrAt_iff]
  unfold past at h ⊢
  bv_omega

end WebRtc
