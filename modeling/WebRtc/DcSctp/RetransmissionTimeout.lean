import Mathlib

/-! The retransmission timeout (`tx/retransmission_timeout.cc`): a smoothed round-trip time in
fixed-point arithmetic. Times are in microseconds, unless they are converted. -/

namespace WebRtc.DcSctp

open List

/-- `TimeDelta::ms`, which rounds to the nearest millisecond. -/
def toMillis (time : Int) : Int := (time + 500) / 1000

structure RtoOptions where
  rtoInitial : Int
  rtoMin : Int
  rtoMax : Int
  rttMax : Int
  minRttVariance : Int

structure RetransmissionTimeout where
  options : RtoOptions
  firstMeasurement : Bool
  scaledSrtt : Int
  scaledRttVar : Int
  rto : Int

namespace RetransmissionTimeout

def rttShift : Nat := 3

def rttVarShift : Nat := 2

def initial (options : RtoOptions) : RetransmissionTimeout :=
  ⟨options, true, options.rtoInitial <<< rttShift, 0, options.rtoInitial⟩

def srtt (r : RetransmissionTimeout) : Int := r.scaledSrtt >>> rttShift

def accepts (options : RtoOptions) (measuredRtt : Int) : Bool :=
  decide (0 ≤ measuredRtt ∧ measuredRtt ≤ options.rttMax * 1000)

def filter (r : RetransmissionTimeout) (rtt : Int) : Int × Int :=
  if r.firstMeasurement then (rtt <<< rttShift, (rtt.tdiv 2) <<< rttVarShift)
  else
    let rttDiff := rtt - r.scaledSrtt >>> rttShift
    (r.scaledSrtt + rttDiff, r.scaledRttVar + (|rttDiff| - r.scaledRttVar >>> rttVarShift))

def observeRTT (r : RetransmissionTimeout) (measuredRtt : Int) : RetransmissionTimeout :=
  if ¬ accepts r.options measuredRtt then r
  else
    let (scaledSrtt, rttVar) := r.filter (toMillis measuredRtt)
    let scaledRttVar := max rttVar r.options.minRttVariance
    let rto := scaledSrtt >>> rttShift + scaledRttVar
    { r with
      firstMeasurement := false
      scaledSrtt := scaledSrtt
      scaledRttVar := scaledRttVar
      rto := min (max rto r.options.rtoMin) r.options.rtoMax }

theorem shiftRight_three (x : Int) : x >>> rttShift = x / 8 := Int.shiftRight_eq_div_pow x 3

theorem shiftLeft_three (x : Int) : x <<< rttShift = x * 8 := Int.shiftLeft_eq x 3

variable {r : RetransmissionTimeout}

theorem observeRTT_rejected {measuredRtt : Int}
    (h : measuredRtt < 0 ∨ r.options.rttMax * 1000 < measuredRtt) : r.observeRTT measuredRtt = r := by
  have hno : ¬ accepts r.options measuredRtt = true := by
    rw [accepts, decide_eq_true_eq]
    omega
  rw [observeRTT, if_pos hno]

structure Smoothed (r : RetransmissionTimeout) (low high : Int) : Prop where
  measured : r.firstMeasurement = false
  low_le : 8 * low ≤ r.scaledSrtt
  le_high : r.scaledSrtt ≤ 8 * high + 7
  variance : r.options.minRttVariance ≤ r.scaledRttVar
  rto_le : r.rto ≤ r.options.rtoMax
  le_rto : min r.options.rtoMin r.options.rtoMax ≤ r.rto

theorem Smoothed.srtt_bounds {low high : Int} (h : Smoothed r low high) :
    low ≤ r.srtt ∧ r.srtt ≤ high := by
  have hlow := h.low_le
  have hhigh := h.le_high
  rw [srtt, shiftRight_three]
  omega

theorem smoothed_observeRTT {measuredRtt low high : Int}
    (haccepts : accepts r.options measuredRtt = true) (hlow : low ≤ toMillis measuredRtt)
    (hhigh : toMillis measuredRtt ≤ high) (h : r.firstMeasurement = true ∨ Smoothed r low high) :
    Smoothed (r.observeRTT measuredRtt) low high := by
  have hfilter : 8 * low ≤ (r.filter (toMillis measuredRtt)).1 ∧
      (r.filter (toMillis measuredRtt)).1 ≤ 8 * high + 7 := by
    rw [filter]
    rcases h with hfirst | hsmooth
    · rw [if_pos hfirst, shiftLeft_three]
      dsimp only
      omega
    · have hmeasured := hsmooth.measured
      have hl := hsmooth.low_le
      have hh := hsmooth.le_high
      rw [if_neg (by simp [hmeasured])]
      dsimp only
      rw [shiftRight_three]
      omega
  rw [observeRTT, if_neg (not_not.mpr haccepts)]
  refine ⟨rfl, hfilter.1, hfilter.2, le_max_right _ _, min_le_right _ _, ?_⟩
  exact min_le_min_right _ (le_max_right _ _)

theorem options_observeRTT (r : RetransmissionTimeout) (measuredRtt : Int) :
    (r.observeRTT measuredRtt).options = r.options := by
  rw [observeRTT]
  split <;> rfl

def taken (options : RtoOptions) (measurements : List Int) : List Int :=
  (measurements.filter (accepts options)).map toMillis

variable (measurements : List Int)

theorem run_smoothed {low high : Int}
    (hbounds : ∀ rtt ∈ taken r.options measurements, low ≤ rtt ∧ rtt ≤ high)
    (h : r.firstMeasurement = true ∧ taken r.options measurements ≠ [] ∨ Smoothed r low high) :
    Smoothed (measurements.foldl observeRTT r) low high := by
  induction measurements generalizing r with
  | nil =>
    rcases h with ⟨-, hne⟩ | h
    · exact absurd rfl hne
    · exact h
  | cons m ms ih =>
    rw [foldl_cons]
    by_cases haccepts : accepts r.options m = true
    · rw [taken, filter_cons_of_pos haccepts, map_cons] at hbounds
      obtain ⟨hm, hms⟩ := forall_mem_cons.mp hbounds
      refine ih ?_ (.inr (smoothed_observeRTT haccepts hm.1 hm.2 (h.imp_left And.left)))
      rw [options_observeRTT]
      exact hms
    · have hsame : r.observeRTT m = r := by rw [observeRTT, if_pos haccepts]
      rw [taken, filter_cons_of_neg haccepts] at hbounds h
      rw [hsame]
      exact ih hbounds h

theorem options_foldl_observeRTT (r : RetransmissionTimeout) :
    (measurements.foldl observeRTT r).options = r.options := by
  induction measurements generalizing r with
  | nil => rfl
  | cons m ms ih => rw [foldl_cons, ih, options_observeRTT]

theorem exists_le_all {l : List Int} (h : l ≠ []) : ∃ low ∈ l, ∀ x ∈ l, low ≤ x := by
  obtain ⟨low, hlow, hlows⟩ := l.toFinset.exists_min_image id (toFinset_nonempty_iff l |>.mpr h)
  exact ⟨low, mem_toFinset.mp hlow, fun x hx => hlows x (mem_toFinset.mpr hx)⟩

theorem exists_ge_all {l : List Int} (h : l ≠ []) : ∃ high ∈ l, ∀ x ∈ l, x ≤ high := by
  obtain ⟨high, hhigh, hhighs⟩ := l.toFinset.exists_max_image id (toFinset_nonempty_iff l |>.mpr h)
  exact ⟨high, mem_toFinset.mp hhigh, fun x hx => hhighs x (mem_toFinset.mpr hx)⟩

end RetransmissionTimeout

end WebRtc.DcSctp
