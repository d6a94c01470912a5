import Mathlib

/-! Wrapping sequence numbers of a fixed width (`rtc_base/numerics`). The
unwrapper follows a stream of wrapped values in the integers. -/

namespace WebRtc

variable {w : Nat}

/-- The wrapped value of an integer. -/
def wrap (w : Nat) (t : Int) : BitVec w := BitVec.ofInt w t

def forwardDiff (a b : BitVec w) : BitVec w := b - a

def aheadOrAt (a b : BitVec w) : Bool :=
  if (a - b).toNat = 2 ^ (w - 1) then b < a else (forwardDiff b a).toNat < 2 ^ (w - 1)

def delta (lastValue newValue : BitVec w) : Int :=
  let result : Int := (forwardDiff lastValue newValue).toNat
  if aheadOrAt newValue lastValue then result else result - 2 ^ w

theorem wrap_toNat (t : Int) : ((wrap w t).toNat : Int) = t % 2 ^ w := by
  have h : (0 : Int) ≤ t % 2 ^ w := Int.emod_nonneg _ (by positivity)
  simp [wrap, BitVec.toNat_ofInt, Int.toNat_of_nonneg h]

theorem wrap_eq_iff {s t : Int} : wrap w s = wrap w t ↔ s % 2 ^ w = t % 2 ^ w := by
  rw [← BitVec.toNat_inj, ← Int.natCast_inj, wrap_toNat, wrap_toNat]

theorem wrap_natCast_toNat (v : BitVec w) : wrap w v.toNat = v := by
  apply BitVec.eq_of_toNat_eq
  simp [wrap]

theorem wrap_add_natCast (t : Int) (n : Nat) : wrap w (t + n) = wrap w t + BitVec.ofNat w n := by
  rw [wrap, wrap, BitVec.ofInt_add, BitVec.ofInt_natCast]

/-- `m` is `s` or follows it within half the range. -/
def SerialAtOrAfter (m s : BitVec w) : Prop := (m - s).toNat < 2 ^ (w - 1)

instance (m s : BitVec w) : Decidable (SerialAtOrAfter m s) := Nat.decLt _ _

theorem eq_of_wrap_eq {s t : Int} (h : wrap w s = wrap w t) (hd : |s - t| < 2 ^ w) : s = t := by
  have hm : (2 ^ w : Int) ∣ s - t := Int.ModEq.dvd (wrap_eq_iff.mp h).symm
  have hz : s - t = 0 := Int.eq_zero_of_abs_lt_dvd hm hd
  omega

theorem forwardDiff_toNat (a b : BitVec w) :
    ((forwardDiff a b).toNat : Int) = (b.toNat - a.toNat : Int) % 2 ^ w := by
  have ha := a.isLt
  have hs : ((2 ^ w - a.toNat + b.toNat : Nat) : Int) = b.toNat - a.toNat + 2 ^ w := by
    push_cast [ha.le]
    ring
  rw [forwardDiff, BitVec.toNat_sub, Int.natCast_emod, hs]
  simp

theorem delta_emod (a b : BitVec w) : (a.toNat + delta a b) % 2 ^ w = b.toNat % 2 ^ w := by
  have hf : (a.toNat + (forwardDiff a b).toNat : Int) % 2 ^ w = b.toNat % 2 ^ w := by
    rw [forwardDiff_toNat, Int.add_emod_emod]
    congr 1
    ring
  simp only [delta]
  split
  · exact hf
  · rw [← hf, ← Int.sub_emod_right (a.toNat + (forwardDiff a b).toNat : Int)]
    congr 1
    ring

theorem two_pow_eq_two_mul_half (hw : 0 < w) : 2 ^ w = 2 * 2 ^ (w - 1) := by
  obtain ⟨n, rfl⟩ : ∃ n, w = n + 1 := ⟨w - 1, by omega⟩
  simp [pow_succ, mul_comm]

theorem delta_abs_le (hw : 0 < w) (a b : BitVec w) : |delta a b| ≤ 2 ^ (w - 1) := by
  have hp := two_pow_eq_two_mul_half hw
  have hlt := (forwardDiff a b).isLt
  have hd : delta a b = (forwardDiff a b).toNat ∧ (forwardDiff a b).toNat ≤ 2 ^ (w - 1) ∨
      delta a b = (forwardDiff a b).toNat - 2 ^ w ∧ 2 ^ (w - 1) ≤ (forwardDiff a b).toNat := by
    simp only [delta, aheadOrAt, forwardDiff]
    by_cases he : (b - a).toNat = 2 ^ (w - 1)
    · by_cases hab : a < b <;> simp [he, hab]
    · by_cases hlt : (b - a).toNat < 2 ^ (w - 1)
      · simp [he, hlt, hlt.le, -BitVec.toNat_sub]
      · simp [he, hlt, not_lt.mp hlt, -BitVec.toNat_sub]
  zify at hp hlt hd
  rw [abs_le]
  rcases hd with ⟨he, hh⟩ | ⟨he, hh⟩ <;> rw [he] <;> constructor <;> omega

/-- The first value is taken as it is; later ones move by at most half the range. The
last wrapped value is always that of the last unwrapped one. -/
structure SeqNumUnwrapper (w : Nat) where
  lastUnwrapped : Int
  lastValue : Option (BitVec w)
  lastValue_eq : ∀ v ∈ lastValue, v = wrap w lastUnwrapped

namespace SeqNumUnwrapper

def pristine : SeqNumUnwrapper w := ⟨0, none, by simp⟩

def peekUnwrap (u : SeqNumUnwrapper w) (value : BitVec w) : Int :=
  match u.lastValue with
  | none => value.toNat
  | some lastValue => u.lastUnwrapped + delta lastValue value

theorem wrap_peekUnwrap (u : SeqNumUnwrapper w) (value : BitVec w) :
    wrap w (u.peekUnwrap value) = value := by
  simp only [peekUnwrap]
  cases h : u.lastValue with
  | none => exact wrap_natCast_toNat value
  | some last =>
    have hl := u.lastValue_eq last (by simp [h])
    have hu : u.lastUnwrapped % 2 ^ w = (last.toNat : Int) % 2 ^ w := by
      rw [hl, wrap_toNat, Int.emod_emod]
    rw [← wrap_natCast_toNat value, wrap_eq_iff, wrap_natCast_toNat, ← delta_emod last value,
      Int.add_emod, hu, ← Int.add_emod]

/-- `Unwrap` returns what `PeekUnwrap` would and remembers it. -/
def unwrap (u : SeqNumUnwrapper w) (value : BitVec w) : Int × SeqNumUnwrapper w :=
  (u.peekUnwrap value, ⟨u.peekUnwrap value, some value, by simp [wrap_peekUnwrap]⟩)

@[simp] theorem unwrap_fst (u : SeqNumUnwrapper w) (value : BitVec w) :
    (u.unwrap value).1 = u.peekUnwrap value := rfl

@[simp] theorem unwrap_snd_lastUnwrapped (u : SeqNumUnwrapper w) (value : BitVec w) :
    (u.unwrap value).2.lastUnwrapped = u.peekUnwrap value := rfl

@[simp] theorem unwrap_snd_lastValue (u : SeqNumUnwrapper w) (value : BitVec w) :
    (u.unwrap value).2.lastValue = some value := rfl

theorem peekUnwrap_abs_le (hw : 0 < w) (u : SeqNumUnwrapper w) (hu : u.lastValue ≠ none)
    (value : BitVec w) : |u.peekUnwrap value - u.lastUnwrapped| ≤ 2 ^ (w - 1) := by
  obtain ⟨last, hl⟩ := Option.ne_none_iff_exists'.mp hu
  simp only [peekUnwrap, hl, add_sub_cancel_left]
  exact delta_abs_le hw last value

theorem peekUnwrap_wrap (hw : 0 < w) (u : SeqNumUnwrapper w) (hu : u.lastValue ≠ none) {t : Int}
    (ht : |t - u.lastUnwrapped| < 2 ^ (w - 1)) : u.peekUnwrap (wrap w t) = t := by
  have hp : (2 : Int) ^ w = 2 * 2 ^ (w - 1) := by exact_mod_cast two_pow_eq_two_mul_half hw
  have ha := peekUnwrap_abs_le hw u hu (wrap w t)
  apply eq_of_wrap_eq (wrap_peekUnwrap u _)
  rw [abs_le] at ha
  rw [abs_lt] at ht ⊢
  constructor <;> omega

theorem peekUnwrap_of_atOrAfter (hw : 0 < w) (u : SeqNumUnwrapper w) {m s : BitVec w}
    (hm : u.lastValue = some m) (h : SerialAtOrAfter s m) :
    u.peekUnwrap s = u.lastUnwrapped + (s - m).toNat := by
  have hlast : m = wrap w u.lastUnwrapped := u.lastValue_eq m (by simp [hm])
  have hs : wrap w (u.lastUnwrapped + (s - m).toNat) = s := by
    rw [wrap_add_natCast, ← hlast, BitVec.ofNat_toNat, BitVec.setWidth_eq, BitVec.add_comm,
      BitVec.sub_add_cancel]
  have hd : |u.lastUnwrapped + (s - m).toNat - u.lastUnwrapped| < 2 ^ (w - 1) := by
    rw [add_sub_cancel_left, Nat.abs_cast]
    exact_mod_cast h
  have hp := peekUnwrap_wrap hw u (by simp [hm]) hd
  rwa [hs] at hp

theorem peekUnwrap_of_atOrBefore (hw : 0 < w) (u : SeqNumUnwrapper w) {m s : BitVec w}
    (hm : u.lastValue = some m) (h : SerialAtOrAfter m s) :
    u.peekUnwrap s = u.lastUnwrapped - (m - s).toNat := by
  have hlast : m = wrap w u.lastUnwrapped := u.lastValue_eq m (by simp [hm])
  have hs : wrap w (u.lastUnwrapped - (m - s).toNat) = s := by
    have hadd := wrap_add_natCast (w := w) (u.lastUnwrapped - (m - s).toNat) (m - s).toNat
    rw [sub_add_cancel, ← hlast, BitVec.ofNat_toNat, BitVec.setWidth_eq] at hadd
    rw [eq_sub_of_add_eq hadd.symm, sub_sub_cancel]
  have hd : |u.lastUnwrapped - (m - s).toNat - u.lastUnwrapped| < 2 ^ (w - 1) := by
    rw [sub_sub_cancel_left, abs_neg, Nat.abs_cast]
    exact_mod_cast h
  have hp := peekUnwrap_wrap hw u (by simp [hm]) hd
  rwa [hs] at hp

/-- What a stream of values unwraps to. -/
def unwrapAll (u : SeqNumUnwrapper w) : List (BitVec w) → List Int
  | [] => []
  | value :: rest => (u.unwrap value).1 :: (u.unwrap value).2.unwrapAll rest

theorem unwrapAll_wrap (hw : 0 < w) {u : SeqNumUnwrapper w} (hu : u.lastValue ≠ none)
    {ts : List Int} (h : (u.lastUnwrapped :: ts).IsChain fun s t => |t - s| < 2 ^ (w - 1)) :
    u.unwrapAll (ts.map (wrap w)) = ts := by
  induction ts generalizing u with
  | nil => rfl
  | cons t ts ih =>
    obtain ⟨ht, hts⟩ := List.isChain_cons_cons.mp h
    have hpeek := peekUnwrap_wrap hw u hu ht
    rw [List.map_cons, unwrapAll, unwrap_fst, hpeek, ih (by simp) (by simpa [hpeek] using hts)]

/-- A stream that moves by less than half the range at a time comes out as it was. -/
theorem pristine_unwrapAll (hw : 0 < w) {t : Int} {ts : List Int} (h0 : 0 ≤ t) (ht : t < 2 ^ w)
    (h : (t :: ts).IsChain fun s t => |t - s| < 2 ^ (w - 1)) :
    pristine.unwrapAll ((t :: ts).map (wrap w)) = t :: ts := by
  have hfirst : pristine.peekUnwrap (wrap w t) = t := by
    rw [peekUnwrap, pristine]
    simp only [wrap_toNat, Int.emod_eq_of_lt h0 ht]
  rw [List.map_cons, unwrapAll, unwrap_fst, hfirst,
    unwrapAll_wrap hw (by simp) (by simpa [hfirst] using h)]

theorem pristine_unwrapAll_wrapped :
    pristine.unwrapAll ([200, 250, 300, 280].map (wrap 8)) = [200, 250, 300, 280] :=
  pristine_unwrapAll (by decide) (by decide) (by decide) (by simp)

end SeqNumUnwrapper

end WebRtc
