import WebRtc.Numerics.SequenceNumber

/-! The values of numbers of a fixed width: signed ones, and the order of wrapping ones. -/

namespace WebRtc

def int64 (x : Int) : Int := x.bmod (2 ^ 64)

theorem int64_eq_self {x : Int} (h : -2 ^ 63 ≤ x) (h' : x < 2 ^ 63) : int64 x = x :=
  Int.bmod_eq_of_le (by omega) (by omega)

def aheadOf {w : Nat} (a b : BitVec w) : Bool := decide (a ≠ b) && aheadOrAt a b

end WebRtc
