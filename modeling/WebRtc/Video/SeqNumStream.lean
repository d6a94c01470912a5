import WebRtc.Video.SeqNumOnlyRefFinder
import WebRtc.Numerics.SerialOrder

/-! A stream of packets without gaps, a key frame followed by frames and padding, and what the finder
of references knows of it while it is delivered: the items before one of them are passed, and those
after it that arrived are stashed. -/

namespace WebRtc.Video

open List

inductive StreamItem where
  | frame (extraPackets : Nat)
  | padding

namespace StreamItem

def size : StreamItem → Nat
  | .frame extraPackets => extraPackets + 1
  | .padding => 1

def isFrame : StreamItem → Bool
  | .frame _ => true
  | .padding => false

end StreamItem

structure PacketStream where
  start : Nat
  keyExtra : Nat
  rest : List StreamItem

def num (t : Nat) : BitVec 16 := wrap 16 t

theorem num_succ (t : Nat) : num (t + 1) = num t + 1 := by
  have h := wrap_add_natCast (w := 16) t 1
  rw [num, num]
  push_cast at h ⊢
  exact h

variable {a b : Nat}

theorem num_ne (h : a < b) (h' : b < a + 2 ^ 16) : num a ≠ num b := by
  intro heq
  have hint := eq_of_wrap_eq heq (by rw [abs_lt]; omega)
  omega

theorem forwardDiff_num (h : a ≤ b) (h' : b < a + 2 ^ 16) :
    (forwardDiff (num a) (num b)).toNat = b - a := by
  have hdiff := forwardDiff_wrap (w := 16) (a := a) (b := b) (by omega) (by omega)
  rw [num, num]
  omega

theorem aheadOf_num (h : a < b + 2 ^ 15) (h' : b < a + 2 ^ 15) :
    aheadOf (num a) (num b) = decide (b < a) := by
  rw [num, num, aheadOf_wrap (by decide) (by rw [abs_lt]; omega)]
  exact decide_eq_decide.mpr (by omega)

theorem aheadOrAt_num (h : a < b + 2 ^ 15) (h' : b < a + 2 ^ 15) :
    aheadOrAt (num a) (num b) = decide (b ≤ a) := by
  rw [num, num, aheadOrAt_wrap (by decide) (by rw [abs_lt]; omega)]
  exact decide_eq_decide.mpr (by omega)

namespace PacketStream

variable {s : PacketStream} {h i : Nat}

def items (s : PacketStream) : List StreamItem := .frame s.keyExtra :: s.rest

def count (s : PacketStream) : Nat := s.items.length

def isFrame (s : PacketStream) (i : Nat) : Bool := s.items[i]?.any StreamItem.isFrame

def firstNum (s : PacketStream) (i : Nat) : Nat :=
  s.start + ((s.items.take i).map StreamItem.size).sum

def lastNum (s : PacketStream) (i : Nat) : Nat := s.firstNum (i + 1) - 1

def frames (s : PacketStream) (i : Nat) : List Nat := (List.range i).filter s.isFrame

def prevFrame (s : PacketStream) (i : Nat) : Nat := (s.frames i).getLastD 0

def frameOf (s : PacketStream) (i : Nat) : SeqFrame :=
  ⟨i, decide (i = 0), num (s.firstNum i), num (s.lastNum i)⟩

theorem firstNum_succ (s : PacketStream) (i : Nat) :
    s.firstNum (i + 1) = s.firstNum i + (s.items[i]?.map StreamItem.size).getD 0 := by
  rw [firstNum, firstNum, take_add_one, map_append, sum_append]
  cases s.items[i]? <;> simp [Nat.add_assoc]

theorem size_pos (x : StreamItem) : 0 < x.size := by
  cases x with
  | frame n => exact Nat.succ_pos n
  | padding => exact Nat.one_pos

theorem firstNum_lt_succ (hi : i < s.count) : s.firstNum i < s.firstNum (i + 1) := by
  have hget : s.items[i]? = some s.items[i] := List.getElem?_eq_getElem hi
  have hpos := size_pos s.items[i]
  rw [firstNum_succ, hget, Option.map_some, Option.getD_some]
  omega

theorem firstNum_padding (hi : i < s.count) (hframe : s.isFrame i = false) :
    s.firstNum (i + 1) = s.firstNum i + 1 := by
  have hget : s.items[i]? = some s.items[i] := List.getElem?_eq_getElem hi
  rw [isFrame, hget, Option.any_some] at hframe
  rw [firstNum_succ, hget, Option.map_some, Option.getD_some]
  cases hitem : s.items[i] with
  | frame n =>
    rw [hitem] at hframe
    cases hframe
  | padding => rfl

theorem firstNum_mono {j : Nat} (hij : i ≤ j) : s.firstNum i ≤ s.firstNum j := by
  induction hij with
  | refl => exact le_rfl
  | step _ ih =>
    rw [firstNum_succ]
    omega

theorem firstNum_lt {j : Nat} (hij : i < j) (hj : j ≤ s.count) : s.firstNum i < s.firstNum j :=
  (firstNum_lt_succ (by omega)).trans_le (firstNum_mono hij)

theorem lastNum_add_one (hi : i < s.count) : s.lastNum i + 1 = s.firstNum (i + 1) := by
  have hlt := firstNum_lt_succ hi
  rw [lastNum]
  omega

theorem firstNum_le_lastNum (hi : i < s.count) : s.firstNum i ≤ s.lastNum i := by
  have hlt := firstNum_lt_succ hi
  rw [lastNum]
  omega

theorem isFrame_zero (s : PacketStream) : s.isFrame 0 = true := rfl

theorem frames_succ (s : PacketStream) (i : Nat) :
    s.frames (i + 1) = s.frames i ++ if s.isFrame i then [i] else [] := by
  rw [frames, range_succ, filter_append, frames]
  congr 1
  cases hframe : s.isFrame i <;> simp [hframe]

theorem prevFrame_succ (hframe : s.isFrame i = true) : s.prevFrame (i + 1) = i := by
  rw [prevFrame, frames_succ, if_pos hframe]
  simp

theorem frames_of_padding {h' : Nat} (hle : h ≤ h')
    (hpadding : ∀ i, h ≤ i → i < h' → s.isFrame i = false) : s.frames h' = s.frames h := by
  induction hle with
  | refl => rfl
  | @step k hk ih =>
    have hframe := hpadding k hk (Nat.lt_succ_self k)
    rw [frames_succ, hframe, ih fun i hi hik => hpadding i hi (by omega)]
    simp

theorem prevFrame_lt (hi : 0 < i) : s.prevFrame i < i := by
  rw [prevFrame]
  have hmem : (s.frames i).getLastD 0 ∈ s.frames i := by
    have hne : s.frames i ≠ [] := by
      apply ne_nil_of_mem (a := 0)
      exact mem_filter.mpr ⟨mem_range.mpr hi, s.isFrame_zero⟩
    rw [getLastD_eq_getLast?, List.getLast?_eq_some_getLast hne, Option.getD_some]
    exact getLast_mem hne
  exact mem_range.mp (mem_filter.mp hmem).1

end PacketStream

end WebRtc.Video
