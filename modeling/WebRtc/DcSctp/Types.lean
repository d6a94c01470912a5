import WebRtc.Lib.OrdMap
import WebRtc.Numerics.SequenceNumber

/-! The identifiers, chunk payloads and small arithmetic shared by the dcSCTP
components. Unwrapped sequence numbers are integers. -/

namespace WebRtc.DcSctp

abbrev StreamID := BitVec 16
abbrev PPID := BitVec 32
abbrev SSN := BitVec 16
abbrev MID := BitVec 32
abbrev FSN := BitVec 32
abbrev TSN := BitVec 32
abbrev OutgoingMessageId := BitVec 32
abbrev LifecycleId := BitVec 64
abbrev StreamPriority := BitVec 16
abbrev MaxRetransmits := BitVec 16

inductive Timestamp where
  | micros (us : Int)
  | plusInfinity
  deriving DecidableEq, Repr

def Timestamp.le : Timestamp → Timestamp → Bool
  | _, .plusInfinity => true
  | .plusInfinity, .micros _ => false
  | .micros a, .micros b => a ≤ b

def Timestamp.addMicros : Timestamp → Int → Timestamp
  | .micros a, us => .micros (a + us)
  | .plusInfinity, _ => .plusInfinity

def Timestamp.since : Timestamp → Timestamp → Option Int
  | .micros a, .micros b => some (a - b)
  | _, _ => none

def MaxRetransmits.noLimit : MaxRetransmits := 0xFFFF

/-- `UnwrappedSequenceNumber::Difference`, narrowed to the width of the wrapped type. -/
def difference (w : Nat) (lhs rhs : Int) : Nat := (lhs - rhs).natAbs % 2 ^ w

def roundUpTo4 (val : Nat) : Nat := (val + 3) / 4 * 4

def roundDownTo4 (val : Nat) : Nat := val / 4 * 4

/-- Conversion to `int`. -/
def toInt32 (x : Int) : Int := x.bmod (2 ^ 32)

/-- Conversion to `size_t`. -/
def toSizeT (x : Int) : Nat := (x % 2 ^ 64).toNat

/-- A `std::accumulate` of sizes that starts from the `int` zero, so that every partial sum is
converted to `int`. -/
def accumulateInt (sizes : List Nat) : Int :=
  sizes.foldl (fun (acc : Int) (size : Nat) => toInt32 (toSizeT acc + size)) 0

theorem toInt32_of_lt {n : Nat} (h : n < 2 ^ 31) : toInt32 n = n := by
  simp only [toInt32, Int.bmod]
  omega

theorem toSizeT_natCast {n : Nat} (h : n < 2 ^ 64) : toSizeT n = n := by
  simp only [toSizeT]
  omega

theorem toInt32_toSizeT_add (x : Int) (n : Nat) :
    toInt32 (toSizeT (toInt32 x) + n) = toInt32 (x + n) := by
  simp only [toInt32, toSizeT, Int.bmod]
  omega

theorem accumulateInt_eq_toInt32 (sizes : List Nat) : accumulateInt sizes = toInt32 sizes.sum := by
  have hfold : ∀ (l : List Nat) (x : Int),
      l.foldl (fun (acc : Int) (size : Nat) => toInt32 (toSizeT acc + size)) (toInt32 x) =
        toInt32 (x + l.sum) := by
    intro l
    induction l with
    | nil => simp
    | cons size rest ih =>
      intro x
      rw [List.foldl_cons, toInt32_toSizeT_add, ih, List.sum_cons, Nat.cast_add, add_assoc]
  have hzero := hfold sizes 0
  rwa [zero_add] at hzero

theorem accumulateInt_eq {sizes : List Nat} (h : sizes.sum < 2 ^ 31) :
    accumulateInt sizes = sizes.sum := by
  rw [accumulateInt_eq_toInt32, toInt32_of_lt h]

theorem toSizeT_accumulateInt {sizes : List Nat} (h : sizes.sum < 2 ^ 31) :
    toSizeT (accumulateInt sizes) = sizes.sum := by
  rw [accumulateInt_eq h, toSizeT_natCast (by omega)]

structure Data where
  streamId : StreamID
  ssn : SSN
  mid : MID
  fsn : FSN
  ppid : PPID
  payload : List UInt8
  isBeginning : Bool
  isEnd : Bool
  isUnordered : Bool
  deriving DecidableEq, Repr

def Data.size (d : Data) : Nat := d.payload.length

structure DcSctpMessage where
  streamId : StreamID
  ppid : PPID
  payload : List UInt8
  deriving DecidableEq, Repr

structure GapAckBlock where
  start : BitVec 16
  «end» : BitVec 16
  deriving DecidableEq, Repr

structure SackChunk where
  cumulativeTsnAck : TSN
  aRwnd : BitVec 32
  gapAckBlocks : List GapAckBlock
  duplicateTsns : List TSN
  deriving DecidableEq, Repr

end WebRtc.DcSctp
