import Mathlib.Data.Nat.Bitwise
import Mathlib.Tactic.Common
import Mathlib.Tactic.Ring

/-! Bit streams: numbers written one after the other, each with the highest bit first, and packed
into bytes. A reader that asked for more than there is has failed and reads zeros from then on. -/

namespace BitStream

open List

/-- The low `n` bits of a number, the highest one first. -/
def toBits : Nat → Nat → List Bool
  | 0, _ => []
  | n + 1, v => v.testBit n :: toBits n v

def ofBits : List Bool → Nat
  | [] => 0
  | bit :: rest => bit.toNat * 2 ^ rest.length + ofBits rest

@[simp] theorem length_toBits (n v : Nat) : (toBits n v).length = n := by
  induction n with
  | zero => rfl
  | succ n ih => rw [toBits, length_cons, ih]

theorem ofBits_toBits (n v : Nat) : ofBits (toBits n v) = v % 2 ^ n := by
  induction n with
  | zero => rw [pow_zero, Nat.mod_one]; rfl
  | succ n ih =>
    rw [toBits, ofBits, ih, length_toBits, Nat.toNat_testBit, Nat.mod_pow_succ, Nat.add_comm,
      Nat.mul_comm]

theorem ofBits_lt (bits : List Bool) : ofBits bits < 2 ^ bits.length := by
  induction bits with
  | nil => exact Nat.one_pos
  | cons bit rest ih =>
    have hbit := Bool.toNat_le bit
    have hmul := Nat.mul_le_mul_right (2 ^ rest.length) hbit
    rw [ofBits, length_cons, pow_succ]
    omega

theorem toBits_congr {n v v' : Nat} (h : ∀ i < n, v.testBit i = v'.testBit i) :
    toBits n v = toBits n v' := by
  induction n with
  | zero => rfl
  | succ n ih =>
    rw [toBits, toBits, h n (Nat.lt_succ_self n), ih fun i hi => h i (Nat.lt_succ_of_lt hi)]

theorem toBits_ofBits (bits : List Bool) : toBits bits.length (ofBits bits) = bits := by
  induction bits with
  | nil => rfl
  | cons bit rest ih =>
    have hlt := ofBits_lt rest
    have hvalue : ofBits (bit :: rest) = 2 ^ rest.length * bit.toNat + ofBits rest := by
      rw [ofBits, Nat.mul_comm]
    have hhead : (ofBits (bit :: rest)).testBit rest.length = bit := by
      rw [hvalue, Nat.testBit_two_pow_mul_add _ hlt, if_neg (Nat.lt_irrefl _), Nat.sub_self]
      cases bit <;> rfl
    have htail : toBits rest.length (ofBits (bit :: rest)) = toBits rest.length (ofBits rest) := by
      apply toBits_congr
      intro i hi
      rw [hvalue, Nat.testBit_two_pow_mul_add _ hlt, if_pos hi]
    rw [length_cons, toBits, hhead, htail, ih]

/-- The first `n` bytes, filled up with zeros. -/
def pack : Nat → List Bool → List UInt8
  | 0, _ => []
  | n + 1, bits =>
    UInt8.ofNat (ofBits ((bits ++ List.replicate 8 false).take 8)) :: pack n (bits.drop 8)

def bytesFor (bits : Nat) : Nat := bits / 8 + if bits % 8 > 0 then 1 else 0

def unpack (bytes : List UInt8) : List Bool := bytes.flatMap fun byte => toBits 8 byte.toNat

theorem le_bytesFor (bits : Nat) : bits ≤ 8 * bytesFor bits := by
  unfold bytesFor
  split <;> omega

theorem unpack_pack {n : Nat} {bits : List Bool} (h : bits.length ≤ 8 * n) :
    unpack (pack n bits) = bits ++ List.replicate (8 * n - bits.length) false := by
  induction n generalizing bits with
  | zero =>
    obtain rfl := length_eq_zero_iff.mp (Nat.le_zero.mp h)
    rfl
  | succ n ih =>
    have hlen : ((bits ++ List.replicate 8 false).take 8).length = 8 := by simp
    have hlt := ofBits_lt ((bits ++ List.replicate 8 false).take 8)
    have hbyte := toBits_ofBits ((bits ++ List.replicate 8 false).take 8)
    rw [hlen] at hlt hbyte
    have hvalue : (UInt8.ofNat (ofBits ((bits ++ List.replicate 8 false).take 8))).toNat =
        ofBits ((bits ++ List.replicate 8 false).take 8) := UInt8.toNat_ofNat_of_lt hlt
    have hrest := ih (show (bits.drop 8).length ≤ 8 * n by rw [length_drop]; omega)
    rw [pack, unpack, flatMap_cons, hvalue, hbyte, ← unpack, hrest, length_drop]
    by_cases hlong : 8 ≤ bits.length
    · rw [take_append_of_le_length hlong, ← append_assoc, take_append_drop]
      congr 2
      omega
    · have hshort : bits.length ≤ 8 := by omega
      rw [drop_eq_nil_of_le hshort, nil_append, take_append,
        take_of_length_le hshort, take_replicate, append_assoc,
        replicate_append_replicate]
      congr 2
      omega

theorem length_pack (n : Nat) (bits : List Bool) : (pack n bits).length = n := by
  induction n generalizing bits with
  | zero => rfl
  | succ n ih => rw [pack, length_cons, ih]

/-- The bits left to read, or nothing after a failure. -/
def Reader := Option (List Bool)

namespace Reader

def ofBytes (bytes : List UInt8) : Reader := some (unpack bytes)

def failed : Reader := none

def ok (r : Reader) : Bool := r.isSome

def readBits (n : Nat) : Reader → Nat × Reader
  | some bits =>
    if n ≤ bits.length then (ofBits (bits.take n), some (bits.drop n)) else (0, failed)
  | none => (0, failed)

def readBit (r : Reader) : Bool × Reader := ((r.readBits 1).1 ≠ 0, (r.readBits 1).2)

def ofBits (bits : List Bool) : Reader := some bits

theorem readBits_append (n v : Nat) (rest : List Bool) :
    (ofBits (toBits n v ++ rest)).readBits n = (v % 2 ^ n, ofBits rest) := by
  have hlen : n ≤ (toBits n v ++ rest).length := by
    rw [length_append, length_toBits]
    exact Nat.le_add_right _ _
  show (if n ≤ (toBits n v ++ rest).length then _ else _) = _
  rw [if_pos hlen, take_left' (length_toBits n v), drop_left' (length_toBits n v), ofBits_toBits]
  rfl

theorem readBit_append (bit : Bool) (rest : List Bool) :
    (ofBits (toBits 1 bit.toNat ++ rest)).readBit = (bit, ofBits rest) := by
  rw [readBit, readBits_append]
  cases bit <;> rfl

end Reader

/-- A buffer of `capacity` bits and what has been written so far. -/
structure Writer where
  capacity : Nat
  bits : List Bool

namespace Writer

def ofBytes (byteCount : Nat) : Writer := ⟨8 * byteCount, []⟩

/-- Writes the low `n` bits of `v`, if there is room. -/
def writeBits (w : Writer) (v n : Nat) : Option Writer :=
  if n ≤ w.capacity - w.bits.length then some { w with bits := w.bits ++ toBits n v } else none

def writeAll (w : Writer) : List (Nat × Nat) → Option Writer
  | [] => some w
  | (v, n) :: rest => do
    let w ← w.writeBits v n
    w.writeAll rest

def bytes (w : Writer) : List UInt8 := pack (bytesFor w.bits.length) w.bits

end Writer

def written (writes : List (Nat × Nat)) : List Bool :=
  writes.flatMap fun write => toBits write.2 write.1

theorem length_written (writes : List (Nat × Nat)) :
    (written writes).length = (writes.map Prod.snd).sum := by
  simp [written, length_flatMap]

theorem written_append (writes writes' : List (Nat × Nat)) :
    written (writes ++ writes') = written writes ++ written writes' := flatMap_append

theorem Writer.writeAll_eq (w : Writer) {writes : List (Nat × Nat)}
    (h : w.bits.length + (writes.map Prod.snd).sum ≤ w.capacity) :
    w.writeAll writes = some { w with bits := w.bits ++ written writes } := by
  induction writes generalizing w with
  | nil => simp [Writer.writeAll, written]
  | cons write rest ih =>
    obtain ⟨v, n⟩ := write
    rw [map_cons, sum_cons] at h
    have hstep : w.writeBits v n = some { w with bits := w.bits ++ toBits n v } :=
      if_pos (by omega)
    rw [Writer.writeAll, hstep, Option.bind_eq_bind, Option.bind_some, ih]
    · simp only [written, flatMap_cons, append_assoc]
    · simp only [length_append, length_toBits]
      omega

theorem Reader.exists_ofBytes_pack (bits : List Bool) :
    ∃ rest, Reader.ofBytes (pack (bytesFor bits.length) bits) = Reader.ofBits (bits ++ rest) :=
  ⟨_, congrArg some (unpack_pack (le_bytesFor bits.length))⟩

end BitStream
