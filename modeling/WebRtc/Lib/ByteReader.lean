import WebRtc.Lib.ByteBuffer

/-! Readers that take bytes from the front of a buffer. `Reads` says which bytes a reader takes and
what it makes of them, whatever follows; a `Fixed` reader takes the same number of bytes from every
buffer that it accepts. -/

namespace ByteBuffer

abbrev Reader (α : Type) := StateT (List UInt8) Option α

def bigEndian64 (v : BitVec 64) : List UInt8 :=
  bigEndian32 (v.extractLsb' 32 32) ++ bigEndian32 (v.extractLsb' 0 32)

def load64 (buf : List UInt8) (offset : Nat) : BitVec 64 :=
  load32 buf offset ++ load32 buf (offset + 4)

def readBytes (n : Nat) : Reader (List UInt8) := fun buf =>
  if n ≤ buf.length then some (buf.take n, buf.drop n) else none

def readVector (n : Nat) : Reader (Vector UInt8 n) := fun buf =>
  if h : n ≤ buf.length then some (⟨(buf.take n).toArray, by simp [h]⟩, buf.drop n) else none

def readUInt8 : Reader (BitVec 8) := do return load8 (← readBytes 1) 0

def readUInt16 : Reader (BitVec 16) := do return load16 (← readBytes 2) 0

def readUInt32 : Reader (BitVec 32) := do return load32 (← readBytes 4) 0

def readUInt64 : Reader (BitVec 64) := do return load64 (← readBytes 8) 0

def consume (n : Nat) : Reader Unit := do
  let _ ← readBytes n

def readMany {α : Type} (r : Reader α) : Nat → Reader (List α)
  | 0 => pure []
  | n + 1 => do
    let x ← r
    let xs ← readMany r n
    return x :: xs

variable {α β : Type} {r : Reader α} {f : α → Reader β}

def Reads (r : Reader α) (used : List UInt8) (x : α) : Prop :=
  ∀ rest, r.run (used ++ rest) = some (x, rest)

theorem reads_pure (x : α) : Reads (pure x) [] x := fun _ => rfl

theorem Reads.bind {u v : List UInt8} {x : α} {y : β} (h : Reads r u x) (hf : Reads (f x) v y) :
    Reads (r >>= f) (u ++ v) y := by
  intro rest
  rw [StateT.run_bind, List.append_assoc, h]
  exact hf rest

theorem Reads.map {u : List UInt8} {x : α} (h : Reads r u x) (g : α → β) :
    Reads (do return g (← r)) u (g x) := by
  have hbind : Reads (do return g (← r)) (u ++ []) (g x) := h.bind (reads_pure (g x))
  rwa [List.append_nil] at hbind

theorem Reads.guard_bind {u : List UInt8} {p : Prop} [Decidable p] (h : p) {r : Unit → Reader α} {x : α}
    (hr : Reads (r ()) u x) : Reads (guard p >>= r) u x := by
  intro rest
  rw [guard, if_pos h]
  exact hr rest

theorem reads_readBytes {n : Nat} (bytes : List UInt8) (h : bytes.length = n) :
    Reads (readBytes n) bytes bytes := by
  intro rest
  have hle : n ≤ (bytes ++ rest).length := by
    rw [List.length_append]
    omega
  show (if _ then _ else _) = _
  rw [if_pos hle, List.take_left' h, List.drop_left' h]

theorem reads_readVector {n : Nat} (v : Vector UInt8 n) : Reads (readVector n) v.toList v := by
  intro rest
  have hlen : v.toList.length = n := Vector.length_toList
  have hle : n ≤ (v.toList ++ rest).length := by
    rw [List.length_append]
    omega
  show (if h : _ then _ else _) = _
  rw [dif_pos hle, Option.some.injEq, Prod.mk.injEq]
  refine ⟨?_, List.drop_left' hlen⟩
  apply Vector.toList_inj.mp
  exact List.take_left' hlen

theorem load64_bigEndian64 (v : BitVec 64) : load64 (bigEndian64 v) 0 = v := by
  have hhigh : load32 (bigEndian64 v) 0 = v.extractLsb' 32 32 := load32_bigEndian32 _
  have hlow : load32 (bigEndian64 v) 4 = v.extractLsb' 0 32 := load32_bigEndian32 _
  rw [load64, hhigh, hlow]
  exact extractLsb'_append_extractLsb' (show BitVec (32 + 32) from v)

theorem load8_append_right (a b : List UInt8) (i : Nat) : load8 (a ++ b)
    (a.length + i) = load8 b i := by
  simp [load8, List.getElem?_append_right]

theorem load16_append_right (a b : List UInt8) (i : Nat) :
    load16 (a ++ b) (a.length + i) = load16 b i := by
  rw [load16, load16, load8_append_right, Nat.add_assoc, load8_append_right]

theorem load32_append_right (a b : List UInt8) (i : Nat) :
    load32 (a ++ b) (a.length + i) = load32 b i := by
  rw [load32, load32, load16_append_right, Nat.add_assoc, load16_append_right]

theorem load16_bigEndian16_append (v : BitVec 16) (tail : List UInt8) :
    load16 (bigEndian16 v ++ tail) 0 = v := by
  rw [load16_append _ le_rfl, load16_bigEndian16]

theorem load32_bigEndian32_append (v : BitVec 32) (tail : List UInt8) :
    load32 (bigEndian32 v ++ tail) 0 = v :=
  load32_bigEndian32 v

theorem store_middle {a old new b : List UInt8} (h : new.length = old.length) :
    store (a ++ (old ++ b)) a.length new = a ++ (new ++ b) :=
  (write_eq_some_iff.mp (write_middle h)).2

theorem reads_readUInt8 (v : BitVec 8) : Reads readUInt8 (bigEndian8 v) v :=
  (reads_readBytes (bigEndian8 v) rfl).map fun bytes => load8 bytes 0

theorem reads_readUInt16 (v : BitVec 16) : Reads readUInt16 (bigEndian16 v) v := by
  have h := (reads_readBytes (bigEndian16 v) rfl).map fun bytes => load16 bytes 0
  rwa [load16_bigEndian16] at h

theorem reads_readUInt32 (v : BitVec 32) : Reads readUInt32 (bigEndian32 v) v := by
  have h := (reads_readBytes (bigEndian32 v) rfl).map fun bytes => load32 bytes 0
  rwa [load32_bigEndian32] at h

theorem reads_readUInt64 (v : BitVec 64) : Reads readUInt64 (bigEndian64 v) v := by
  have h := (reads_readBytes (bigEndian64 v) rfl).map fun bytes => load64 bytes 0
  rwa [load64_bigEndian64] at h

theorem reads_readMany {encode : α → List UInt8} (h : ∀ x, Reads r (encode x) x) (xs : List α) :
    Reads (readMany r xs.length) (xs.flatMap encode) xs := by
  induction xs with
  | nil => exact reads_pure []
  | cons x xs ih => exact (h x).bind (ih.map (x :: ·))

/-- The reader takes `n` bytes of every buffer that it accepts, and looks at no others. -/
def Fixed (r : Reader α) (n : Nat) : Prop :=
  ∀ buf x rest, r.run buf = some (x, rest) →
    ∃ used, used.length = n ∧ buf = used ++ rest ∧ Reads r used x

theorem fixed_pure (x : α) : Fixed (pure x) 0 := by
  intro buf y rest h
  cases h
  exact ⟨[], rfl, rfl, reads_pure x⟩

theorem fixed_failure (n : Nat) : Fixed (failure : Reader α) n := nofun

theorem Fixed.bind {n m : Nat} (h : Fixed r n) (hf : ∀ x, Fixed (f x) m) :
    Fixed (r >>= f) (n + m) := by
  intro buf y rest hrun
  rw [StateT.run_bind] at hrun
  obtain ⟨⟨x, mid⟩, hx, hy⟩ := Option.bind_eq_some_iff.mp hrun
  obtain ⟨u, hu, rfl, hread⟩ := h _ _ _ hx
  obtain ⟨v, hv, rfl, hread'⟩ := hf x _ _ _ hy
  exact ⟨u ++ v, by rw [List.length_append, hu, hv], (List.append_assoc ..).symm, hread.bind hread'⟩

theorem Fixed.map {n : Nat} (h : Fixed r n) (g : α → β) : Fixed (do return g (← r)) n :=
  h.bind fun x => fixed_pure (g x)

theorem of_run_guard_bind {p : Prop} [Decidable p] {r : Unit → Reader α} {buf : List UInt8}
    {y : α × List UInt8} (h : (guard p >>= r).run buf = some y) : p ∧ (r ()).run buf = some y := by
  by_cases hp : p
  · rw [guard, if_pos hp] at h
    exact ⟨hp, h⟩
  · rw [guard, if_neg hp] at h
    cases h

theorem Fixed.guard_bind {n : Nat} {p : Prop} [Decidable p] {r : Unit → Reader α}
    (h : p → Fixed (r ()) n) : Fixed (guard p >>= r) n := by
  intro buf x rest hrun
  obtain ⟨hp, hrun⟩ := of_run_guard_bind hrun
  obtain ⟨u, hu, hbuf, hread⟩ := h hp buf x rest hrun
  exact ⟨u, hu, hbuf, hread.guard_bind hp⟩

theorem fixed_readBytes (n : Nat) : Fixed (readBytes n) n := by
  intro buf x rest h
  change (if _ then _ else _) = _ at h
  split_ifs at h with hle
  cases h
  have hlen := List.length_take_of_le hle
  exact ⟨buf.take n, hlen, (List.take_append_drop n buf).symm, reads_readBytes _ hlen⟩

theorem fixed_readVector (n : Nat) : Fixed (readVector n) n := by
  intro buf x rest h
  change (if h : _ then _ else _) = _ at h
  split_ifs at h with hle
  cases h
  exact ⟨buf.take n, List.length_take_of_le hle, (List.take_append_drop n buf).symm,
    reads_readVector ⟨(buf.take n).toArray, by simp [hle]⟩⟩

theorem fixed_readUInt8 : Fixed readUInt8 1 := (fixed_readBytes 1).map _

theorem fixed_readUInt16 : Fixed readUInt16 2 := (fixed_readBytes 2).map _

theorem fixed_readUInt32 : Fixed readUInt32 4 := (fixed_readBytes 4).map _

theorem fixed_readUInt64 : Fixed readUInt64 8 := (fixed_readBytes 8).map _

theorem fixed_consume (n : Nat) : Fixed (consume n) n := (fixed_readBytes n).map _

theorem fixed_readMany {k : Nat} (h : Fixed r k) (n : Nat) : Fixed (readMany r n) (n * k) := by
  induction n with
  | zero =>
    rw [Nat.zero_mul]
    exact fixed_pure []
  | succ n ih =>
    rw [Nat.succ_mul, Nat.add_comm (n * k)]
    exact h.bind fun x => ih.map (x :: ·)

end ByteBuffer
