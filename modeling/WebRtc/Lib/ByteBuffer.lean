import Mathlib

/-! Byte buffers with big-endian fields at fixed offsets. A store outside the buffer changes
nothing, so that every store keeps the length. -/

namespace ByteBuffer

open List

def store (buf : List UInt8) (offset : Nat) (bytes : List UInt8) : List UInt8 :=
  buf.mapIdx fun i b => if offset ≤ i ∧ i - offset < bytes.length then bytes.getD (i - offset) 0 else b

def bigEndian8 (v : BitVec 8) : List UInt8 := [⟨v⟩]

def bigEndian16 (v : BitVec 16) : List UInt8 := [⟨v.extractLsb' 8 8⟩, ⟨v.extractLsb' 0 8⟩]

def bigEndian32 (v : BitVec 32) : List UInt8 :=
  bigEndian16 (v.extractLsb' 16 16) ++ bigEndian16 (v.extractLsb' 0 16)

def store8 (buf : List UInt8) (offset : Nat) (v : BitVec 8) : List UInt8 :=
  store buf offset (bigEndian8 v)

def store16 (buf : List UInt8) (offset : Nat) (v : BitVec 16) : List UInt8 :=
  store buf offset (bigEndian16 v)

def store32 (buf : List UInt8) (offset : Nat) (v : BitVec 32) : List UInt8 :=
  store buf offset (bigEndian32 v)

def load8 (buf : List UInt8) (offset : Nat) : BitVec 8 := (buf.getD offset 0).toBitVec

def load16 (buf : List UInt8) (offset : Nat) : BitVec 16 :=
  load8 buf offset ++ load8 buf (offset + 1)

def load32 (buf : List UInt8) (offset : Nat) : BitVec 32 :=
  load16 buf offset ++ load16 buf (offset + 2)

section Store

variable (buf bytes : List UInt8) (offset i : Nat)

@[simp] theorem length_store : (store buf offset bytes).length = buf.length := by simp [store]

@[simp] theorem length_store8 (v : BitVec 8) : (store8 buf offset v).length = buf.length :=
  length_store ..

@[simp] theorem length_store16 (v : BitVec 16) : (store16 buf offset v).length = buf.length :=
  length_store ..

@[simp] theorem length_store32 (v : BitVec 32) : (store32 buf offset v).length = buf.length :=
  length_store ..

variable {buf bytes offset i}

theorem getD_store_of_disjoint (h : i < offset ∨ offset + bytes.length ≤ i) :
    (store buf offset bytes).getD i 0 = buf.getD i 0 := by
  have hout : ¬(offset ≤ i ∧ i - offset < bytes.length) := by omega
  simp only [store, getD_eq_getElem?_getD, List.getElem?_mapIdx, if_neg hout]
  cases buf[i]? <;> rfl

theorem getD_store_of_mem (h : offset ≤ i) (h' : i < offset + bytes.length) (hi : i < buf.length) :
    (store buf offset bytes).getD i 0 = bytes.getD (i - offset) 0 := by
  have hin : offset ≤ i ∧ i - offset < bytes.length := by omega
  simp [store, hin, hi]

@[simp] theorem load8_store_of_disjoint (h : i < offset ∨ offset + bytes.length ≤ i) :
    load8 (store buf offset bytes) i = load8 buf i := by
  rw [load8, load8, getD_store_of_disjoint h]

@[simp] theorem load16_store_of_disjoint (h : i + 2 ≤ offset ∨ offset + bytes.length ≤ i) :
    load16 (store buf offset bytes) i = load16 buf i := by
  rw [load16, load16, load8_store_of_disjoint (by omega), load8_store_of_disjoint (by omega)]

@[simp] theorem load32_store_of_disjoint (h : i + 4 ≤ offset ∨ offset + bytes.length ≤ i) :
    load32 (store buf offset bytes) i = load32 buf i := by
  rw [load32, load32, load16_store_of_disjoint (by omega), load16_store_of_disjoint (by omega)]

theorem load8_append (tail : List UInt8) (h : i < buf.length) :
    load8 (buf ++ tail) i = load8 buf i := by
  simp [load8, List.getElem?_append_left h]

theorem load16_append (tail : List UInt8) (h : i + 2 ≤ buf.length) :
    load16 (buf ++ tail) i = load16 buf i := by
  rw [load16, load16, load8_append _ (by omega), load8_append _ (by omega)]

theorem extractLsb'_append_extractLsb' {w : Nat} (v : BitVec (w + w)) :
    v.extractLsb' w w ++ v.extractLsb' 0 w = v := by
  apply BitVec.eq_of_getElem_eq
  intro j hj
  simp

@[simp] theorem load8_store16_of_disjoint {v : BitVec 16} (h : i < offset ∨ offset + 2 ≤ i) :
    load8 (store16 buf offset v) i = load8 buf i := load8_store_of_disjoint h

@[simp] theorem load8_store32_of_disjoint {v : BitVec 32} (h : i < offset ∨ offset + 4 ≤ i) :
    load8 (store32 buf offset v) i = load8 buf i := load8_store_of_disjoint h

@[simp] theorem load16_store8_of_disjoint {v : BitVec 8} (h : i + 2 ≤ offset ∨ offset + 1 ≤ i) :
    load16 (store8 buf offset v) i = load16 buf i := load16_store_of_disjoint h

@[simp] theorem load16_store16_of_disjoint {v : BitVec 16} (h : i + 2 ≤ offset ∨ offset + 2 ≤ i) :
    load16 (store16 buf offset v) i = load16 buf i := load16_store_of_disjoint h

@[simp] theorem load16_store32_of_disjoint {v : BitVec 32} (h : i + 2 ≤ offset ∨ offset + 4 ≤ i) :
    load16 (store32 buf offset v) i = load16 buf i := load16_store_of_disjoint h

@[simp] theorem load32_store16_of_disjoint {v : BitVec 16} (h : i + 4 ≤ offset ∨ offset + 2 ≤ i) :
    load32 (store16 buf offset v) i = load32 buf i := load32_store_of_disjoint h

@[simp] theorem load32_store32_of_disjoint {v : BitVec 32} (h : i + 4 ≤ offset ∨ offset + 4 ≤ i) :
    load32 (store32 buf offset v) i = load32 buf i := load32_store_of_disjoint h

theorem length_bigEndian16 (v : BitVec 16) : (bigEndian16 v).length = 2 := rfl

theorem length_bigEndian32 (v : BitVec 32) : (bigEndian32 v).length = 4 := rfl

theorem load16_bigEndian16 (v : BitVec 16) : load16 (bigEndian16 v) 0 = v :=
  extractLsb'_append_extractLsb' (show BitVec (8 + 8) from v)

theorem load32_bigEndian32 (v : BitVec 32) : load32 (bigEndian32 v) 0 = v := by
  have hhigh : load16 (bigEndian32 v) 0 = v.extractLsb' 16 16 := load16_bigEndian16 _
  have hlow : load16 (bigEndian32 v) 2 = v.extractLsb' 0 16 := load16_bigEndian16 _
  rw [load32, hhigh, hlow]
  exact extractLsb'_append_extractLsb' (show BitVec (16 + 16) from v)

@[simp] theorem load8_store8 {v : BitVec 8} (h : offset < buf.length) :
    load8 (store8 buf offset v) offset = v := by
  rw [load8, store8, getD_store_of_mem le_rfl (by simp [bigEndian8]) h]
  simp [bigEndian8]

@[simp] theorem load16_store16 {v : BitVec 16} (h : offset + 2 ≤ buf.length) :
    load16 (store16 buf offset v) offset = v := by
  rw [load16, load8, load8, store16, getD_store_of_mem le_rfl (by simp [bigEndian16]) (by omega),
    getD_store_of_mem (by omega) (by simp [bigEndian16]) (by omega)]
  simpa [bigEndian16] using extractLsb'_append_extractLsb' (show BitVec (8 + 8) from v)

@[simp] theorem store_nil : store buf offset [] = buf := by
  apply ext_getElem?
  intro j
  cases h : buf[j]? <;> simp [store, h]

theorem store_append (a b : List UInt8) :
    store buf offset (a ++ b) = store (store buf offset a) (offset + a.length) b := by
  apply ext_getElem?
  intro j
  simp only [store, List.getElem?_mapIdx]
  cases buf[j]? with
  | none => rfl
  | some byte =>
    by_cases hj : offset + a.length ≤ j
    · obtain ⟨k, rfl⟩ := Nat.exists_eq_add_of_le hj
      have hsub : offset + a.length + k - offset = a.length + k := by omega
      have hle : offset ≤ offset + a.length + k := by omega
      simp [hsub, hle, List.getElem?_append_right]
    · by_cases hle : offset ≤ j
      · have hlt : j - offset < a.length := by omega
        have hlt' : j - offset < a.length + b.length := by omega
        simp [hj, hle, hlt, hlt']
      · simp [hj, hle]

theorem store32_eq (v : BitVec 32) : store32 buf offset v =
      store16 (store16 buf offset (v.extractLsb' 16 16)) (offset + 2) (v.extractLsb' 0 16) :=
  store_append ..

@[simp] theorem load32_store32 {v : BitVec 32} (h : offset + 4 ≤ buf.length) :
    load32 (store32 buf offset v) offset = v := by
  rw [load32, store32_eq, load16_store16 (by simpa using h)]
  rw [store16, load16_store_of_disjoint (.inl le_rfl), load16_store16 (by omega)]
  exact extractLsb'_append_extractLsb' (show BitVec (16 + 16) from v)

theorem drop_store (h : buf.length = offset + bytes.length) :
    (store buf offset bytes).drop offset = bytes := by
  apply ext_getElem?
  intro j
  by_cases hj : j < bytes.length
  · have hin : offset + j < buf.length := by omega
    simp [store, hin, hj]
  · have hout : buf.length ≤ offset + j := by omega
    simp [store, hout, Nat.not_lt.mp hj]

theorem drop_store_of_le {n : Nat} (h : offset + bytes.length ≤ n) :
    (store buf offset bytes).drop n = buf.drop n := by
  apply ext_getElem?
  intro j
  have hout : ¬(offset ≤ n + j ∧ n + j - offset < bytes.length) := by omega
  cases hb : buf[n + j]? <;> simp [store, hb, hout]

theorem store_store {other : List UInt8} (h : bytes.length = other.length) :
    store (store buf offset bytes) offset other = store buf offset other := by
  apply ext_getElem?
  intro j
  by_cases hj : offset ≤ j ∧ j - offset < other.length
  · cases hb : buf[j]? <;> simp [store, hb, hj]
  · cases hb : buf[j]? <;> simp [store, hb, hj, h]

theorem store_eq_self (h : (buf.drop offset).take bytes.length = bytes) :
    store buf offset bytes = buf := by
  apply ext_getElem?
  intro j
  by_cases hj : offset ≤ j ∧ j - offset < bytes.length
  · have hbyte : buf[j]? = bytes[j - offset]? := by
      rw [← h, List.getElem?_take_of_lt hj.2, List.getElem?_drop, Nat.add_sub_cancel' hj.1]
    rw [List.getElem?_eq_getElem hj.2] at hbyte
    simp [store, hj, hbyte]
  · cases hb : buf[j]? <;> simp [store, hb, hj]

theorem take_store : (store buf offset bytes).take offset = buf.take offset := by
  apply ext_getElem?
  intro j
  by_cases hj : j < offset
  · cases hb : buf[j]? <;> simp [store, hj, hb, Nat.not_le.mpr hj]
  · simp [hj]

theorem store_eq_append (h : offset + bytes.length ≤ buf.length) :
    store buf offset bytes = buf.take offset ++ bytes ++ buf.drop (offset + bytes.length) := by
  have hdrop : (store buf offset bytes).drop offset =
      bytes ++ buf.drop (offset + bytes.length) := by
    rw [← take_append_drop bytes.length ((store buf offset bytes).drop offset),
      drop_drop, drop_store_of_le le_rfl]
    congr 1
    apply ext_getElem?
    intro j
    by_cases hj : j < bytes.length
    · have hin : offset + j < buf.length := by omega
      simp [store, hin, hj]
    · simp [hj]
  rw [← take_append_drop offset (store buf offset bytes), take_store, hdrop, append_assoc]

end Store

/-- A store that fails outside the buffer. -/
def write (buf : List UInt8) (offset : Nat) (bytes : List UInt8) : Option (List UInt8) :=
  if offset + bytes.length ≤ buf.length then some (store buf offset bytes) else none

theorem write_eq_some_iff {buf bytes buf' : List UInt8} {offset : Nat} :
    write buf offset bytes = some buf' ↔
      offset + bytes.length ≤ buf.length ∧ store buf offset bytes = buf' := by
  unfold write
  split_ifs with h <;> simp [h]

theorem write_middle {a old new b : List UInt8} (h : new.length = old.length) :
    write (a ++ (old ++ b)) a.length new = some (a ++ (new ++ b)) := by
  have hfits : a.length + new.length ≤ (a ++ (old ++ b)).length := by
    simp only [length_append]
    omega
  rw [write, if_pos hfits, store_eq_append hfits, take_left, h, ← drop_drop,
    drop_left, drop_left, append_assoc]

theorem length_of_write {buf buf' bytes : List UInt8} {offset : Nat}
    (h : write buf offset bytes = some buf') :
    offset + bytes.length ≤ buf.length ∧ buf'.length = buf.length := by
  obtain ⟨hle, rfl⟩ := write_eq_some_iff.mp h
  exact ⟨hle, length_store ..⟩

section Holds

/-- The bytes stand in the buffer from the offset on. -/
def Holds (buf : List UInt8) (offset : Nat) (bytes : List UInt8) : Prop :=
  (buf.drop offset).take bytes.length = bytes

variable {buf buf' bytes new a b : List UInt8} {offset at' : Nat}

theorem holds_nil : Holds buf offset [] := rfl

theorem holds_append : Holds buf offset (a ++ b) ↔
    Holds buf offset a ∧ Holds buf (offset + a.length) b := by
  unfold Holds
  rw [length_append, take_add, drop_drop]
  constructor
  · intro h
    have hlength := congrArg List.length h
    simp only [length_append, length_take, length_drop] at hlength
    have ha : ((buf.drop offset).take a.length).length = a.length := by
      rw [length_take, length_drop]
      omega
    exact append_inj h ha
  · rintro ⟨ha, hb⟩
    rw [ha, hb]

theorem holds_zero_iff : Holds buf 0 bytes ↔ bytes <+: buf := by
  rw [Holds, drop_zero, prefix_iff_eq_take, eq_comm]

theorem holds_take_drop (buf : List UInt8) {offset n : Nat} (h : offset + n ≤ buf.length) :
    ((buf.drop offset).take n).length = n ∧ Holds buf offset ((buf.drop offset).take n) := by
  have hlength : ((buf.drop offset).take n).length = n := by
    rw [length_take, length_drop]
    omega
  exact ⟨hlength, by rw [Holds, hlength]⟩

theorem Holds.of_write (h : write buf offset bytes = some buf') : Holds buf' offset bytes := by
  obtain ⟨hle, rfl⟩ := write_eq_some_iff.mp h
  have hpre : (buf.take offset).length = offset := by
    rw [length_take]
    omega
  rw [Holds, store_eq_append hle, append_assoc, drop_left' hpre, take_left]

theorem Holds.frame (h : Holds buf offset bytes) (hwrite : write buf at' new = some buf')
    (hdisjoint : offset + bytes.length ≤ at' ∨ at' + new.length ≤ offset) :
    Holds buf' offset bytes := by
  obtain ⟨-, rfl⟩ := write_eq_some_iff.mp hwrite
  unfold Holds at h ⊢
  rcases hdisjoint with hbefore | hafter
  · have htake : (store buf at' new).take (offset + bytes.length) =
        buf.take (offset + bytes.length) := by
      rw [← Nat.min_eq_left hbefore, ← take_take, take_store, take_take]
    rw [take_drop, htake, ← take_drop, h]
  · rw [drop_store_of_le hafter, h]

theorem Holds.replace {o : List UInt8} (h : Holds buf offset (a ++ (o ++ b)))
    (hwrite : write buf (offset + a.length) new = some buf') (hlength : new.length = o.length) :
    Holds buf' offset (a ++ (new ++ b)) := by
  rw [holds_append, holds_append] at h ⊢
  obtain ⟨ha, _, hb⟩ := h
  rw [hlength]
  exact ⟨ha.frame hwrite (.inl le_rfl), .of_write hwrite, hb.frame hwrite (.inr (by rw [hlength]))⟩

theorem Holds.getD (h : Holds buf offset bytes) {i : Nat} (hi : i < bytes.length) :
    buf.getD (offset + i) 0 = bytes.getD i 0 := by
  conv_rhs => rw [← h]
  simp [hi]

theorem Holds.load16 {v : BitVec 16} (h : Holds buf offset (bigEndian16 v)) :
    load16 buf offset = v := by
  have h₀ := h.getD (show 0 < 2 by decide)
  have h₁ := h.getD (show 1 < 2 by decide)
  rw [← load16_bigEndian16 v]
  simp only [ByteBuffer.load16, load8, ← h₀, ← h₁, Nat.add_zero, Nat.zero_add]

theorem Holds.load32 {v : BitVec 32} (h : Holds buf offset (bigEndian32 v)) :
    load32 buf offset = v := by
  obtain ⟨hhigh, hlow⟩ := holds_append.mp h
  rw [length_bigEndian16] at hlow
  rw [ByteBuffer.load32, hhigh.load16, hlow.load16]
  exact extractLsb'_append_extractLsb' (show BitVec (16 + 16) from v)

end Holds

section Records

variable {α β : Type} (encode : α → List UInt8) (decode : List UInt8 → β) (size : Nat)

/-- Records of `size` bytes, stored one after the other. -/
def storeEach (buf : List UInt8) (offset : Nat) : List α → List UInt8
  | [] => buf
  | item :: items => storeEach (store buf offset (encode item)) (offset + size) items

def loadEach (buf : List UInt8) (offset : Nat) : Nat → List β
  | 0 => []
  | count + 1 => decode ((buf.drop offset).take size) :: loadEach buf (offset + size) count

variable {encode decode size}

theorem storeEach_eq (hsize : ∀ a, (encode a).length = size) (buf : List UInt8) (offset : Nat)
    (items : List α) :
    storeEach encode size buf offset items = store buf offset (items.flatMap encode) := by
  induction items generalizing buf offset with
  | nil => simp [storeEach]
  | cons item items ih => rw [storeEach, ih, flatMap_cons, store_append, hsize]

theorem loadEach_eq {f : α → β} (hsize : ∀ a, (encode a).length = size)
    (hdecode : ∀ a, decode (encode a) = f a) {buf rest : List UInt8} {offset : Nat}
    {items : List α} (h : buf.drop offset = items.flatMap encode ++ rest) :
    loadEach decode size buf offset items.length = items.map f := by
  induction items generalizing offset with
  | nil => rfl
  | cons item items ih =>
    rw [flatMap_cons, append_assoc] at h
    have hnext : buf.drop (offset + size) = items.flatMap encode ++ rest := by
      rw [← drop_drop, h, drop_left' (hsize item)]
    rw [length_cons, loadEach, h, take_left' (hsize item), hdecode, ih hnext, map_cons]

theorem length_flatMap_encode (hsize : ∀ a, (encode a).length = size) (items : List α) :
    (items.flatMap encode).length = items.length * size := by
  induction items with
  | nil => simp
  | cons item items ih => simp [hsize, ih, Nat.add_mul, Nat.add_comm]

end Records

end ByteBuffer
