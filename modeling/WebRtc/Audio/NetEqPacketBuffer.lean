import WebRtc.Lib.Checked

/-! The packet buffer of NetEq (`packet_buffer.cc`): a list of packets that is searched from its
back. While the timestamps lie within half of their range it is sorted and holds one packet for a
timestamp. -/

namespace WebRtc.Audio

open List

structure Priority where
  codecLevel : Nat
  redLevel : Nat
  deriving DecidableEq

def Priority.lt (a b : Priority) : Bool :=
  if a.codecLevel = b.codecLevel then a.redLevel < b.redLevel else a.codecLevel < b.codecLevel

structure Packet where
  timestamp : BitVec 32
  sequenceNumber : BitVec 16
  priority : Priority
  empty : Bool
  deriving DecidableEq

namespace Packet

def lt (a b : Packet) : Bool :=
  if a.timestamp = b.timestamp then
    if a.sequenceNumber = b.sequenceNumber then a.priority.lt b.priority
    else (b.sequenceNumber - a.sequenceNumber).toNat < 0xFFFF / 2
  else (b.timestamp - a.timestamp).toNat < 0xFFFFFFFF / 2

end Packet

structure PacketBuffer where
  maxNumberOfPackets : Nat
  packets : List Packet

inductive InsertResult where
  | ok
  | flushed
  | invalidPacket
  deriving DecidableEq

namespace PacketBuffer

/-- The search from the back for a packet that does not come after the new one, and what follows it;
a packet with the same timestamp that comes first stays, and one that comes after is replaced. -/
def place (packets : List Packet) (packet : Packet) : List Packet :=
  let (after, before) := packets.reverse.span fun q => packet.lt q
  if before.head?.any fun q => decide (packet.timestamp = q.timestamp) then packets
  else
    let right := after.reverse
    let right := if right.head?.any fun q => decide (packet.timestamp = q.timestamp) then right.tail
      else right
    before.reverse ++ packet :: right

def insertPacket (b : PacketBuffer) (packet : Packet) : InsertResult × PacketBuffer :=
  if packet.empty then (.invalidPacket, b)
  else if b.packets.length ≥ b.maxNumberOfPackets then
    (.flushed, { b with packets := place [] packet })
  else (.ok, { b with packets := place b.packets packet })

def popFront (b : PacketBuffer) : PacketBuffer := { b with packets := b.packets.tail }

end PacketBuffer

variable {base : BitVec 32}

namespace Packet

variable {a b : Packet}

theorem lt_irrefl (a : Packet) : a.lt a = false := by simp [lt, Priority.lt]

theorem lt_asymm (h : a.lt b = true) : b.lt a = false := by
  unfold lt at h ⊢
  by_cases ht : a.timestamp = b.timestamp
  · rw [if_pos ht] at h
    rw [if_pos ht.symm]
    by_cases hs : a.sequenceNumber = b.sequenceNumber
    · rw [if_pos hs] at h
      rw [if_pos hs.symm]
      unfold Priority.lt at h ⊢
      split_ifs at h ⊢ <;> simp_all <;> omega
    · rw [if_neg hs, decide_eq_true_eq] at h
      rw [if_neg (Ne.symm hs), decide_eq_false_iff_not]
      bv_omega
  · rw [if_neg ht, decide_eq_true_eq] at h
    rw [if_neg (Ne.symm ht), decide_eq_false_iff_not]
    bv_omega

def offset (base : BitVec 32) (a : Packet) : Nat := (a.timestamp - base).toNat

def Inside (width : Nat) (base : BitVec 32) (a : Packet) : Prop := a.offset base < width

theorem lt_iff_offset (ha : a.Inside (2 ^ 31 - 1) base)
    (hb : b.Inside (2 ^ 31 - 1) base) (hne : a.timestamp ≠ b.timestamp) :
    a.lt b = decide (a.offset base < b.offset base) := by
  unfold Inside offset at ha hb
  unfold lt offset
  rw [if_neg hne]
  apply decide_eq_decide.mpr
  bv_omega

theorem offset_inj (base : BitVec 32) : a.offset base = b.offset base ↔ a.timestamp = b.timestamp := by
  unfold offset
  constructor
  · intro h
    bv_omega
  · intro h
    rw [h]

end Packet

namespace PacketBuffer

variable {base : BitVec 32} {l before after : List Packet} {p q : Packet}

def Sorted (base : BitVec 32) (l : List Packet) : Prop :=
  l.Pairwise fun a b => a.offset base < b.offset base

theorem Sorted.split (h : Sorted base l) (p : Packet) :
    ∃ before same after, l = before ++ same ++ after ∧
      (∀ a ∈ before, a.offset base < p.offset base) ∧ (∀ a ∈ after, p.offset base < a.offset base) ∧
      (same = [] ∨ ∃ q, same = [q] ∧ q.timestamp = p.timestamp) := by
  induction l with
  | nil => exact ⟨[], [], [], rfl, nofun, nofun, .inl rfl⟩
  | cons x l ih =>
    obtain ⟨hx, hl⟩ := pairwise_cons.mp h
    rcases lt_trichotomy (x.offset base) (p.offset base) with hlt | heq | hgt
    · obtain ⟨before, same, after, rfl, hbefore, hafter, hsame⟩ := ih hl
      refine ⟨x :: before, same, after, rfl, ?_, hafter, hsame⟩
      intro a ha
      rcases mem_cons.mp ha with rfl | ha
      · exact hlt
      · exact hbefore a ha
    · refine ⟨[], [x], l, rfl, nofun, ?_, .inr ⟨x, rfl, (Packet.offset_inj base).mp heq⟩⟩
      intro a ha
      have := hx a ha
      omega
    · refine ⟨[], [], x :: l, rfl, nofun, ?_, .inl rfl⟩
      intro a ha
      rcases mem_cons.mp ha with rfl | ha
      · exact hgt
      · exact hgt.trans (hx a ha)

theorem span_of_all {α : Type} {f : α → Bool} {l₁ l₂ : List α} (h : ∀ a ∈ l₁, f a = true)
    (h' : ∀ a, l₂.head? = some a → f a = false) : (l₁ ++ l₂).span f = (l₁, l₂) := by
  rw [span_eq_takeWhile_dropWhile, takeWhile_append_of_pos h, dropWhile_append_of_pos h]
  cases l₂ with
  | nil => simp
  | cons x l₂ =>
    have hx := h' x rfl
    rw [takeWhile_cons_of_neg (by simp [hx]), dropWhile_cons_of_neg (by simp [hx]),
      append_nil]

section Place

variable (hp : p.Inside (2 ^ 31 - 1) base) (hin : ∀ a ∈ l, a.Inside (2 ^ 31 - 1) base)
include hp hin

theorem lt_of_after {a : Packet} (ha : a ∈ l) (h : p.offset base < a.offset base) :
    p.lt a = true := by
  have hne : p.timestamp ≠ a.timestamp := fun heq =>
    h.ne ((Packet.offset_inj base).mpr heq)
  rw [Packet.lt_iff_offset hp (hin a ha) hne]
  exact decide_eq_true h

theorem not_lt_of_before {a : Packet} (ha : a ∈ l) (h : a.offset base < p.offset base) :
    p.lt a = false := by
  have hne : p.timestamp ≠ a.timestamp := fun heq =>
    h.ne' ((Packet.offset_inj base).mpr heq)
  rw [Packet.lt_iff_offset hp (hin a ha) hne]
  exact decide_eq_false (by omega)

omit hp hin in
theorem head_any_eq_false (h : ∀ a ∈ l, p.offset base ≠ a.offset base) :
    l.head?.any (fun q => decide (p.timestamp = q.timestamp)) = false := by
  rw [Option.any_eq_false]
  intro a ha
  simpa using mt (Packet.offset_inj base).mpr (h a (mem_of_mem_head? ha))

theorem place_absent (hl : l = before ++ after)
    (hbefore : ∀ a ∈ before, a.offset base < p.offset base)
    (hafter : ∀ a ∈ after, p.offset base < a.offset base) : place l p = before ++ p :: after := by
  subst hl
  have hspan : (before ++ after).reverse.span (fun q => p.lt q) = (after.reverse, before.reverse) := by
    rw [reverse_append]
    refine span_of_all ?_ ?_
    · intro a ha
      have ha := mem_reverse.mp ha
      exact lt_of_after hp hin (mem_append_right _ ha) (hafter a ha)
    · intro a ha
      have ha := mem_reverse.mp (mem_of_mem_head? ha)
      exact not_lt_of_before hp hin (mem_append_left _ ha) (hbefore a ha)
  have hleft := head_any_eq_false (l := before.reverse) fun a ha =>
    (hbefore a (mem_reverse.mp ha)).ne'
  have hright := head_any_eq_false fun a ha => (hafter a ha).ne
  rw [place, hspan]
  simp only [hleft, hright, reverse_reverse, Bool.false_eq_true, if_false]

theorem place_present (hl : l = before ++ q :: after) (hq : q.timestamp = p.timestamp)
    (hbefore : ∀ a ∈ before, a.offset base < p.offset base)
    (hafter : ∀ a ∈ after, p.offset base < a.offset base) :
    place l p = before ++ (if p.lt q then p else q) :: after := by
  subst hl
  have hall : ∀ a ∈ after.reverse, p.lt a = true := by
    intro a ha
    have ha := mem_reverse.mp ha
    exact lt_of_after hp hin (by simp [ha]) (hafter a ha)
  have hrev : (before ++ q :: after).reverse = after.reverse ++ q :: before.reverse := by simp
  by_cases hlt : p.lt q = true
  · have hspan : (before ++ q :: after).reverse.span (fun q => p.lt q) =
        (after.reverse ++ [q], before.reverse) := by
      rw [hrev, show after.reverse ++ q :: before.reverse = after.reverse ++ [q] ++ before.reverse by simp]
      refine span_of_all ?_ ?_
      · intro a ha
        rcases mem_append.mp ha with ha | ha
        · exact hall a ha
        · rw [mem_singleton.mp ha]
          exact hlt
      · intro a ha
        have ha := mem_reverse.mp (mem_of_mem_head? ha)
        exact not_lt_of_before hp hin (mem_append_left _ ha) (hbefore a ha)
    have hleft := head_any_eq_false (l := before.reverse) fun a ha =>
      (hbefore a (mem_reverse.mp ha)).ne'
    rw [place, hspan]
    simp only [hleft, Bool.false_eq_true, if_false, reverse_append, reverse_reverse]
    simp [hq, hlt]
  · have hspan : (before ++ q :: after).reverse.span (fun q => p.lt q) =
        (after.reverse, q :: before.reverse) := by
      rw [hrev]
      refine span_of_all hall ?_
      intro a ha
      cases ha
      simpa using hlt
    rw [place, hspan]
    simp [hq, hlt]

end Place

end PacketBuffer

structure BufferRun where
  buffer : PacketBuffer
  since : BitVec 32 → List Packet

inductive BufferOp where
  | insertPacket (packet : Packet)
  | popFront

namespace BufferRun

def full (r : BufferRun) : Prop := r.buffer.packets.length ≥ r.buffer.maxNumberOfPackets

instance (width : Nat) (base : BitVec 32) (a : Packet) : Decidable (a.Inside width base) :=
  inferInstanceAs (Decidable (_ < _))

instance (r : BufferRun) : Decidable r.full := inferInstanceAs (Decidable (_ ≥ _))

def step (r : BufferRun) : BufferOp → BufferRun
  | .insertPacket packet =>
    if packet.empty then r
    else
      let since := if r.full then fun _ => [] else r.since
      ⟨(r.buffer.insertPacket packet).2,
        Function.update since packet.timestamp (since packet.timestamp ++ [packet])⟩
  | .popFront =>
    ⟨r.buffer.popFront, match r.buffer.packets with
      | [] => r.since
      | packet :: _ => Function.update r.since packet.timestamp []⟩

def ComesFirst (l : List Packet) (x : Packet) : Prop := ∀ y ∈ l, y = x ∨ x.lt y = true

structure Kept (l : List Packet) (q : Packet) : Prop where
  mem : q ∈ l
  first : ∀ x ∈ l, ComesFirst l x → q = x
  least : (∀ x ∈ l, ∀ y ∈ l, ∀ z ∈ l, x.lt y = true → y.lt z = true → x.lt z = true) →
    ∀ x ∈ l, x.lt q = false

theorem kept_singleton (q : Packet) : Kept [q] q := by
  refine ⟨mem_singleton_self q, ?_, ?_⟩
  · intro x hx _
    exact (mem_singleton.mp hx).symm
  · intro _ x hx
    rw [mem_singleton.mp hx]
    exact q.lt_irrefl

theorem Kept.insert {l : List Packet} {q : Packet} (h : Kept l q) (p : Packet) :
    Kept (l ++ [p]) (if p.lt q then p else q) := by
  have hold : ∀ x ∈ l, x ∈ l ++ [p] := fun x hx => mem_append_left _ hx
  have hnew : p ∈ l ++ [p] := mem_append_right _ (mem_singleton_self p)
  refine ⟨?_, ?_, ?_⟩
  · split_ifs
    · exact hnew
    · exact hold q h.mem
  · intro x hx hfirst
    rcases mem_append.mp hx with hx | hx
    · have hqx := h.first x hx fun y hy => hfirst y (hold y hy)
      subst hqx
      rcases hfirst p hnew with rfl | hlt
      · exact ite_self p
      · rw [if_neg (by rw [Packet.lt_asymm hlt]; decide)]
    · rw [mem_singleton.mp hx] at hfirst ⊢
      rcases hfirst q (hold q h.mem) with rfl | hlt
      · exact ite_self q
      · rw [if_pos hlt]
  · intro htrans x hx
    have hleast := h.least fun x hx y hy z hz => htrans x (hold x hx) y (hold y hy) z (hold z hz)
    split_ifs with hlt
    · rcases mem_append.mp hx with hx | hx
      · by_contra hxp
        have hxq := htrans x (hold x hx) p hnew q (hold q h.mem) (by simpa using hxp) hlt
        rw [hleast x hx] at hxq
        cases hxq
      · rw [mem_singleton.mp hx]
        exact p.lt_irrefl
    · rcases mem_append.mp hx with hx | hx
      · exact hleast x hx
      · rw [mem_singleton.mp hx]
        simpa using hlt

structure Ordered (base : BitVec 32) (r : BufferRun) : Prop where
  sorted : PacketBuffer.Sorted base r.buffer.packets
  inside : ∀ a ∈ r.buffer.packets, a.Inside (2 ^ 31 - 1) base
  kept : ∀ a ∈ r.buffer.packets, Kept (r.since a.timestamp) a
  absent : ∀ t, (∀ a ∈ r.buffer.packets, a.timestamp ≠ t) → r.since t = []
  room : 0 < r.buffer.maxNumberOfPackets
  size : r.buffer.packets.length ≤ r.buffer.maxNumberOfPackets

variable {r : BufferRun}

section

variable (h : r.Ordered base)
include h

theorem Ordered.flush : Ordered base ⟨{ r.buffer with packets := [] }, fun _ => []⟩ :=
  ⟨List.Pairwise.nil, nofun, nofun, fun _ _ => rfl, h.room, Nat.zero_le _⟩

theorem Ordered.place {p : Packet} (hp : p.Inside (2 ^ 31 - 1) base) (hfull : ¬r.full) :
    Ordered base ⟨{ r.buffer with packets := PacketBuffer.place r.buffer.packets p },
      Function.update r.since p.timestamp (r.since p.timestamp ++ [p])⟩ := by
  have hsize : r.buffer.packets.length < r.buffer.maxNumberOfPackets := not_le.mp hfull
  obtain ⟨before, same, after, hl, hbefore, hafter, hsame⟩ := h.sorted.split p
  have hmem : ∀ a, a ∈ before ∨ a ∈ after → a ∈ r.buffer.packets := by
    intro a ha
    rw [hl]
    rcases ha with ha | ha <;> simp [ha]
  have hne : ∀ a, a ∈ before ∨ a ∈ after → a.timestamp ≠ p.timestamp := by
    intro a ha heq
    have hoff := (Packet.offset_inj base).mpr heq
    rcases ha with ha | ha
    · have := hbefore a ha
      omega
    · have := hafter a ha
      omega
  -- The packet that takes the place, whichever it is, has the timestamp of the new one.
  have hbuild : ∀ x, x.timestamp = p.timestamp → Kept (r.since p.timestamp ++ [p]) x →
      PacketBuffer.place r.buffer.packets p = before ++ x :: after →
      (before ++ x :: after).length ≤ r.buffer.maxNumberOfPackets →
      Ordered base ⟨{ r.buffer with packets := PacketBuffer.place r.buffer.packets p },
        Function.update r.since p.timestamp (r.since p.timestamp ++ [p])⟩ := by
    intro x hx hkept hplace hlength
    have hoff := (Packet.offset_inj base).mpr hx
    have hcases : ∀ a ∈ before ++ x :: after, a = x ∨ a ∈ before ∨ a ∈ after := by
      intro a ha
      rcases mem_append.mp ha with ha | ha
      · exact .inr (.inl ha)
      · rcases mem_cons.mp ha with ha | ha
        · exact .inl ha
        · exact .inr (.inr ha)
    have hsorted := h.sorted
    rw [hl, PacketBuffer.Sorted, append_assoc, pairwise_append] at hsorted
    obtain ⟨hsortedBefore, hsortedRest, hcross⟩ := hsorted
    rw [hplace]
    refine ⟨?_, ?_, ?_, ?_, h.room, hlength⟩
    · refine pairwise_append.mpr ⟨hsortedBefore, pairwise_cons.mpr ⟨?_, ?_⟩, ?_⟩
      · intro a ha
        rw [hoff]
        exact hafter a ha
      · exact (pairwise_append.mp hsortedRest).2.1
      · intro a ha b hb
        rcases mem_cons.mp hb with rfl | hb
        · rw [hoff]
          exact hbefore a ha
        · exact hcross a ha b (mem_append_right _ hb)
    · intro a ha
      rcases hcases a ha with rfl | ha
      · unfold Packet.Inside
        rw [hoff]
        exact hp
      · exact h.inside a (hmem a ha)
    · intro a ha
      rcases hcases a ha with rfl | ha
      · dsimp only
        rw [hx, Function.update_self]
        exact hkept
      · dsimp only
        rw [Function.update_of_ne (hne a ha)]
        exact h.kept a (hmem a ha)
    · intro t ht
      have htx : t ≠ p.timestamp := by
        rw [← hx]
        exact (ht x (by simp)).symm
      dsimp only
      rw [Function.update_of_ne htx]
      apply h.absent
      intro a ha
      rw [hl] at ha
      rcases mem_append.mp ha with ha | ha
      · rcases mem_append.mp ha with ha | ha
        · exact ht a (by simp [ha])
        · rcases hsame with rfl | ⟨q, rfl, hq⟩
          · cases ha
          · rw [mem_singleton.mp ha, hq]
            exact htx.symm
      · exact ht a (by simp [ha])
  rcases hsame with rfl | ⟨q, rfl, hq⟩
  · rw [append_nil] at hl
    have hsince : r.since p.timestamp = [] := by
      apply h.absent
      intro a ha
      rw [hl] at ha
      exact hne a (mem_append.mp ha)
    refine hbuild p rfl ?_ (PacketBuffer.place_absent hp h.inside hl hbefore hafter) ?_
    · rw [hsince]
      exact kept_singleton p
    · rw [hl] at hsize
      simp only [length_append, length_cons] at hsize ⊢
      omega
  · rw [append_assoc, singleton_append] at hl
    have hkept := h.kept q (by rw [hl]; simp)
    rw [hq] at hkept
    refine hbuild _ ?_ (hkept.insert p)
      (PacketBuffer.place_present hp h.inside hl hq hbefore hafter) ?_
    · split_ifs
      · rfl
      · exact hq
    · rw [hl] at hsize
      simp only [length_append, length_cons] at hsize ⊢
      omega

theorem Ordered.insertPacket {p : Packet}
    (hp : p.Inside (2 ^ 31 - 1) base) : Ordered base (r.step (.insertPacket p)) := by
  rw [step, PacketBuffer.insertPacket]
  by_cases hempty : p.empty = true
  · rw [if_pos hempty]
    exact h
  · rw [if_neg hempty, if_neg hempty]
    by_cases hfull : r.full
    · have hroom : ¬full ⟨{ r.buffer with packets := [] }, fun _ => []⟩ := not_le.mpr h.room
      have hlength : r.buffer.packets.length ≥ r.buffer.maxNumberOfPackets := hfull
      rw [if_pos hfull, if_pos hlength]
      exact h.flush.place hp hroom
    · have hlength : ¬r.buffer.packets.length ≥ r.buffer.maxNumberOfPackets := hfull
      rw [if_neg hfull, if_neg hlength]
      exact h.place hp hfull

theorem Ordered.popFront : Ordered base (r.step .popFront) := by
  obtain ⟨⟨maxNumberOfPackets, packets⟩, since⟩ := r
  cases packets with
  | nil => exact h
  | cons q l =>
    obtain ⟨hq, hl⟩ := pairwise_cons.mp h.sorted
    have hne : ∀ a ∈ l, a.timestamp ≠ q.timestamp := by
      intro a ha heq
      have hlt := hq a ha
      rw [(Packet.offset_inj base).mpr heq] at hlt
      omega
    refine ⟨hl, fun a ha => h.inside a (mem_cons_of_mem q ha), ?_, ?_, h.room, ?_⟩
    · intro a ha
      show Kept (Function.update since q.timestamp [] a.timestamp) a
      rw [Function.update_of_ne (hne a ha)]
      exact h.kept a (mem_cons_of_mem q ha)
    · intro t ht
      show Function.update since q.timestamp [] t = []
      by_cases htq : t = q.timestamp
      · rw [htq, Function.update_self]
      · rw [Function.update_of_ne htq]
        apply h.absent
        intro a ha
        rcases mem_cons.mp ha with rfl | ha
        · exact fun heq => htq heq.symm
        · exact ht a ha
    · have hsize := h.size
      simp only [length_cons] at hsize
      show l.length ≤ maxNumberOfPackets
      omega

end

end BufferRun

def bufferMachine (width : Nat) (base : BitVec 32) : Machine BufferRun BufferOp where
  initial r := 0 < r.buffer.maxNumberOfPackets ∧ r.buffer.packets = [] ∧ r.since = fun _ => []
  enabled _
    | .insertPacket p => p.Inside width base
    | .popFront => True
  step r op := some (r.step op)

def Later (a b : Packet) : Prop :=
  a.timestamp ≠ b.timestamp ∧ (b.timestamp - a.timestamp).toNat < 2 ^ 31

instance (a b : Packet) : Decidable (Later a b) := inferInstanceAs (Decidable (_ ∧ _))

theorem later_of_offset {a b : Packet} (ha : a.Inside (2 ^ 31 - 1) base)
    (hb : b.Inside (2 ^ 31 - 1) base) (h : a.offset base < b.offset base) : Later a b := by
  unfold Packet.Inside Packet.offset at ha hb
  unfold Packet.offset at h
  constructor
  · intro heq
    rw [heq] at h
    omega
  · bv_omega

theorem packetBuffer_ordered (base : BitVec 32) {r : BufferRun}
    (h : (bufferMachine (2 ^ 31 - 1) base).Reachable r) : r.buffer.packets.Pairwise Later ∧
      (∀ a ∈ r.buffer.packets, BufferRun.Kept (r.since a.timestamp) a) ∧
      r.buffer.packets.length ≤ r.buffer.maxNumberOfPackets ∧
      ∀ p, p.empty = false → r.full → (r.buffer.insertPacket p).2.packets = [p] := by
  have hord : r.Ordered base := h.preserved (I := BufferRun.Ordered base)
    (fun r (hr : _ ∧ _ ∧ _) => ⟨by rw [hr.2.1]; exact List.Pairwise.nil, by rw [hr.2.1]; nofun,
      by rw [hr.2.1]; nofun, fun t _ => by rw [hr.2.2], hr.1, by rw [hr.2.1]; exact Nat.zero_le _⟩)
    fun r op r' hi he hs => by
      cases hs
      cases op with
      | insertPacket p => exact hi.insertPacket he
      | popFront => exact hi.popFront
  refine ⟨?_, hord.kept, hord.size, ?_⟩
  · refine hord.sorted.imp_of_mem fun ha hb hlt => ?_
    exact later_of_offset (hord.inside _ ha) (hord.inside _ hb) hlt
  · intro p hp hfull
    have hlength : r.buffer.packets.length ≥ r.buffer.maxNumberOfPackets := hfull
    rw [PacketBuffer.insertPacket, if_neg (by simp [hp]), if_pos hlength]
    rfl

instance (width : Nat) (base : BitVec 32) (r : BufferRun) (op : BufferOp) :
    Decidable ((bufferMachine width base).enabled r op) :=
  match op with
  | .insertPacket p => inferInstanceAs (Decidable (p.Inside width base))
  | .popFront => inferInstanceAs (Decidable True)

theorem packetBuffer_ordered_two : ∃ r, (bufferMachine (2 ^ 31 - 1) 0).Reachable r ∧
      r.buffer.packets.map Packet.timestamp = [5, 7] ∧ r.buffer.packets.Pairwise Later := by
  have hrun : ((bufferMachine (2 ^ 31 - 1) 0).run ⟨⟨2, []⟩, fun _ => []⟩
      [.insertPacket ⟨7, 1, ⟨0, 0⟩, false⟩, .insertPacket ⟨5, 2, ⟨0, 0⟩, false⟩]).any
      (fun r => decide (r.buffer.packets.map Packet.timestamp = [5, 7])) = true := by
    decide
  obtain ⟨r, hr, htimestamps⟩ := Option.any_eq_true .. |>.mp hrun
  have hreach : (bufferMachine (2 ^ 31 - 1) 0).Reachable r :=
    .run (.initial ⟨by decide, rfl, rfl⟩) hr
  exact ⟨r, hreach, of_decide_eq_true htimestamps, (packetBuffer_ordered 0 hreach).1⟩

/-- Of two timestamps that are 2^31 - 1 apart neither comes first, so the second packet is put after
the first although its timestamp is the earlier one. -/
theorem packetBuffer_unordered :
    ∃ r, (bufferMachine (2 ^ 31) 0).Reachable r ∧ ¬r.buffer.packets.Pairwise Later := by
  have hrun : ((bufferMachine (2 ^ 31) 0).run ⟨⟨2, []⟩, fun _ => []⟩
      [.insertPacket ⟨2 ^ 31 - 1, 1, ⟨0, 0⟩, false⟩, .insertPacket ⟨0, 2, ⟨0, 0⟩, false⟩]).any
      (fun r => decide ¬r.buffer.packets.Pairwise Later) = true := by
    decide
  obtain ⟨r, hr, hlater⟩ := Option.any_eq_true .. |>.mp hrun
  exact ⟨r, .run (.initial ⟨by decide, rfl, rfl⟩) hr, of_decide_eq_true hlater⟩

end WebRtc.Audio
