import WebRtc.Lib.OrdMap
import WebRtc.Video.PacketBuffer

/-! The frames that the packet buffer returns. The slots represent a map from sequence numbers to
packets; a packet that is continuous is linked to the one before it, back to the first of its frame. -/

namespace WebRtc.Video

open List

namespace PacketBuffer

variable {P : Type} {ops : PaddingSet P} {b b' : PacketBuffer P}

def packetAt (b : PacketBuffer P) (s : BitVec 16) : Option Packet :=
  (b.slots (b.index s)).filter fun p => p.seqNum = s

variable {s : BitVec 16}

variable {p : Packet}

theorem packetAt_eq_some : b.packetAt s = some p ↔ b.slots (b.index s) = some p ∧ p.seqNum = s := by
  simp [packetAt, Option.filter_eq_some_iff]

theorem packetAt_eq_none :
    b.packetAt s = none ↔ ∀ p, b.slots (b.index s) = some p → p.seqNum ≠ s := by
  simp [packetAt, Option.filter_eq_none_iff]

theorem seqNum_of_packetAt (h : b.packetAt s = some p) : p.seqNum = s :=
  (packetAt_eq_some.mp h).2

structure Slotted (b : PacketBuffer P) : Prop where
  power : ∃ k m, k ≤ m ∧ m < 16 ∧ b.size = 2 ^ k ∧ b.maxSize = 2 ^ m
  slot : ∀ i p, b.slots i = some p → i = b.index p.seqNum

section

variable (h : b.Slotted)
include h

theorem Slotted.size_pos : 0 < b.size := by
  obtain ⟨k, m, -, -, hsize, -⟩ := h.power
  rw [hsize]
  positivity

theorem Slotted.size_lt : b.size < 2 ^ 16 := by
  obtain ⟨k, m, hkm, hm, hsize, -⟩ := h.power
  rw [hsize]
  exact Nat.pow_lt_pow_right (by decide) (by omega)

theorem Slotted.size_dvd : b.size ∣ 2 ^ 16 := by
  obtain ⟨k, m, hkm, hm, hsize, -⟩ := h.power
  rw [hsize]
  exact pow_dvd_pow 2 (by omega)

theorem Slotted.prevIndex (s : BitVec 16) : b.prevIndex (b.index s) = b.index (s - 1) := by
  have hpos := h.size_pos
  obtain ⟨c, hc⟩ := h.size_dvd
  have hsub : (s - 1).toNat = (s.toNat + 65535) % 65536 := by
    rw [BitVec.toNat_sub]
    simp [Nat.add_comm]
  have hdvd : b.size ∣ 65536 := h.size_dvd
  unfold PacketBuffer.prevIndex PacketBuffer.index
  rw [hsub, Nat.mod_mod_of_dvd _ hdvd]
  have hdiv := Nat.div_add_mod s.toNat b.size
  have hlt := Nat.mod_lt s.toNat hpos
  generalize s.toNat % b.size = r at *
  generalize s.toNat / b.size = q at *
  split_ifs with hr
  · have hsum : s.toNat + 65535 = r - 1 + b.size * (q + c) := by
      rw [mul_add]
      omega
    rw [hsum, Nat.add_mul_mod_self_left, Nat.mod_eq_of_lt (by omega)]
  · have hsum : s.toNat + 65535 = b.size - 1 + b.size * (q + (c - 1)) := by
      rw [mul_add, Nat.mul_sub, ← hc]
      have : b.size ≤ 65536 := Nat.le_of_dvd (by decide) hdvd
      omega
    rw [hsum, Nat.add_mul_mod_self_left, Nat.mod_eq_of_lt (by omega)]

theorem Slotted.index_sub_size (s : BitVec 16) :
    b.index (s - BitVec.ofNat 16 b.size) = b.index s := by
  have hlt := h.size_lt
  obtain ⟨c, hc⟩ := h.size_dvd
  have hsub : (s - BitVec.ofNat 16 b.size).toNat = (s.toNat + (2 ^ 16 - b.size)) % 2 ^ 16 := by
    rw [BitVec.toNat_sub, BitVec.toNat_ofNat, Nat.mod_eq_of_lt hlt, Nat.add_comm]
  unfold PacketBuffer.index
  rw [hsub, Nat.mod_mod_of_dvd _ h.size_dvd]
  have hrest : 2 ^ 16 - b.size = b.size * (c - 1) := by
    rw [Nat.mul_sub, ← hc, mul_one]
  rw [hrest, Nat.add_mul_mod_self_left]

theorem Slotted.packetAt_update {x : Option Packet} (hx : ∀ p, x = some p → p.seqNum = s)
    (hfree : ∀ p, b.slots (b.index s) = some p → p.seqNum = s) :
    Slotted { b with slots := Function.update b.slots (b.index s) x } ∧
      ∀ t, PacketBuffer.packetAt { b with slots := Function.update b.slots (b.index s) x } t =
        if t = s then x else b.packetAt t := by
  refine ⟨⟨h.power, ?_⟩, ?_⟩
  · intro i p hp
    change Function.update b.slots (b.index s) x i = some p at hp
    by_cases hi : i = b.index s
    · rw [hi, Function.update_self] at hp
      rw [hi]
      show b.index s = b.index p.seqNum
      rw [hx p hp]
    · rw [Function.update_of_ne hi] at hp
      exact h.slot i p hp
  · intro t
    show (Function.update b.slots (b.index s) x (b.index t)).filter _ = _
    by_cases ht : t = s
    · subst ht
      rw [Function.update_self, if_pos rfl]
      cases x with
      | none => rfl
      | some p => simp [hx p rfl]
    · rw [if_neg ht]
      by_cases hindex : b.index t = b.index s
      · have hnone : b.packetAt t = none := by
          apply packetAt_eq_none.mpr
          intro p hp hseq
          rw [hindex] at hp
          exact ht (hseq.symm.trans (hfree p hp))
        rw [hindex, Function.update_self, hnone]
        cases x with
        | none => rfl
        | some p =>
          rw [Option.filter_some, if_neg]
          simpa [hx p rfl] using Ne.symm ht
      · rw [Function.update_of_ne hindex]
        rfl

end

structure Linked (b : PacketBuffer P) : Prop extends Slotted b where
  link : ∀ s q, b.packetAt s = some q → q.continuous = true → q.isFirstPacketInFrame = false →
    ∃ p, b.packetAt (s - 1) = some p ∧ p.timestamp = q.timestamp ∧ p.continuous = true ∧
      p.isLastPacketInFrame = false

def Open (b : PacketBuffer P) : Prop :=
  ∀ s p, b.packetAt s = some p → p.continuous = true → p.isLastPacketInFrame = false

theorem Slotted.exists_of_potentialNewFrame (h : b.Slotted) (hnew : b.potentialNewFrame s = true) :
    ∃ q, b.packetAt s = some q ∧ (q.isFirstPacketInFrame = true ∨
      ∃ p, b.packetAt (s - 1) = some p ∧ p.timestamp = q.timestamp ∧ p.continuous = true) := by
  unfold potentialNewFrame at hnew
  rw [h.prevIndex] at hnew
  cases hslot : b.slots (b.index s) with
  | none =>
    rw [hslot] at hnew
    cases hnew
  | some q =>
    rw [hslot] at hnew
    dsimp only at hnew
    split_ifs at hnew with hseq hfirst
    · exact ⟨q, packetAt_eq_some.mpr ⟨hslot, not_not.mp hseq⟩, .inl hfirst⟩
    · have hq : b.packetAt s = some q := packetAt_eq_some.mpr ⟨hslot, not_not.mp hseq⟩
      refine ⟨q, hq, .inr ?_⟩
      cases hprev : b.slots (b.index (s - 1)) with
      | none =>
        rw [hprev] at hnew
        cases hnew
      | some p =>
        rw [hprev] at hnew
        simp only [Bool.and_eq_true, decide_eq_true_eq] at hnew
        obtain ⟨⟨hpseq, htime⟩, hcont⟩ := hnew
        refine ⟨p, packetAt_eq_some.mpr ⟨hprev, ?_⟩, htime, hcont⟩
        rw [hpseq, seqNum_of_packetAt hq]

/-- The packets of a frame, from its last one back to the first, which is `n` before it. -/
structure Chain (b : PacketBuffer P) (s : BitVec 16) (timestamp : BitVec 32) (n : Nat) : Prop where
  packets : ∀ j ≤ n, ∃ p, b.packetAt (s - BitVec.ofNat 16 j) = some p ∧ p.timestamp = timestamp ∧
    (p.isFirstPacketInFrame = true ↔ j = n)

theorem Chain.searchStart (h : b.Slotted) {timestamp : BitVec 32} {n fuel : Nat}
    (hchain : Chain b s timestamp n) (hfuel : n < fuel) :
    b.searchStart fuel (b.index s) s = (true, s - BitVec.ofNat 16 n) := by
  induction n generalizing s fuel with
  | zero =>
    obtain ⟨fuel, rfl⟩ := Nat.exists_eq_succ_of_ne_zero (by omega : fuel ≠ 0)
    obtain ⟨p, hp, -, hfirst⟩ := hchain.packets 0 le_rfl
    simp only [BitVec.sub_zero] at hp ⊢
    rw [PacketBuffer.searchStart, (packetAt_eq_some.mp hp).1]
    simp [hfirst.mpr rfl]
  | succ n ih =>
    obtain ⟨fuel, rfl⟩ := Nat.exists_eq_succ_of_ne_zero (by omega : fuel ≠ 0)
    obtain ⟨p, hp, -, hfirst⟩ := hchain.packets 0 (Nat.zero_le _)
    simp only [BitVec.sub_zero] at hp
    have hnot : p.isFirstPacketInFrame = false := by
      simpa using mt hfirst.mp (by omega)
    have hshift : ∀ j, s - BitVec.ofNat 16 (j + 1) = s - 1 - BitVec.ofNat 16 j := by
      intro j
      rw [BitVec.ofNat_add, BitVec.sub_sub]
      congr 1
      exact BitVec.add_comm _ _
    have hrest : Chain b (s - 1) timestamp n := by
      refine ⟨fun j hj => ?_⟩
      obtain ⟨q, hq, htime, hfirst⟩ := hchain.packets (j + 1) (by omega)
      rw [hshift] at hq
      exact ⟨q, hq, htime, by rw [hfirst]; omega⟩
    rw [PacketBuffer.searchStart, (packetAt_eq_some.mp hp).1]
    dsimp only
    rw [hnot, if_neg Bool.false_ne_true, if_neg (by omega), h.prevIndex, ih hrest (by omega), hshift]

variable {q : Packet}

theorem Linked.exists_chain (h : b.Linked) (hq : b.packetAt s = some q)
    (hcont : q.continuous = true) : ∃ n < b.size, Chain b s q.timestamp n := by
  have hstep : ∀ n ≤ b.size, (∃ m < n, Chain b s q.timestamp m) ∨
      ∀ j < n, ∃ p, b.packetAt (s - BitVec.ofNat 16 j) = some p ∧ p.timestamp = q.timestamp ∧
        p.continuous = true ∧ p.isFirstPacketInFrame = false := by
    intro n
    induction n with
    | zero => exact fun _ => .inr fun j hj => absurd hj (Nat.not_lt_zero j)
    | succ n ih =>
      intro hn
      rcases ih (by omega) with ⟨m, hm, hchain⟩ | hall
      · exact .inl ⟨m, by omega, hchain⟩
      · obtain ⟨p, hp, htime, hpcont⟩ : ∃ p, b.packetAt (s - BitVec.ofNat 16 n) = some p ∧
            p.timestamp = q.timestamp ∧ p.continuous = true := by
          cases n with
          | zero => exact ⟨q, by simpa using hq, rfl, hcont⟩
          | succ n =>
            obtain ⟨x, hx, hxtime, hxcont, hxfirst⟩ := hall n (by omega)
            obtain ⟨p, hp, htime, hpcont, -⟩ := h.link _ x hx hxcont hxfirst
            refine ⟨p, ?_, htime.trans hxtime, hpcont⟩
            rw [← hp, BitVec.ofNat_add, BitVec.sub_sub]
            rfl
        by_cases hfirst : p.isFirstPacketInFrame = true
        · refine .inl ⟨n, Nat.lt_succ_self n, ⟨fun j hj => ?_⟩⟩
          rcases hj.lt_or_eq with hj | rfl
          · obtain ⟨x, hx, hxtime, -, hxfirst⟩ := hall j hj
            exact ⟨x, hx, hxtime, by simp [hxfirst, hj.ne]⟩
          · exact ⟨p, hp, htime, by simp [hfirst]⟩
        · refine .inr fun j hj => ?_
          rcases (Nat.lt_succ_iff.mp hj).lt_or_eq with hj | rfl
          · exact hall j hj
          · exact ⟨p, hp, htime, hpcont, by simpa using hfirst⟩
  rcases hstep b.size le_rfl with ⟨m, hm, hchain⟩ | hall
  · exact ⟨m, hm, hchain⟩
  · -- A chain as long as the buffer would come back to the slot of the packet.
    exfalso
    have hpos := h.size_pos
    obtain ⟨x, hx, -, hxcont, hxfirst⟩ := hall (b.size - 1) (by omega)
    obtain ⟨p, hp, -⟩ := h.link _ x hx hxcont hxfirst
    have hback : s - BitVec.ofNat 16 (b.size - 1) - 1 = s - BitVec.ofNat 16 b.size := by
      rw [BitVec.sub_sub, show (1 : BitVec 16) = BitVec.ofNat 16 1 from rfl, ← BitVec.ofNat_add,
        Nat.sub_add_cancel hpos]
    rw [hback] at hp
    obtain ⟨hslot, hseq⟩ := packetAt_eq_some.mp hp
    rw [h.index_sub_size, (packetAt_eq_some.mp hq).1] at hslot
    cases hslot
    rw [seqNum_of_packetAt hq] at hseq
    have hnat := congrArg BitVec.toNat hseq
    rw [BitVec.toNat_sub, BitVec.toNat_ofNat] at hnat
    have hlt := h.size_lt
    omega

variable {n : Nat}

theorem ensures_takeFrame (startSeqNum seqNum : BitVec 16) {i : BitVec 16} (h : b.Slotted)
    (hn : n ≤ 2 ^ 16) (hpackets : ∀ j < n, ∃ p, b.packetAt (i + BitVec.ofNat 16 j) = some p) :
    Ensures (takeFrame startSeqNum seqNum n i b) fun r =>
      r.1.map Packet.seqNum = (List.range n).map (fun j => i + BitVec.ofNat 16 j) ∧
      (∀ x ∈ r.1, ∃ q, b.packetAt x.seqNum = some q ∧ x.ordinal = q.ordinal ∧
        x.timestamp = q.timestamp) ∧ r.2.Slotted ∧
      ∀ t, r.2.packetAt t = if t ∈ r.1.map Packet.seqNum then none else b.packetAt t := by
  induction n generalizing i b with
  | zero => exact .some ⟨rfl, nofun, h, fun t => by simp⟩
  | succ n ih =>
    obtain ⟨p, hp⟩ := hpackets 0 (Nat.succ_pos n)
    rw [show i + BitVec.ofNat 16 0 = i by simp] at hp
    obtain ⟨hslot, hseq⟩ := packetAt_eq_some.mp hp
    obtain ⟨hslotted, hupdate⟩ := h.packetAt_update (s := i) (x := none) nofun
      (fun x hx => by rw [hslot] at hx; cases hx; exact hseq)
    have hshift : ∀ j, i + BitVec.ofNat 16 (j + 1) = i + 1 + BitVec.ofNat 16 j := by
      intro j
      rw [BitVec.ofNat_add, BitVec.add_assoc, BitVec.add_comm 1]
      rfl
    rw [takeFrame, hslot]
    simp only [Option.bind_eq_bind, Option.bind_some]
    refine .guard_bind hseq ((ih hslotted (by omega) ?_).bind
      fun ⟨rest, b'⟩ ⟨hnums, hrest, hslotted', hat⟩ => .some ⟨?_, ?_, hslotted', ?_⟩)
    · intro j hj
      obtain ⟨x, hx⟩ := hpackets (j + 1) (by omega)
      rw [hshift] at hx
      refine ⟨x, ?_⟩
      rw [hupdate, if_neg, hx]
      intro heq
      have hzero : BitVec.ofNat 16 (j + 1) = 0#16 := by
        have hcancel : i + BitVec.ofNat 16 (j + 1) = i + 0#16 := by
          rw [hshift, heq, BitVec.add_zero]
        exact (BitVec.add_right_inj i).mp hcancel
      have := congrArg BitVec.toNat hzero
      simp only [BitVec.toNat_ofNat] at this
      omega
    · rw [range_succ_eq_map, map_cons, map_cons, map_map, hnums, hseq]
      refine congrArg₂ _ (by simp) (map_congr_left fun j _ => (hshift j).symm)
    · intro x hx
      rcases mem_cons.mp hx with rfl | hx
      · exact ⟨p, by rw [hseq]; exact hp, rfl, rfl⟩
      · obtain ⟨q, hq, hordinal, htime⟩ := hrest x hx
        rw [hupdate] at hq
        split_ifs at hq
        exact ⟨q, hq, hordinal, htime⟩
    · intro t
      show b'.packetAt t = _
      rw [hat, hupdate, map_cons, hseq]
      by_cases ht : t = i
      · simp [ht]
      · simp [ht]

def Kept (b b' : PacketBuffer P) : Prop :=
  ∀ t p, b'.packetAt t = some p → ∃ q, b.packetAt t = some q ∧ q.ordinal = p.ordinal ∧
    q.timestamp = p.timestamp ∧ q.isFirstPacketInFrame = p.isFirstPacketInFrame ∧
    q.isLastPacketInFrame = p.isLastPacketInFrame

theorem Kept.refl (b : PacketBuffer P) : Kept b b := fun _ p hp => ⟨p, hp, rfl, rfl, rfl, rfl⟩

theorem Kept.trans {b'' : PacketBuffer P} (h : Kept b b') (h' : Kept b' b'') : Kept b b'' := by
  intro t p hp
  obtain ⟨q, hq, ho, ht, hf, hl⟩ := h' t p hp
  obtain ⟨x, hx, ho', ht', hf', hl'⟩ := h t q hq
  exact ⟨x, hx, ho'.trans ho, ht'.trans ht, hf'.trans hf, hl'.trans hl⟩

structure FrameOf (b : PacketBuffer P) (frame : List Packet) : Prop where
  consecutive : ∃ start, frame.map Packet.seqNum =
    (List.range frame.length).map fun j => start + BitVec.ofNat 16 j
  packets : ∀ x ∈ frame, ∃ q, b.packetAt x.seqNum = some q ∧ q.ordinal = x.ordinal ∧
    q.timestamp = x.timestamp
  timestamps : ∀ x ∈ frame, ∀ y ∈ frame, x.timestamp = y.timestamp
  first : ∃ x q, frame.head? = some x ∧ b.packetAt x.seqNum = some q ∧ q.ordinal = x.ordinal ∧
    q.isFirstPacketInFrame = true
  last : ∃ x q, frame.getLast? = some x ∧ b.packetAt x.seqNum = some q ∧ q.ordinal = x.ordinal ∧
    q.isLastPacketInFrame = true

theorem FrameOf.mono {frame : List Packet} (h : FrameOf b' frame) (hkept : Kept b b') :
    FrameOf b frame := by
  refine ⟨h.consecutive, ?_, h.timestamps, ?_, ?_⟩
  · intro x hx
    obtain ⟨q, hq, ho, ht⟩ := h.packets x hx
    obtain ⟨p, hp, ho', ht', -⟩ := hkept _ q hq
    exact ⟨p, hp, ho'.trans ho, ht'.trans ht⟩
  · obtain ⟨x, q, hx, hq, ho, hf⟩ := h.first
    obtain ⟨p, hp, ho', -, hf', -⟩ := hkept _ q hq
    exact ⟨x, p, hx, hp, ho'.trans ho, hf'.trans hf⟩
  · obtain ⟨x, q, hx, hq, ho, hl⟩ := h.last
    obtain ⟨p, hp, ho', -, -, hl'⟩ := hkept _ q hq
    exact ⟨x, p, hx, hp, ho'.trans ho, hl'.trans hl⟩

theorem Linked.setContinuous (h : b.Linked) (hopen : b.Open)
    (hnew : b.potentialNewFrame s = true) :
    ∃ q, b.packetAt s = some q ∧ (b.setContinuous s).Linked ∧ ∀ t, (b.setContinuous s).packetAt t =
      if t = s then some { q with continuous := true } else b.packetAt t := by
  obtain ⟨q, hq, hlink⟩ := h.toSlotted.exists_of_potentialNewFrame hnew
  obtain ⟨hslot, hseq⟩ := packetAt_eq_some.mp hq
  have hset : b.setContinuous s = { b with
      slots := Function.update b.slots (b.index s) (some { q with continuous := true }) } := by
    rw [PacketBuffer.setContinuous, hslot]
    rfl
  obtain ⟨hslotted, hat⟩ := h.toSlotted.packetAt_update (s := s)
    (x := some { q with continuous := true }) (fun p hp => by cases hp; exact hseq)
    (fun p hp => by rw [hslot] at hp; cases hp; exact hseq)
  rw [← hset] at hslotted hat
  refine ⟨q, hq, ⟨hslotted, ?_⟩, hat⟩
  intro t x hx hcont hfirst
  have hpred : ∀ p, b.packetAt (t - 1) = some p → p.continuous = true →
      ∃ p', (b.setContinuous s).packetAt (t - 1) = some p' ∧ p'.timestamp = p.timestamp ∧
        p'.continuous = true ∧ p'.isLastPacketInFrame = p.isLastPacketInFrame := by
    intro p hp hpcont
    have hat' := hat (t - 1)
    by_cases ht : t - 1 = s
    · rw [ht, hq] at hp
      cases hp
      rw [if_pos ht] at hat'
      exact ⟨_, hat', rfl, rfl, rfl⟩
    · rw [if_neg ht, hp] at hat'
      exact ⟨p, hat', rfl, hpcont, rfl⟩
  obtain ⟨p, hp, htime, hpcont, hlast⟩ : ∃ p, b.packetAt (t - 1) = some p ∧
      p.timestamp = x.timestamp ∧ p.continuous = true ∧ p.isLastPacketInFrame = false := by
    have hat' := hat t
    by_cases ht : t = s
    · rw [if_pos ht] at hat'
      obtain rfl := Option.some.inj (hx.symm.trans hat')
      rcases hlink with hqfirst | ⟨p, hp, htime, hpcont⟩
      · exact absurd hqfirst (by simpa using hfirst)
      · rw [← ht] at hp
        exact ⟨p, hp, htime, hpcont, hopen _ p hp hpcont⟩
    · rw [if_neg ht] at hat'
      exact h.link t x (hat'.symm.trans hx) hcont hfirst
  obtain ⟨p', hp', htime', hcont', hlast'⟩ := hpred p hp hpcont
  exact ⟨p', hp', htime'.trans htime, hcont', hlast'.trans hlast⟩

structure Searched (b b' : PacketBuffer P) (found : List Packet) : Prop where
  linked : b'.Linked
  closed : b'.Open
  kept : Kept b b'
  frames : ∃ frames : List (List Packet), found = frames.flatten ∧ ∀ f ∈ frames, FrameOf b f

theorem chain_numbers {n j : Nat} (hj : j ≤ n) :
    s - BitVec.ofNat 16 n + BitVec.ofNat 16 j = s - BitVec.ofNat 16 (n - j) := by
  have hsplit : BitVec.ofNat 16 n = BitVec.ofNat 16 (n - j) + BitVec.ofNat 16 j := by
    rw [← BitVec.ofNat_add, Nat.sub_add_cancel hj]
  rw [hsplit, ← BitVec.sub_sub, BitVec.sub_add_cancel]

theorem Chain.mem_numbers {s t : BitVec 16} :
    t ∈ (List.range (n + 1)).map (fun j => s - BitVec.ofNat 16 n + BitVec.ofNat 16 j) ↔
      ∃ j ≤ n, t = s - BitVec.ofNat 16 j := by
  rw [mem_map]
  constructor
  · rintro ⟨j, hj, rfl⟩
    have hj := mem_range.mp hj
    exact ⟨n - j, by omega, chain_numbers (by omega)⟩
  · rintro ⟨j, hj, rfl⟩
    refine ⟨n - j, mem_range.mpr (by omega), ?_⟩
    rw [chain_numbers (by omega), Nat.sub_sub_self hj]

theorem Chain.frameOf {frame : List Packet}
    (hchain : Chain b s q.timestamp n) (hq : b.packetAt s = some q)
    (hlast : q.isLastPacketInFrame = true) (hnums : frame.map Packet.seqNum =
      (List.range (n + 1)).map fun j => s - BitVec.ofNat 16 n + BitVec.ofNat 16 j)
    (hframe : ∀ x ∈ frame, ∃ p, b.packetAt x.seqNum = some p ∧ x.ordinal = p.ordinal ∧
      x.timestamp = p.timestamp) : FrameOf b frame := by
  have hlength : frame.length = n + 1 := by
    have := congrArg List.length hnums
    simpa using this
  have htime : ∀ x ∈ frame, x.timestamp = q.timestamp := by
    intro x hx
    obtain ⟨p, hp, -, ht⟩ := hframe x hx
    obtain ⟨j, hj, hseq⟩ := Chain.mem_numbers.mp (hnums ▸ mem_map_of_mem hx)
    obtain ⟨p', hp', ht', -⟩ := hchain.packets j hj
    rw [hseq, hp'] at hp
    cases hp
    exact ht.trans ht'
  obtain ⟨x, tail, rfl⟩ := exists_cons_of_length_eq_add_one hlength
  refine ⟨⟨_, by rw [hnums, hlength]⟩, ?_, ?_, ?_, ?_⟩
  · intro x hx
    obtain ⟨p, hp, ho, ht⟩ := hframe x hx
    exact ⟨p, hp, ho.symm, ht.symm⟩
  · intro x hx y hy
    rw [htime x hx, htime y hy]
  · obtain ⟨p, hp, ho, -⟩ := hframe x mem_cons_self
    have hseq : x.seqNum = s - BitVec.ofNat 16 n := by
      rw [range_succ_eq_map, map_cons, map_cons] at hnums
      have := (List.cons.inj hnums).1
      simpa using this
    obtain ⟨p', hp', -, hfirst⟩ := hchain.packets n le_rfl
    rw [hseq] at hp
    obtain rfl := Option.some.inj (hp'.symm.trans hp)
    exact ⟨x, p', rfl, hseq ▸ hp', ho.symm, hfirst.mpr rfl⟩
  · obtain ⟨y, hy⟩ : ∃ y, (x :: tail).getLast? = some y := ⟨_, List.getLast?_cons ..⟩
    have hseq : y.seqNum = s := by
      have hlastnum := congrArg List.getLast? hnums
      rw [List.getLast?_map, hy, range_succ, map_append, map_singleton,
        List.getLast?_concat] at hlastnum
      have := Option.some.inj hlastnum
      rw [chain_numbers le_rfl, Nat.sub_self] at this
      simpa using this
    obtain ⟨p, hp, ho, -⟩ := hframe y (mem_of_getLast? hy)
    rw [hseq, hq] at hp
    cases hp
    exact ⟨y, q, hy, hseq ▸ hq, ho.symm, hlast⟩

theorem Linked.taken (h : b.Linked) {nums : List (BitVec 16)}
    (hnums : ∀ t, t ∈ nums ↔ ∃ j ≤ n, t = s - BitVec.ofNat 16 j)
    (hq : b.packetAt s = some q) (hlast : q.isLastPacketInFrame = true) (hslotted : b'.Slotted)
    (hat : ∀ t, b'.packetAt t = if t ∈ nums then none else b.packetAt t) :
    b'.Linked ∧ Kept b b' ∧ ∀ t p, b'.packetAt t = some p → t ≠ s ∧ b.packetAt t = some p := by
  have hold : ∀ t p, b'.packetAt t = some p → t ∉ nums ∧ b.packetAt t = some p := by
    intro t p hp
    rw [hat] at hp
    split_ifs at hp with ht
    exact ⟨ht, hp⟩
  have hself : s ∈ nums := (hnums s).mpr ⟨0, Nat.zero_le n, by simp⟩
  refine ⟨⟨hslotted, ?_⟩, ?_, ?_⟩
  · intro t x hx hcont hfirst
    obtain ⟨hout, hx⟩ := hold t x hx
    obtain ⟨p, hp, htime, hpcont, hplast⟩ := h.link t x hx hcont hfirst
    refine ⟨p, ?_, htime, hpcont, hplast⟩
    rw [hat, if_neg, hp]
    intro hmem
    obtain ⟨j, hj, heq⟩ := (hnums (t - 1)).mp hmem
    cases j with
    | zero =>
      -- The packet before would be the last one of the frame.
      rw [BitVec.sub_zero] at heq
      rw [heq, hq] at hp
      cases hp
      rw [hlast] at hplast
      cases hplast
    | succ j =>
      apply hout
      refine (hnums t).mpr ⟨j, by omega, ?_⟩
      rw [BitVec.ofNat_add] at heq
      have : t = t - 1 + 1 := (BitVec.sub_add_cancel t 1).symm
      rw [this, heq, ← BitVec.sub_sub]
      exact BitVec.sub_add_cancel _ _
  · intro t p hp
    exact ⟨p, (hold t p hp).2, rfl, rfl, rfl, rfl⟩
  · intro t p hp
    obtain ⟨hout, hp⟩ := hold t p hp
    exact ⟨fun heq => hout (heq ▸ hself), hp⟩

theorem Linked.ensures_frameAt (h : b.Linked) (start : BitVec 16)
    (hq : b.packetAt s = some q) (hcont : q.continuous = true)
    (hopen : ∀ t p, t ≠ s → b.packetAt t = some p → p.continuous = true →
      p.isLastPacketInFrame = false) :
    Ensures (b.frameAt ops start s) fun r => Searched b r.2 r.1 := by
  obtain ⟨hslot, -⟩ := packetAt_eq_some.mp hq
  unfold frameAt
  rw [hslot, Option.any_some]
  cases hlast : q.isLastPacketInFrame with
  | false =>
    rw [if_neg Bool.false_ne_true]
    refine .some ⟨h, ?_, .refl b, [], rfl, nofun⟩
    intro t p hp hpcont
    by_cases ht : t = s
    · rw [ht, hq] at hp
      cases hp
      exact hlast
    · exact hopen t p ht hp hpcont
  | true =>
    obtain ⟨n, hn, hchain⟩ := h.exists_chain hq hcont
    have hlt := h.size_lt
    have hcount : (s + 1 - (s - BitVec.ofNat 16 n)).toNat = n + 1 := by
      have : s + 1 - (s - BitVec.ofNat 16 n) = BitVec.ofNat 16 (n + 1) := by
        rw [BitVec.ofNat_add]
        bv_omega
      rw [this, BitVec.toNat_ofNat, Nat.mod_eq_of_lt (by omega)]
    have hpackets : ∀ j < n + 1, ∃ p,
        b.packetAt (s - BitVec.ofNat 16 n + BitVec.ofNat 16 j) = some p := by
      intro j hj
      rw [chain_numbers (by omega)]
      obtain ⟨p, hp, -⟩ := hchain.packets (n - j) (by omega)
      exact ⟨p, hp⟩
    obtain ⟨⟨frame, b'⟩, htake, hnums, hframe, hslotted, hat⟩ :=
      ensures_takeFrame (s - BitVec.ofNat 16 n) s h.toSlotted (by omega) hpackets
    have hmem : ∀ t, t ∈ frame.map Packet.seqNum ↔ ∃ j ≤ n, t = s - BitVec.ofNat 16 j := by
      intro t
      rw [hnums]
      exact Chain.mem_numbers
    obtain ⟨hlinked, hkept, hleft⟩ := h.taken hmem hq hlast hslotted hat
    rw [if_pos rfl, hchain.searchStart h.toSlotted hn]
    dsimp only
    rw [if_pos rfl, hcount, htake]
    refine .some ⟨⟨⟨hlinked.power, hlinked.slot⟩, hlinked.link⟩, ?_, hkept, [frame], by simp, ?_⟩
    · intro t p hp hpcont
      obtain ⟨hne, hp⟩ := hleft t p hp
      exact hopen t p hne hp hpcont
    · intro f hf
      rw [mem_singleton.mp hf]
      exact hchain.frameOf hq hlast hnums hframe

theorem Linked.ensures_findFrames (h : b.Linked) (hopen : b.Open) (start s : BitVec 16) (n : Nat) :
    Ensures (findFrames ops start n s b) fun r => Searched b r.2 r.1 := by
  induction n generalizing b s with
  | zero => exact .some ⟨h, hopen, .refl b, [], rfl, nofun⟩
  | succ n ih =>
    rw [findFrames]
    apply Ensures.ite
    · intro _
      exact ih h hopen (s + 1)
    · intro _
      apply Ensures.ite
      · intro _
        exact .some ⟨h, hopen, .refl b, [], rfl, nofun⟩
      · intro hnew
        obtain ⟨q, hq, hlinked, hat⟩ := h.setContinuous hopen (by simpa using hnew)
        have hkept₁ : Kept b (b.setContinuous s) := by
          intro t p hp
          rw [hat] at hp
          split_ifs at hp with ht
          · cases hp
            exact ⟨q, ht ▸ hq, rfl, rfl, rfl, rfl⟩
          · exact ⟨p, hp, rfl, rfl, rfl, rfl⟩
        have hself : (b.setContinuous s).packetAt s = some { q with continuous := true } := by
          rw [hat, if_pos rfl]
        refine (hlinked.ensures_frameAt start hself rfl ?_).bind
          fun ⟨frame, b₂⟩ ⟨hlinked₂, hopen₂, hkept₂, frames, hframes, hframe⟩ => ?_
        · intro t p ht hp hpcont
          rw [hat, if_neg ht] at hp
          exact hopen t p hp hpcont
        · refine (ih hlinked₂ hopen₂ (s + 1)).bind
            fun ⟨rest, b₃⟩ ⟨hlinked₃, hopen₃, hkept₃, frames', hframes', hframe'⟩ => .some ?_
          have hkept := hkept₁.trans hkept₂
          refine ⟨hlinked₃, hopen₃, hkept.trans hkept₃, frames ++ frames', ?_, ?_⟩
          · show frame ++ rest = _
            rw [flatten_append, ← hframes, ← hframes']
          · intro f hf
            rcases mem_append.mp hf with hf | hf
            · exact (hframe f hf).mono hkept₁
            · exact (hframe' f hf).mono hkept

end PacketBuffer

end WebRtc.Video
