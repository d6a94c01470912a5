import WebRtc.Video.PacketBufferFrames

/-! Runs of the packet buffer: every result is made of complete frames, as long as `ClearTo` does not
cut a frame that is being collected. -/

namespace WebRtc.Video

variable {s : BitVec 16}

namespace PacketBuffer

variable {P : Type} {ops : PaddingSet P} {b b' : PacketBuffer P}

structure Sound (b : PacketBuffer P) : Prop extends Linked b where
  closed : b.Open

theorem Sound.congr (h : b.Sound) (hslotted : b'.Slotted)
    (hat : ∀ t, b'.packetAt t = b.packetAt t) : b'.Sound := by
  refine ⟨⟨hslotted, ?_⟩, ?_⟩
  · intro t q hq hcont hfirst
    rw [hat] at hq
    obtain ⟨p, hp, hrest⟩ := h.link t q hq hcont hfirst
    exact ⟨p, by rw [hat]; exact hp, hrest⟩
  · intro t p hp
    rw [hat] at hp
    exact h.closed t p hp

theorem Sound.clearInternal (h : b.Sound) : (b.clearInternal ops).Sound :=
  ⟨⟨⟨h.power, nofun⟩, nofun⟩, nofun⟩

theorem foldl_moveEntry {old : Nat → Option Packet} {size newSize : Nat} (hdvd : size ∣ newSize)
    (hslot : ∀ i p, old i = some p → i = p.seqNum.toNat % size) (l : List Nat) (j : Nat) (p : Packet) :
    (l.foldl (moveEntry old newSize) fun _ => none) j = some p ↔
      ∃ i ∈ l, old i = some p ∧ p.seqNum.toNat % newSize = j := by
  induction l using List.reverseRecOn with
  | nil => simp
  | append_singleton l i ih =>
    rw [List.foldl_append, List.foldl_cons, List.foldl_nil]
    generalize (l.foldl (moveEntry old newSize) fun _ => none) = slots at ih ⊢
    have hskip (hout : ¬ (old i = some p ∧ p.seqNum.toNat % newSize = j)) : slots j = some p ↔
        ∃ i' ∈ l ++ [i], old i' = some p ∧ p.seqNum.toNat % newSize = j := by
      simp [ih, or_and_right, exists_or, hout]
    unfold moveEntry
    cases hi : old i with
    | none => exact hskip fun h => absurd (hi.symm.trans h.1) nofun
    | some q =>
      dsimp only
      by_cases hj : j = q.seqNum.toNat % newSize
      · rw [hj, Function.update_self]
        constructor
        · rintro ⟨⟩
          exact ⟨i, List.mem_append_right _ (List.mem_singleton_self i), hi, rfl⟩
        · rintro ⟨i', -, hold, heq⟩
          have hsame : i' = i := by
            rw [hslot i' p hold, hslot i q hi, ← Nat.mod_mod_of_dvd _ hdvd, heq,
              Nat.mod_mod_of_dvd _ hdvd]
          rw [hsame, hi] at hold
          exact hold
      · rw [Function.update_of_ne hj]
        refine hskip fun h => hj ?_
        rw [← h.2, Option.some.inj (hi.symm.trans h.1)]

theorem Slotted.expandBufferSize (h : b.Slotted) (hb' : b.expandBufferSize = some b') :
    b'.Slotted ∧ ∀ t, b'.packetAt t = b.packetAt t := by
  obtain ⟨k, m, hkm, hm, hsize, hmax⟩ := h.power
  unfold PacketBuffer.expandBufferSize at hb'
  split_ifs at hb' with hfull
  have hlt : k < m := by
    rcases hkm.lt_or_eq with hlt | rfl
    · exact hlt
    · exact absurd (hsize.trans hmax.symm) hfull
  have hnew : min b.maxSize (2 * b.size) = 2 ^ (k + 1) := by
    rw [hsize, hmax, ← pow_succ', min_eq_right]
    exact Nat.pow_le_pow_right (by decide) hlt
  have hdvd : b.size ∣ min b.maxSize (2 * b.size) := by
    rw [hnew, hsize]
    exact pow_dvd_pow 2 (by omega)
  have hmoved := foldl_moveEntry hdvd (fun i p hp => h.slot i p hp) (List.range b.size)
  obtain ⟨hsize', hmax', hslots⟩ : b'.size = min b.maxSize (2 * b.size) ∧ b'.maxSize = b.maxSize ∧
      b'.slots = (List.range b.size).foldl (moveEntry b.slots (min b.maxSize (2 * b.size)))
        fun _ => none := by
    cases hb'
    exact ⟨rfl, rfl, rfl⟩
  rw [← hslots, ← hsize'] at hmoved
  have hrange : ∀ i p, b.slots i = some p → i ∈ List.range b.size := by
    intro i p hp
    rw [h.slot i p hp]
    exact List.mem_range.mpr (Nat.mod_lt _ h.size_pos)
  refine ⟨⟨⟨k + 1, m, hlt, hm, hsize'.trans hnew, hmax'.trans hmax⟩, ?_⟩, ?_⟩
  · intro j p hp
    obtain ⟨i, -, -, hj⟩ := (hmoved j p).mp hp
    exact hj.symm
  · intro t
    apply Option.ext
    intro p
    rw [packetAt_eq_some, packetAt_eq_some]
    constructor
    · rintro ⟨hp, hseq⟩
      obtain ⟨i, -, hi, -⟩ := (hmoved _ p).mp hp
      have hindex := h.slot i p hi
      rw [hseq] at hindex
      exact ⟨hindex ▸ hi, hseq⟩
    · rintro ⟨hp, hseq⟩
      refine ⟨(hmoved _ p).mpr ⟨_, hrange _ p hp, hp, ?_⟩, hseq⟩
      rw [hseq]
      rfl

theorem Slotted.expandFor (h : b.Slotted) (n : Nat) :
    (expandFor s n b).Slotted ∧ ∀ t, (expandFor s n b).packetAt t = b.packetAt t := by
  induction n generalizing b with
  | zero => exact ⟨h, fun _ => rfl⟩
  | succ n ih =>
    rw [PacketBuffer.expandFor]
    cases hb' : b.expandBufferSize with
    | none => exact ⟨h, fun _ => rfl⟩
    | some b' =>
      obtain ⟨hslotted, hat⟩ := h.expandBufferSize hb'
      dsimp only
      split_ifs
      · exact ⟨(ih hslotted).1, fun t => ((ih hslotted).2 t).trans (hat t)⟩
      · exact ⟨hslotted, hat⟩

structure Returned (b b' : PacketBuffer P) (packet : Option Packet) (found : List Packet) : Prop where
  sound : b'.Sound
  frames : ∃ b₁ : PacketBuffer P, Kept b₁ b' ∧
    (∀ t p, b₁.packetAt t = some p → b.packetAt t = some p ∨
      ∃ new, packet = some new ∧ t = new.seqNum ∧ p = { new with continuous := false }) ∧
    ∃ frames : List (List Packet), found = frames.flatten ∧ ∀ f ∈ frames, FrameOf b₁ f

theorem Returned.nothing (packet : Option Packet) (h : b'.Sound)
    (hat : ∀ t p, b'.packetAt t = some p → b.packetAt t = some p) : Returned b b' packet [] :=
  ⟨h, b', .refl b', fun t p hp => .inl (hat t p hp), [], rfl, nofun⟩

theorem Sound.ensures_store (h : b.Sound) {packet : Packet}
    (hfree : b.slots (b.index packet.seqNum) = none) :
    Ensures (b.store ops packet) fun r => Returned b r.2 (some packet) r.1 := by
  obtain ⟨hslotted, hat⟩ := h.toSlotted.packetAt_update (s := packet.seqNum)
    (x := some { packet with continuous := false }) (fun p hp => by cases hp; rfl)
    (fun p hp => by rw [hfree] at hp; cases hp)
  have hnone : b.packetAt packet.seqNum = none := by
    apply packetAt_eq_none.mpr
    intro p hp
    rw [hfree] at hp
    cases hp
  generalize hb₁ : ({ b with
    slots := Function.update b.slots (b.index packet.seqNum)
      (some { packet with continuous := false }) } : PacketBuffer P) = b₁ at hslotted hat
  have hold : ∀ t p, b₁.packetAt t = some p → p.continuous = true → b.packetAt t = some p := by
    intro t p hp hcont
    rw [hat] at hp
    split_ifs at hp
    · cases hp
      cases hcont
    · exact hp
  have hsound : b₁.Sound := by
    refine ⟨⟨hslotted, ?_⟩, ?_⟩
    · intro t q hq hcont hfirst
      obtain ⟨p, hp, hrest⟩ := h.link t q (hold t q hq hcont) hcont hfirst
      refine ⟨p, ?_, hrest⟩
      rw [hat, if_neg, hp]
      intro ht
      rw [ht, hnone] at hp
      cases hp
    · intro t p hp hcont
      exact h.closed t p (hold t p hp hcont) hcont
  have hpadding : ∀ padding : P, ({ b₁ with receivedPadding := padding } : PacketBuffer P).Sound :=
    fun padding => ⟨⟨⟨hsound.power, hsound.slot⟩, hsound.link⟩, hsound.closed⟩
  unfold store
  subst hb₁
  refine ((hpadding _).ensures_findFrames (hpadding _).closed _ _ _).mono
    fun r hr => ⟨⟨hr.linked, hr.closed⟩, _, hr.kept, ?_, hr.frames⟩
  intro t p hp
  have hp' := (hat t).symm.trans hp
  split_ifs at hp' with ht
  · cases hp'
    exact .inr ⟨packet, rfl, ht, rfl⟩
  · exact .inl hp'

theorem Sound.updateFirst (h : b.Sound) (hb' : b.updateFirst ops s = some b') :
    b'.Sound ∧ ∀ t p, b'.packetAt t = some p → b.packetAt t = some p := by
  unfold PacketBuffer.updateFirst at hb'
  split_ifs at hb'
  · cases hb'
    exact ⟨⟨⟨⟨h.power, h.slot⟩, h.link⟩, h.closed⟩, fun _ _ hp => hp⟩
  · cases hb'
    exact ⟨⟨⟨⟨h.power, nofun⟩, nofun⟩, nofun⟩, nofun⟩
  · cases hb'
    exact ⟨⟨⟨⟨h.power, h.slot⟩, h.link⟩, h.closed⟩, fun _ _ hp => hp⟩
  · cases hb'
    exact ⟨h, fun _ _ hp => hp⟩

theorem Returned.mono {b₀ : PacketBuffer P} {packet : Option Packet} {found : List Packet}
    (h : Returned b b' packet found) (hat : ∀ t p, b.packetAt t = some p → b₀.packetAt t = some p) :
    Returned b₀ b' packet found := by
  obtain ⟨hsound, b₁, hkept, hsource, hframes⟩ := h
  exact ⟨hsound, b₁, hkept, fun t p hp => (hsource t p hp).imp_left (hat t p), hframes⟩

theorem Sound.ensures_insertPacket (ops : PaddingSet P) (h : b.Sound) (packet : Packet) :
    Ensures (b.insertPacket ops packet) fun r => Returned b r.2 (some packet) r.1 := by
  unfold insertPacket
  cases hfirst : b.updateFirst ops packet.seqNum with
  | none => exact .some (.nothing _ h fun _ _ hp => hp)
  | some b₁ =>
    obtain ⟨hsound, hat⟩ := h.updateFirst hfirst
    dsimp only
    cases hslot : b₁.slots (b₁.index packet.seqNum) with
    | none => exact (hsound.ensures_store hslot).mono fun r hr => hr.mono hat
    | some stored =>
      dsimp only
      apply Ensures.ite
      · intro _
        exact .some (.nothing _ hsound hat)
      · intro _
        obtain ⟨hslotted, hexpand⟩ := hsound.toSlotted.expandFor (s := packet.seqNum) 64
        have hsound' := hsound.congr hslotted hexpand
        apply Ensures.ite
        · intro _
          exact .some (.nothing _ hsound'.clearInternal nofun)
        · intro hfree
          refine (hsound'.ensures_store (Option.not_isSome_iff_eq_none.mp hfree)).mono
            fun r hr => hr.mono fun t p hp => hat t p ?_
          rw [← hexpand]
          exact hp

theorem Sound.ensures_insertPadding (ops : PaddingSet P) (h : b.Sound) (s : BitVec 16) :
    Ensures (b.insertPadding ops s) fun r => Returned b r.2 none r.1 := by
  have hpadding : ∀ padding : P, ({ b with receivedPadding := padding } : PacketBuffer P).Sound :=
    fun padding => ⟨⟨⟨h.power, h.slot⟩, h.link⟩, h.closed⟩
  unfold insertPadding
  exact ((hpadding _).ensures_findFrames (hpadding _).closed _ _ _).mono
    fun r hr => ⟨⟨hr.linked, hr.closed⟩, _, hr.kept, fun _ _ hp => .inl hp, hr.frames⟩

theorem clearSlots_eq (size : Nat) (s : BitVec 16) (n : Nat) (first : BitVec 16)
    (slots : Nat → Option Packet) (i : Nat) :
    clearSlots size s n first slots i = slots i ∨ clearSlots size s n first slots i = none := by
  induction n generalizing first slots with
  | zero => exact .inl rfl
  | succ n ih =>
    rw [clearSlots]
    split_ifs
    · rcases ih (first + 1) (Function.update slots (first.toNat % size) none) with h | h
      · rw [h]
        by_cases hi : i = first.toNat % size
        · exact .inr (by rw [hi, Function.update_self])
        · exact .inl (by rw [Function.update_of_ne hi])
      · exact .inr h
    · exact ih (first + 1) slots

theorem clearTo_slots (ops : PaddingSet P) (b : PacketBuffer P) (s : BitVec 16) (i : Nat) :
    (b.clearTo ops s).slots i = b.slots i ∨ (b.clearTo ops s).slots i = none := by
  unfold clearTo
  split_ifs
  · exact .inl rfl
  · exact .inl rfl
  · exact clearSlots_eq _ _ _ _ _ _

theorem clearTo_sizes (ops : PaddingSet P) (b : PacketBuffer P) (s : BitVec 16) :
    (b.clearTo ops s).size = b.size ∧ (b.clearTo ops s).maxSize = b.maxSize := by
  unfold clearTo
  split_ifs <;> exact ⟨rfl, rfl⟩

theorem packetAt_clearTo {s t : BitVec 16} {p : Packet} (hp : (b.clearTo ops s).packetAt t = some p) :
    b.packetAt t = some p := by
  obtain ⟨hslot, hseq⟩ := packetAt_eq_some.mp hp
  rw [index, (clearTo_sizes ops b s).1] at hslot
  rcases clearTo_slots ops b s (t.toNat % b.size) with h | h
  · exact packetAt_eq_some.mpr ⟨h.symm.trans hslot, hseq⟩
  · rw [h] at hslot
    cases hslot

variable (ops) in
/-- `ClearTo` leaves the packet before each continuous packet that it leaves, unless that is the
first of its frame. -/
def ClearsWhole (b : PacketBuffer P) (s : BitVec 16) : Prop :=
  ∀ t q, (b.clearTo ops s).packetAt t = some q → q.continuous = true →
    q.isFirstPacketInFrame = false → (b.clearTo ops s).packetAt (t - 1) = b.packetAt (t - 1)

theorem Sound.clearTo (h : b.Sound) (hwhole : b.ClearsWhole ops s) : (b.clearTo ops s).Sound := by
  obtain ⟨hsize, hmax⟩ := clearTo_sizes ops b s
  refine ⟨⟨⟨?_, ?_⟩, ?_⟩, ?_⟩
  · rw [hsize, hmax]
    exact h.power
  · intro i p hp
    rw [index, hsize]
    rcases clearTo_slots ops b s i with hi | hi
    · exact h.slot i p (hi.symm.trans hp)
    · rw [hi] at hp
      cases hp
  · intro t q hq hcont hfirst
    rw [hwhole t q hq hcont hfirst]
    exact h.link t q (packetAt_clearTo hq) hcont hfirst
  · intro t p hp
    exact h.closed t p (packetAt_clearTo hp)

end PacketBuffer

/-- A packet buffer, the packets that were inserted, those that `ClearTo` removed (by their place in
the former), and the result of the last call. -/
structure PacketRun (P : Type) where
  buffer : PacketBuffer P
  log : List Packet
  cleared : Set Nat
  result : List Packet

inductive PacketOp where
  | insertPacket (packet : Packet)
  | insertPadding (seqNum : BitVec 16)
  | clearTo (seqNum : BitVec 16)
  | clear

variable {P : Type} (ops : PaddingSet P)

def PacketRun.step (r : PacketRun P) : PacketOp → Option (PacketRun P)
  | .insertPacket packet =>
    let packet := { packet with ordinal := r.log.length }
    (r.buffer.insertPacket ops packet).map fun (result, buffer) =>
      ⟨buffer, r.log ++ [packet], r.cleared, result⟩
  | .insertPadding s =>
    (r.buffer.insertPadding ops s).map fun (result, buffer) =>
      ⟨buffer, r.log, r.cleared, result⟩
  | .clearTo s =>
    let buffer := r.buffer.clearTo ops s
    let removed := {n | ∃ t p, r.buffer.packetAt t = some p ∧ p.ordinal = n ∧ buffer.packetAt t = none}
    some ⟨buffer, r.log, r.cleared ∪ removed, []⟩
  | .clear => some ⟨r.buffer.clearInternal ops, r.log, r.cleared, []⟩

def packetMachine : Machine (PacketRun P) PacketOp where
  initial r := ∃ k m, k ≤ m ∧ r = ⟨.create ops (2 ^ k) (2 ^ m), [], ∅, []⟩
  enabled _ _ := True
  step := PacketRun.step ops

structure CompleteFrame (log : List Packet) (frame : List Packet) : Prop where
  consecutive : ∃ start, frame.map Packet.seqNum =
    (List.range frame.length).map fun j => start + BitVec.ofNat 16 j
  inserted : ∀ x ∈ frame, ∃ q, log[x.ordinal]? = some q ∧ q.seqNum = x.seqNum ∧
    q.timestamp = x.timestamp
  timestamps : ∀ x ∈ frame, ∀ y ∈ frame, x.timestamp = y.timestamp
  first : ∃ x q, frame.head? = some x ∧ log[x.ordinal]? = some q ∧ q.isFirstPacketInFrame = true
  last : ∃ x q, frame.getLast? = some x ∧ log[x.ordinal]? = some q ∧ q.isLastPacketInFrame = true

namespace PacketRun

def Whole (r : PacketRun P) : Prop :=
  ∃ frames : List (List Packet), r.result = frames.flatten ∧
    ∀ f ∈ frames, CompleteFrame r.log f ∧ ∀ x ∈ f, x.ordinal ∉ r.cleared

/-- The sizes are ones of the range of sequence numbers, and `ClearTo` does not cut into a frame. -/
def Orderly (r : PacketRun P) : PacketOp → Prop
  | .clearTo s => r.buffer.maxSize < 2 ^ 16 ∧ r.buffer.ClearsWhole ops s
  | _ => r.buffer.maxSize < 2 ^ 16

def Known (log : List Packet) (cleared : Set Nat) (b : PacketBuffer P) : Prop :=
  ∀ t p, b.packetAt t = some p → p.ordinal ∉ cleared ∧ ∃ q, log[p.ordinal]? = some q ∧
    q.seqNum = t ∧ q.timestamp = p.timestamp ∧ q.isFirstPacketInFrame = p.isFirstPacketInFrame ∧
    q.isLastPacketInFrame = p.isLastPacketInFrame

structure Inv (r : PacketRun P) : Prop where
  sound : r.buffer.Sound
  known : Known r.log r.cleared r.buffer
  cleared : ∀ n ∈ r.cleared, n < r.log.length

variable {log : List Packet} {cleared : Set Nat} {b b' : PacketBuffer P}

theorem Known.kept (h : Known log cleared b) (hkept : PacketBuffer.Kept b b') :
    Known log cleared b' := by
  intro t p hp
  obtain ⟨x, hx, ho, ht, hf, hl⟩ := hkept t p hp
  obtain ⟨hnot, q, hq, hseq, htime, hfirst, hlast⟩ := h t x hx
  rw [ho] at hnot hq
  exact ⟨hnot, q, hq, hseq, htime.trans ht, hfirst.trans hf, hlast.trans hl⟩

theorem Known.completeFrame (h : Known log cleared b) {frame : List Packet}
    (hframe : PacketBuffer.FrameOf b frame) :
    CompleteFrame log frame ∧ ∀ x ∈ frame, x.ordinal ∉ cleared := by
  refine ⟨⟨hframe.consecutive, ?_, hframe.timestamps, ?_, ?_⟩, ?_⟩
  · intro x hx
    obtain ⟨p, hp, ho, ht⟩ := hframe.packets x hx
    obtain ⟨-, q, hq, hseq, htime, -⟩ := h _ p hp
    rw [ho] at hq
    exact ⟨q, hq, hseq, htime.trans ht⟩
  · obtain ⟨x, p, hx, hp, ho, hf⟩ := hframe.first
    obtain ⟨-, q, hq, -, -, hfirst, -⟩ := h _ p hp
    rw [ho] at hq
    exact ⟨x, q, hx, hq, hfirst.trans hf⟩
  · obtain ⟨x, p, hx, hp, ho, hl⟩ := hframe.last
    obtain ⟨-, q, hq, -, -, -, hlast⟩ := h _ p hp
    rw [ho] at hq
    exact ⟨x, q, hx, hq, hlast.trans hl⟩
  · intro x hx
    obtain ⟨p, hp, ho, -⟩ := hframe.packets x hx
    rw [← ho]
    exact (h _ p hp).1

variable {r : PacketRun P}

theorem Inv.returned (h : r.Inv) {packet : Option Packet} {found : List Packet}
    (hpacket : ∀ p, packet = some p → p.ordinal = r.log.length)
    (hr : PacketBuffer.Returned r.buffer b' packet found) :
    Inv ⟨b', r.log ++ packet.toList, r.cleared, found⟩ ∧
      Whole ⟨b', r.log ++ packet.toList, r.cleared, found⟩ := by
  obtain ⟨hsound, b₁, hkept, hsource, frames, hfound, hframes⟩ := hr
  have hknown : Known (r.log ++ packet.toList) r.cleared b₁ := by
    intro t p hp
    rcases hsource t p hp with hp | ⟨new, rfl, rfl, rfl⟩
    · obtain ⟨hnot, q, hq, hrest⟩ := h.known t p hp
      refine ⟨hnot, q, ?_, hrest⟩
      rw [List.getElem?_append_left (List.getElem?_eq_some_iff.mp hq).1, hq]
    · have hordinal := hpacket new rfl
      refine ⟨?_, new, ?_, rfl, rfl, rfl, rfl⟩
      · intro hmem
        have hlt := h.cleared _ hmem
        change new.ordinal < _ at hlt
        omega
      · show (r.log ++ [new])[new.ordinal]? = some new
        rw [hordinal, List.getElem?_concat_length]
  refine ⟨⟨hsound, hknown.kept hkept, ?_⟩, frames, hfound, fun f hf => hknown.completeFrame (hframes f hf)⟩
  intro n hn
  show n < (r.log ++ packet.toList).length
  rw [List.length_append]
  exact Nat.lt_add_right _ (h.cleared n hn)

theorem Inv.clearTo (h : r.Inv) (hwhole : r.buffer.ClearsWhole ops s) :
    Ensures (r.step ops (.clearTo s)) fun r' => Inv r' ∧ Whole r' := by
  refine .some ⟨⟨h.sound.clearTo hwhole, ?_, ?_⟩, [], rfl, nofun⟩
  · intro t p hp
    obtain ⟨hnot, q, hq, hseq, hrest⟩ := h.known t p (PacketBuffer.packetAt_clearTo hp)
    refine ⟨?_, q, hq, hseq, hrest⟩
    rintro (hmem | ⟨t', p', hp', ho, hnone⟩)
    · exact hnot hmem
    · -- The ordinal fixes the number, so the removed packet would be this one.
      obtain ⟨-, q', hq', hseq', -⟩ := h.known t' p' hp'
      rw [ho, hq] at hq'
      cases hq'
      rw [← hseq', hseq, hp] at hnone
      cases hnone
  · rintro n (hmem | ⟨t', p', hp', rfl, -⟩)
    · exact h.cleared n hmem
    · obtain ⟨-, q, hq, -⟩ := h.known t' p' hp'
      exact (List.getElem?_eq_some_iff.mp hq).1

theorem Inv.step (h : r.Inv) {op : PacketOp} (hop : r.Orderly ops op) :
    Ensures (r.step ops op) fun r' => Inv r' ∧ Whole r' := by
  cases op with
  | insertPacket packet =>
    obtain ⟨⟨found, b'⟩, hcall, hr⟩ :=
      h.sound.ensures_insertPacket ops { packet with ordinal := r.log.length }
    simp only [PacketRun.step, hcall, Option.map_some]
    exact .some (h.returned (fun p hp => by cases hp; rfl) hr)
  | insertPadding s =>
    obtain ⟨⟨found, b'⟩, hcall, hr⟩ := h.sound.ensures_insertPadding ops s
    simp only [PacketRun.step, hcall, Option.map_some]
    have hreturned := h.returned (fun p hp => absurd hp (by simp)) hr
    rw [Option.toList_none, List.append_nil] at hreturned
    exact .some hreturned
  | clearTo s => exact h.clearTo ops hop.2
  | clear => exact .some ⟨⟨h.sound.clearInternal, nofun, h.cleared⟩, [], rfl, nofun⟩

end PacketRun

/-- In every run in which the sizes are below the range of sequence numbers and `ClearTo` does not cut
into a frame, calls return complete frames and the checks of the search hold. -/
theorem packetBuffer_whole {r : PacketRun P}
    (h : ((packetMachine ops).restrict (PacketRun.Orderly ops)).Reachable r) :
    r.Whole ∧ ∀ op, r.Orderly ops op → (r.step ops op).isSome := by
  suffices hinv : (r.Whole ∧ (r.buffer.maxSize < 2 ^ 16 → r.Inv)) ∧ ∀ op, True ∧ r.Orderly ops op →
      Ensures (r.step ops op) fun r => r.Whole ∧ (r.buffer.maxSize < 2 ^ 16 → r.Inv) by
    refine ⟨hinv.1.1, fun op hop => ?_⟩
    obtain ⟨r', hr', -⟩ := hinv.2 op ⟨trivial, hop⟩
    rw [hr', Option.isSome_some]
  refine Machine.Reachable.invariant
    (I := fun r : PacketRun P => r.Whole ∧ (r.buffer.maxSize < 2 ^ 16 → r.Inv)) ?_ ?_ h
  · rintro r ⟨k, m, hkm, rfl⟩
    refine ⟨⟨[], rfl, nofun⟩, fun hm => ⟨⟨⟨⟨⟨k, m, hkm, ?_, rfl, rfl⟩, ?_⟩, ?_⟩, ?_⟩, ?_, ?_⟩⟩
    · exact (Nat.pow_lt_pow_iff_right (by decide)).mp hm
    all_goals nofun
  · intro r op hr (he : True ∧ r.Orderly ops op)
    have hsize : r.buffer.maxSize < 2 ^ 16 := by
      cases op with
      | clearTo s => exact he.2.1
      | _ => exact he.2
    exact ((hr.2 hsize).step ops he.2).mono fun r' hr' => ⟨hr'.2, fun _ => hr'.1⟩

def listPadding : PaddingSet (List (BitVec 16)) where
  empty := []
  insert l s := s :: l
  contains l s := l.contains s
  eraseBefore l s := l.filter fun x => !aheadOf s x
  eraseRange l s t := l.filter fun x => aheadOf s x || aheadOf x t

def videoPacket (seqNum : BitVec 16) (first last : Bool) : PacketOp :=
  .insertPacket ⟨0, seqNum, 0, first, last, false⟩

theorem packetBuffer_whole_single :
    ∃ r, ((packetMachine listPadding).restrict (PacketRun.Orderly listPadding)).Reachable r ∧
      r.result ≠ [] ∧ r.Whole := by
  have h0 : ((packetMachine listPadding).restrict (PacketRun.Orderly listPadding)).Reachable
      ⟨.create listPadding (2 ^ 4) (2 ^ 4), [], ∅, []⟩ :=
    .initial ⟨4, 4, le_rfl, rfl⟩
  have hop : ((packetMachine listPadding).restrict (PacketRun.Orderly listPadding)).enabled
      ⟨.create listPadding (2 ^ 4) (2 ^ 4), [], ∅, []⟩ (videoPacket 7 true true) :=
    ⟨trivial, by show 2 ^ 4 < 2 ^ 16; decide⟩
  have h1 := h0.step hop rfl
  exact ⟨_, h1, nofun, (packetBuffer_whole listPadding h1).1⟩

instance (r : PacketRun P) (op : PacketOp) : Decidable ((packetMachine ops).enabled r op) :=
  inferInstanceAs (Decidable True)

/-- Packet 11 stays continuous when `ClearTo` removes packet 10 before it; packet 26 then takes the
slot of packet 10 and is found as the first packet of the frame that packet 12 ends. -/
theorem packetBuffer_cuts_frame :
    ∃ r op, (packetMachine listPadding).Reachable r ∧ r.step listPadding op = none := by
  have h0 : (packetMachine listPadding).Reachable ⟨.create listPadding (2 ^ 4) (2 ^ 4), [], ∅, []⟩ :=
    .initial ⟨4, 4, le_rfl, rfl⟩
  obtain ⟨r, hr⟩ : ∃ r, (packetMachine listPadding).run
      ⟨.create listPadding (2 ^ 4) (2 ^ 4), [], ∅, []⟩
      [videoPacket 10 true false, videoPacket 11 false false, .clearTo 10,
        videoPacket 26 true false] = some r :=
    Option.isSome_iff_exists.mp (by decide +kernel)
  refine ⟨r, videoPacket 12 false true, h0.run hr, ?_⟩
  have hlast : (((packetMachine listPadding).run ⟨.create listPadding (2 ^ 4) (2 ^ 4), [], ∅, []⟩
      [videoPacket 10 true false, videoPacket 11 false false, .clearTo 10,
        videoPacket 26 true false]).bind
      fun r => r.step listPadding (videoPacket 12 false true)).isNone = true := by
    decide +kernel
  rw [hr] at hlast
  exact Option.isNone_iff_eq_none.mp hlast

end WebRtc.Video
