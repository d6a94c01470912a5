import WebRtc.Rtp.RtpPacketLayout

/-! Extensions are added to a packet one by one. The first that needs a header of two bytes rewrites
the block in place, from its end on. -/

namespace WebRtc.Rtp

open RtpPacket

open Content List Option

open ByteBuffer

def Content.addExt (c : Content) (e : Extension) : Content := { c with exts := c.exts ++ [e] }

section Block

variable {p p' : RtpPacket} {c : Content} {two : Bool}

theorem Content.extBytes_addExt (c : Content) (two : Bool) (e : Extension) :
    (c.addExt e).extBytes two = c.extBytes two ++ e.bytes two := by
  simp [Content.addExt, extBytes, flatMap_append]

theorem Content.fixedHeader_addExt (c : Content) (e : Extension) : (c.addExt e).fixedHeader =
    firstByte (c.padding ≠ 0) true c.csrcs.length :: c.fixedHeader.tail := by
  rw [fixedHeader, Content.addExt]
  cases c.exts <;> rfl

theorem Content.csrcsEnd_eq (c : Content) : kFixedHeaderSize + c.csrcBytes.length = c.csrcsEnd ∧
    c.fixedHeader.length ≤ c.csrcsEnd ∧ c.extensionsOffset = c.csrcsEnd + 4 :=
  ⟨by rw [length_csrcBytes, csrcsEnd], Nat.le_add_right _ _, rfl⟩

/-- The end of an append and of a promotion: a packet whose extensions were written anew. -/
theorem carries_of_block (two two' : Bool) {memory m : List UInt8}
    {extensions : RtpHeaderExtensionMap} {c' : Content} {entries : List ExtensionInfo}
    {n padded size : Nat} (hc' : { c with exts := c'.exts } = c') (hpayload : c.payload = [])
    (hpadding : c.padding = 0) (hne : c'.exts ≠ []) (hfixed : Holds m 0 c'.fixedHeader)
    (hcsrcs : Holds m kFixedHeaderSize c.csrcBytes)
    (hprofile : Holds m c.csrcsEnd (bigEndian16 (profileId two')))
    (hexts : Holds m c.extensionsOffset (c'.extBytes two'))
    (hentries : entriesFrom two' c.extensionsOffset c'.exts = entries)
    (hsize : (c'.extBytes two').length = size) (hsmall : c.extensionsOffset + size < 2 ^ 16)
    (hset : RtpPacket.setExtensionLengthMaybeAddZeroPadding
      { c.packet two extensions memory with
        extensionEntries := entries, extensionsSize := size, buffer := ⟨m, n⟩ }
      c.extensionsOffset = some (padded, p)) :
    RtpPacket.Carries { p with
      payloadOffset := c.extensionsOffset + padded
      buffer := p.buffer.setSize (c.extensionsOffset + padded) } c' two' ∧
    m.length ≤ (p.buffer.setSize (c.extensionsOffset + padded)).capacity := by
  obtain ⟨_, -, hset⟩ := bind_eq_some_iff.mp hset
  obtain ⟨m₁, h₁, hset⟩ := writeAt_bind_eq_some.mp hset
  obtain ⟨m₂, h₂, ⟨⟩⟩ := writeAt_bind_eq_some.mp hset
  simp only at h₁ h₂
  have hend : c'.csrcsEnd = c.csrcsEnd := by rw [← hc']; rfl
  have hoffset : c'.extensionsOffset = c.extensionsOffset := by rw [← hc']; rfl
  obtain ⟨hstart, hfixedEnd, hpos⟩ := c.csrcsEnd_eq
  have hlength := length_bigEndian16 (.ofNat 16 ((size + 3) / 4))
  have hkeep {o : Nat} {l : List UInt8} (h : Holds m o l) (hl : o + l.length ≤ c.csrcsEnd + 2 ∨
      c.extensionsOffset ≤ o ∧ o + l.length ≤ c.extensionsOffset + size) : Holds m₂ o l :=
    (h.frame h₁ (by omega)).frame h₂ (by omega)
  have hheaders : Holds m₂ 0 (c'.headers two') := by
    rw [holds_headers, holds_block hne, hend, hoffset, Content.words, hsize]
    refine ⟨hkeep hfixed (.inl (hfixedEnd.trans (Nat.le_add_right _ _))), ?_,
      hkeep hprofile (.inl le_rfl), (Holds.of_write h₁).frame h₂ (by omega),
      hkeep hexts (.inr ⟨le_rfl, ?_⟩), .of_write h₂⟩
    · rw [← hc']
      exact hkeep hcsrcs (.inl (hstart.le.trans (Nat.le_add_right _ _)))
    · rw [hsize]
  have hwords : c'.headersSize two' = c.extensionsOffset + 4 * ((size + 3) / 4) % 2 ^ 16 := by
    rw [headersSize, if_neg (by simpa using hne), hoffset, Content.words, hsize, Nat.mod_eq_of_lt]
    omega
  have hfits := (holds_zero_iff.mp hheaders).length_le
  rw [length_headers, hwords] at hfits
  rw [setSize_of_le hfits]
  refine ⟨?_, ((length_of_write h₂).2.trans (length_of_write h₁).2).ge⟩
  rw [← hwords]
  obtain ⟨marker, type, number, time, ssrc, csrcs, _, payload, padding⟩ := c
  obtain ⟨_, _, _, _, _, _, exts, _, _⟩ := c'
  obtain ⟨rfl, rfl⟩ : payload = [] ∧ padding = 0 := ⟨hpayload, hpadding⟩
  subst hentries hsize
  cases hc'
  have hbytes : Holds m₂ 0
      (Content.bytes ⟨marker, type, number, time, ssrc, csrcs, exts, [], 0⟩ two') :=
    holds_bytes.mpr ⟨hheaders, holds_nil, holds_nil⟩
  exact .packet two' extensions hbytes

theorem profileId_eq_one (two : Bool) :
    decide (profileId two = kOneByteExtensionProfileId) = !two := by
  cases two <;> decide

theorem length_profile (two : Bool) : extensionHeaderSize two =
    if profileId two = kOneByteExtensionProfileId then 1 else 2 := by
  cases two <;> rfl

theorem holds_openExtensionBlock {extensions : RtpHeaderExtensionMap} {memory : List UInt8}
    {buffer : CopyOnWriteBuffer} (hm : Holds memory 0 (c.headers two)) (hc : c.csrcs.length ≤ 15)
    (hopen : (c.packet two extensions memory).openExtensionBlock c.extensionsOffset
      (profileId two) = some buffer) :
    (∀ e, Holds buffer.memory 0 (c.addExt e).fixedHeader) ∧
      Holds buffer.memory kFixedHeaderSize c.csrcBytes ∧
      Holds buffer.memory c.csrcsEnd (bigEndian16 (profileId two)) ∧
      Holds buffer.memory c.extensionsOffset (c.extBytes two) ∧
      buffer.memory.length = memory.length := by
  obtain ⟨hfixed, hcsrcs, hblock⟩ := holds_headers.mp hm
  have hsize : (c.packet two extensions memory).extensionsSize = (c.extBytes two).length := rfl
  rw [RtpPacket.openExtensionBlock, hsize] at hopen
  by_cases hexts : c.exts = []
  · have hnil : c.extBytes two = [] := by rw [extBytes, hexts, flatMap_nil]
    rw [hnil, if_pos length_nil] at hopen
    obtain ⟨_, -, hopen⟩ := bind_eq_some_iff.mp hopen
    obtain ⟨m₁, h₁, hopen⟩ := writeAt_bind_eq_some.mp hopen
    obtain ⟨m₂, h₂, rfl⟩ := map_eq_some_iff.mp hopen
    rw [byteAt_zero (c := c) hfixed, (firstByte_set _ _ _ hc).1] at h₁
    have hone : 1 ≤ kFixedHeaderSize := by decide
    have hlength := c.length_csrcBytes
    rw [hnil]
    refine ⟨fun e => ?_, ?_, .of_write h₂, holds_nil,
      (length_of_write h₂).2.trans (length_of_write h₁).2⟩
    · exact (holds_firstByte hfixed _ h₁ (c.fixedHeader_addExt e)).frame h₂
        (.inl (Nat.le_add_right _ _))
    · exact (hcsrcs.frame h₁ (.inr hone)).frame h₂ (.inl (by rw [hlength]; rfl))
  · rw [if_neg (fun hzero => hexts (exts_eq_nil hzero))] at hopen
    cases hopen
    obtain ⟨hprofile, -, hext, -⟩ := (holds_block hexts).mp hblock
    refine ⟨fun e => ?_, hcsrcs, hprofile, hext, rfl⟩
    rw [fixedHeader_addExt]
    have hbit : (!c.exts.isEmpty) = true := by simp [hexts]
    rwa [← hbit]

variable {id : UInt8}

theorem RtpPacket.Carries.appendExtension (h : p.Carries c two) (hc : c.csrcs.length ≤ 15)
    (hpayload : c.payload = []) (hpadding : c.padding = 0) {length size : Nat} {view : Option View}
    (hsize : (c.extBytes two).length + extensionHeaderSize two + length = size)
    (hsmall : c.extensionsOffset + size < 2 ^ 16)
    (hset : p.appendExtension id length (profileId two) = some (view, p')) :
    (view = none ∧ p' = p ∧ p.capacity < c.extensionsOffset + size) ∨
      ∃ data, data.length = length ∧ view = some ⟨c.extensionsOffset + (c.extBytes two).length +
        extensionHeaderSize two, length⟩ ∧ p'.Carries (c.addExt ⟨id, data⟩) two := by
  obtain @⟨_, _, extensions, memory, hm⟩ := h
  have hold : (c.packet two extensions memory).extensionsSize = (c.extBytes two).length := rfl
  rw [RtpPacket.appendExtension, extensionsOffset_eq (fixedHeader_of_bytes hm) hc, hold,
    ← length_profile, hsize] at hset
  by_cases hcapacity : c.extensionsOffset + size > (c.packet two extensions memory).capacity
  · rw [if_pos hcapacity] at hset
    cases hset
    exact .inl ⟨rfl, rfl, hcapacity⟩
  rw [if_neg hcapacity] at hset
  obtain ⟨buffer, hopen, hset⟩ := bind_eq_some_iff.mp hset
  obtain ⟨m₁, h₁, hset⟩ := writeAt_bind_eq_some.mp hset
  obtain ⟨_, -, hset⟩ := bind_eq_some_iff.mp hset
  obtain ⟨⟨padded, p₁⟩, hlength, ⟨⟩⟩ := bind_eq_some_iff.mp hset
  obtain ⟨hfixed, hcsrcs, hprofile, hexts, hsame⟩ :=
    holds_openExtensionBlock (holds_bytes.mp hm).1 hc hopen
  have hsame₁ := (length_of_write h₁).2
  replace hcapacity : ¬ c.extensionsOffset + size > memory.length := hcapacity
  obtain ⟨data, hdata, hnew⟩ : ∃ data, data.length = length ∧
      Holds m₁ (c.extensionsOffset + (c.extBytes two).length + extensionHeaderSize two) data :=
    ⟨_, holds_take_drop m₁ (by omega)⟩
  obtain ⟨hstart, hfixedEnd, hpos⟩ := c.csrcsEnd_eq
  have hprofileSize := length_bigEndian16 (profileId two)
  have hkeep {o : Nat} {l : List UInt8} (h : Holds buffer.memory o l)
      (hl : o + l.length ≤ c.extensionsOffset + (c.extBytes two).length) : Holds m₁ o l :=
    h.frame h₁ (.inl hl)
  have hbytes : Holds m₁ c.extensionsOffset ((c.addExt ⟨id, data⟩).extBytes two) := by
    rw [extBytes_addExt, holds_append, Extension.bytes, holds_append, hdata, length_extensionHeader]
    exact ⟨hkeep hexts le_rfl, .of_write h₁, hnew⟩
  have hentries : entriesFrom two c.extensionsOffset (c.addExt ⟨id, data⟩).exts =
      entriesFrom two c.extensionsOffset c.exts ++ [⟨id, length, c.extensionsOffset +
        (c.extBytes two).length + extensionHeaderSize two⟩] := by
    rw [Content.addExt, entriesFrom_append, entriesFrom, entriesFrom, hdata]
    rfl
  have hsize' : ((c.addExt ⟨id, data⟩).extBytes two).length = size := by
    rw [extBytes_addExt, length_append, Extension.length_bytes, hdata, ← hsize, Nat.add_assoc]
  exact .inr ⟨data, hdata, rfl, (carries_of_block two two rfl hpayload hpadding
    (append_ne_nil_of_right_ne_nil _ (cons_ne_nil _ _))
    (hkeep (hfixed ⟨id, data⟩) ((Nat.zero_add _).le.trans (hfixedEnd.trans (by omega))))
    (hkeep hcsrcs (by omega)) (hkeep hprofile (by omega)) hbytes hentries hsize' hsmall hlength).1⟩

/-! The promotion to headers of two bytes. -/

theorem length_flatMap_bytes (exts : List Extension) :
    (exts.flatMap (Extension.bytes true)).length =
      (exts.flatMap (Extension.bytes false)).length + exts.length := by
  induction exts with
  | nil => rfl
  | cons e rest ih =>
    simp only [flatMap_cons, length_append, ih, Extension.length_bytes, length_cons,
      extensionHeaderSize, if_true, Bool.false_eq_true, if_false]
    omega

theorem eq_of_readAt {b : CopyOnWriteBuffer} {offset : Nat} {data bytes : List UInt8}
    (h : Holds b.memory offset data) (hread : b.readAt offset data.length = some bytes) :
    bytes = data :=
  (some.inj (ite_none_right_eq_some.mp hread).2).symm.trans h

theorem promoteEntries_holds {exts : List Extension} {start : Nat}
    {buffer buffer' : CopyOnWriteBuffer} {entries : List ExtensionInfo}
    (hold : Holds buffer.memory start (exts.flatMap (Extension.bytes false)))
    (h : promoteEntries (entriesFrom false start exts).reverse buffer = some (entries, buffer')) :
    entries = (entriesFrom true start exts).reverse ∧ buffer'.capacity = buffer.capacity ∧
      Holds buffer'.memory start (exts.flatMap (Extension.bytes true)) ∧
      ∀ o l, o + l.length ≤ start ∨ start + (exts.flatMap (Extension.bytes true)).length ≤ o →
        Holds buffer.memory o l → Holds buffer'.memory o l := by
  -- The last extension is moved first, so that the induction takes extensions off the end.
  induction exts using List.reverseRecOn generalizing buffer entries with
  | nil =>
    cases h
    exact ⟨rfl, rfl, holds_nil, fun _ _ _ h => h⟩
  | append_singleton xs x ih =>
    obtain ⟨n, hn⟩ : ∃ n, (xs.flatMap (Extension.bytes false)).length = n := ⟨_, rfl⟩
    have htwo := length_flatMap_bytes xs
    have hone : (extensionHeader (profileId false) x.id x.data.length).length = 1 := rfl
    rw [flatMap_append, holds_append, flatMap_singleton, Extension.bytes, holds_append, hn, hone]
      at hold
    obtain ⟨hxs, -, hdata⟩ := hold
    rw [entriesFrom_append, reverse_append, hn] at h
    simp only [entriesFrom, reverse_singleton, singleton_append, promoteEntries,
      extensionHeaderSize, Bool.false_eq_true, if_false, length_reverse, length_entriesFrom] at h
    obtain ⟨_, -, h⟩ := bind_eq_some_iff.mp h
    obtain ⟨moved, hmoved, h⟩ := bind_eq_some_iff.mp h
    obtain rfl := eq_of_readAt hdata hmoved
    obtain ⟨m₁, h₁, h⟩ := writeAt_bind_eq_some.mp h
    obtain ⟨m₂, h₂, h⟩ := writeAt_bind_eq_some.mp h
    obtain ⟨m₃, h₃, h⟩ := writeAt_bind_eq_some.mp h
    obtain ⟨⟨rest, buffer₁⟩, hrest, ⟨⟩⟩ := bind_eq_some_iff.mp h
    rw [hn] at htwo
    obtain ⟨t, ht⟩ : ∃ t, start + (xs.flatMap (Extension.bytes true)).length = t := ⟨_, rfl⟩
    rw [show start + n + 1 + (xs.length + 1) = t + 2 by omega] at h₁ h₂ h₃ ⊢
    have hkeep {o : Nat} {l : List UInt8} (hl : o + l.length ≤ t ∨ t + 2 + x.data.length ≤ o)
        (h : Holds buffer.memory o l) : Holds m₃ o l :=
      ((h.frame h₁ (by omega)).frame h₂ (by rw [length_singleton]; omega)).frame h₃
        (by rw [length_singleton]; omega)
    obtain ⟨rfl, hcapacity, hpromoted, hframe⟩ := ih (hkeep (by omega) hxs) hrest
    replace hcapacity : buffer₁.capacity = buffer.capacity := hcapacity.trans
      ((length_of_write h₃).2.trans ((length_of_write h₂).2.trans (length_of_write h₁).2))
    have hx : Holds m₃ t (x.bytes true) :=
      holds_append.mpr ⟨holds_append.mpr ⟨.of_write h₃, (Holds.of_write h₂).frame h₃ (.inr le_rfl)⟩,
        ((Holds.of_write h₁).frame h₂ (.inr le_rfl)).frame h₃ (.inr (Nat.le_succ _))⟩
    have hlength : (x.bytes true).length = 2 + x.data.length := x.length_bytes true
    rw [entriesFrom_append, reverse_append, flatMap_append, flatMap_singleton, length_append,
      hlength, holds_append, ht]
    refine ⟨rfl, hcapacity, ⟨hpromoted, hframe t _ (.inr ht.le) hx⟩, fun o l hl h => ?_⟩
    exact hframe o l (by omega) (hkeep (by omega) h)

theorem Content.extensionsSize_promoted (c : Content) (extensions : RtpHeaderExtensionMap)
    (memory : List UInt8) : (c.packet false extensions memory).extensionsSize +
      (c.packet false extensions memory).extensionEntries.length = (c.extBytes true).length := by
  rw [extBytes, length_flatMap_bytes, Content.packet, length_entriesFrom]
  rfl

theorem RtpPacket.Carries.promote (h : p.Carries c false) (hc : c.csrcs.length ≤ 15)
    (hpayload : c.payload = []) (hpadding : c.padding = 0) (hexts : c.exts ≠ [])
    (hsmall : c.extensionsOffset + (c.extBytes true).length < 2 ^ 16)
    (hset : p.promoteToTwoByteHeaderExtension = some p') :
    p'.Carries c true ∧ p.capacity ≤ p'.capacity := by
  obtain @⟨_, _, extensions, memory, hm⟩ := h
  rw [promoteToTwoByteHeaderExtension, extensionsOffset_eq (fixedHeader_of_bytes hm) hc,
    extensionsSize_promoted] at hset
  obtain ⟨_, -, hset⟩ := bind_eq_some_iff.mp hset
  obtain ⟨_, -, hset⟩ := bind_eq_some_iff.mp hset
  obtain ⟨⟨entries, buffer⟩, hentries, hset⟩ := bind_eq_some_iff.mp hset
  obtain ⟨m₁, h₁, hset⟩ := writeAt_bind_eq_some.mp hset
  obtain ⟨⟨padded, p₁⟩, hlength, ⟨⟩⟩ := bind_eq_some_iff.mp hset
  obtain ⟨hfixed, hcsrcs, hblock⟩ := holds_headers.mp (holds_bytes.mp hm).1
  obtain ⟨-, -, hold, -⟩ := (holds_block hexts).mp hblock
  obtain ⟨rfl, hcapacity, hnew, hframe⟩ := promoteEntries_holds hold hentries
  obtain ⟨hstart, -, hpos⟩ := c.csrcsEnd_eq
  have hprofile := length_bigEndian16 kTwoByteExtensionProfileId
  have hkeep {o : Nat} {l : List UInt8} (h : Holds memory o l) (hl : o + l.length ≤ c.csrcsEnd) :
      Holds m₁ o l := (hframe o l (by omega) h).frame h₁ (.inl hl)
  obtain ⟨hcarries, hgrow⟩ := carries_of_block false true rfl hpayload hpadding hexts
    (hkeep hfixed (Nat.le_add_right _ _)) (hkeep hcsrcs hstart.le) (.of_write h₁)
    (hnew.frame h₁ (by omega)) (reverse_reverse _).symm rfl hsmall hlength
  exact ⟨hcarries, ((length_of_write h₁).2.trans hcapacity).ge.trans hgrow⟩

/-! Allocation. -/

theorem find?_entriesFrom {exts : List Extension} {offset : Nat} {entry : ExtensionInfo}
    (h : (entriesFrom two offset exts).find? (·.id = id) = some entry) :
    ∃ xs e ys, exts = xs ++ e :: ys ∧ (∀ x ∈ xs, x.id ≠ id) ∧ e.id = id ∧
      entry = ⟨e.id, e.data.length,
        offset + (xs.flatMap (Extension.bytes two)).length + extensionHeaderSize two⟩ := by
  induction exts generalizing offset with
  | nil => cases h
  | cons e rest ih =>
    rw [entriesFrom, List.find?_cons] at h
    by_cases hid : e.id = id
    · simp only [hid, decide_true] at h
      exact ⟨[], e, rest, rfl, by simp, hid, by rw [← Option.some.inj h, hid]; rfl⟩
    · simp only [hid, decide_false] at h
      obtain ⟨xs, e', ys, rfl, hxs, hid', rfl⟩ := ih h
      refine ⟨e :: xs, e', ys, rfl, forall_mem_cons.mpr ⟨hid, hxs⟩, hid', ?_⟩
      rw [flatMap_cons, length_append, ← Nat.add_assoc]

theorem find?_entriesFrom_eq_none {exts : List Extension} {offset : Nat} :
    (entriesFrom two offset exts).find? (·.id = id) = none ↔ ∀ x ∈ exts, x.id ≠ id := by
  rw [← List.forall_mem_map (f := Extension.id) (P := (· ≠ id)), ← ids_entriesFrom two offset exts,
    List.find?_eq_none, List.forall_mem_map]
  simp

theorem Content.twoByte_addExt (c : Content) (e : Extension) :
    (c.addExt e).twoByte = (c.twoByte || decide e.NeedsTwoBytes) := by
  simp [twoByte, Content.addExt]

theorem RtpPacket.Carries.of_exts_nil (h : p.Carries c two) (hexts : c.exts = []) (two' : Bool) :
    p.Carries c two' := by
  obtain ⟨_, extensions, hm⟩ := h
  obtain ⟨marker, type, number, time, ssrc, csrcs, exts, payload, padding⟩ := c
  obtain rfl : exts = [] := hexts
  exact .packet two' extensions hm

theorem Content.length_extBytes_le (c : Content) (two : Bool) :
    (c.extBytes two).length ≤ (c.extBytes true).length ∧ extensionHeaderSize two ≤ 2 := by
  cases two
  · exact ⟨(length_flatMap_bytes c.exts).ge.trans' (Nat.le_add_right _ _), Nat.le_succ 1⟩
  · exact ⟨le_rfl, le_rfl⟩

/-- A new extension is refused, or appended to the block after a promotion if it needs one. What
the block needs after the promotion is asked for in advance. -/
theorem RtpPacket.Carries.allocate_new (h : p.Carries c c.twoByte) (hc : c.csrcs.length ≤ 15)
    {length : Nat} {two : Bool} {view : Option View}
    (htwo : two = (c.twoByte || decide (id > 14 ∨ length > 16 ∨ length = 0)))
    (hsmall : c.extensionsOffset + ((c.extBytes true).length + 2 + length) < 2 ^ 16)
    (hfind : p.findExtensionInfo id = none)
    (hset : p.allocateRawExtension id length = some (view, p')) : (view = none ∧ p' = p) ∨
      ∃ data, data.length = length ∧ view = some ⟨c.extensionsOffset + (c.extBytes two).length +
        extensionHeaderSize two, length⟩ ∧ p'.Carries (c.addExt ⟨id, data⟩) two := by
  have hcarries := h
  obtain @⟨_, _, extensions, memory, hm⟩ := h
  have hold : (c.packet c.twoByte extensions memory).extensionsSize =
    (c.extBytes c.twoByte).length := rfl
  obtain ⟨required, hrequired⟩ : ∃ required,
    decide (id > 14 ∨ length > 16 ∨ length = 0) = required := ⟨_, rfl⟩
  rw [hrequired] at htwo
  obtain ⟨_, -, hset⟩ := bind_eq_some_iff.mp hset
  simp only [hfind, extensionsOffset_eq (fixedHeader_of_bytes hm) hc, hrequired, hold] at hset
  split at hset
  · cases hset
    exact .inl ⟨rfl, rfl⟩
  next hlater =>
  obtain ⟨hpayload, hpadding⟩ := not_or.mp hlater
  replace hpayload : c.payload = [] := length_eq_zero_iff.mp (Nat.eq_zero_of_not_pos hpayload)
  replace hpadding : c.padding = 0 := Nat.eq_zero_of_not_pos hpadding
  obtain ⟨_, -, hset⟩ := bind_eq_some_iff.mp hset
  have hle := c.length_extBytes_le two
  have happend {p₁ : RtpPacket} (hp₁ : p₁.Carries c two)
      (hset : p₁.appendExtension id length (profileId two) = some (view, p')) :=
    hp₁.appendExtension hc hpayload hpadding rfl (by omega) hset
  by_cases hexts : c.exts = []
  · have hone : c.twoByte = false := by rw [twoByte, hexts, any_nil]
    rw [extBytes, hexts, flatMap_nil, length_nil, if_neg (lt_irrefl 0)] at hset
    rw [hone, Bool.false_or] at htwo
    subst htwo
    exact (happend (hcarries.of_exts_nil hexts two) hset).imp_left fun h => ⟨h.1, h.2.1⟩
  · have hpos : (c.extBytes c.twoByte).length > 0 :=
      Nat.pos_of_ne_zero fun hzero => hexts (exts_eq_nil hzero)
    have hprofile : load16 (c.packet c.twoByte extensions memory).buffer.memory
      (c.extensionsOffset - 4) = _ :=
      ((holds_block hexts).mp (holds_headers.mp (holds_bytes.mp hm).1).2.2).1.load16
    rw [if_pos hpos, hprofile] at hset
    split at hset
    · next hpromote =>
      have hone : c.twoByte = false := by simpa [hpromote.1] using (profileId_eq_one c.twoByte).symm
      obtain rfl : two = true := by rw [htwo, hpromote.2, Bool.or_true]
      split at hset
      · cases hset
        exact .inl ⟨rfl, rfl⟩
      · next hcapacity =>
        obtain ⟨p₁, hp₁, hset⟩ := bind_eq_some_iff.mp hset
        rw [hone] at hcarries hp₁ hcapacity
        obtain ⟨hp₁, hgrow⟩ := hcarries.promote hc hpayload hpadding hexts (by omega) hp₁
        refine .inr ((happend hp₁ hset).resolve_left fun hfull => ?_)
        have hpromoted : (c.extBytes false).length + _ = _ :=
          c.extensionsSize_promoted extensions memory
        rw [hpromoted] at hcapacity
        exact absurd (hfull.2.2.trans_le (not_lt.mp hcapacity)) (not_lt.mpr hgrow)
    · next hsame =>
      have htwo : two = c.twoByte := by
        cases htwoByte : c.twoByte
        · rw [htwoByte] at hsame htwo
          cases required
          · exact htwo
          · exact absurd ⟨rfl, rfl⟩ hsame
        · rw [htwo, htwoByte, Bool.true_or]
      exact (happend (htwo ▸ hcarries) (htwo ▸ hset)).imp_left fun h => ⟨h.1, h.2.1⟩

end Block

def setExtension (id : UInt8) (data : List UInt8) : List Extension → List Extension
  | [] => [⟨id, data⟩]
  | e :: rest => if e.id = id then ⟨id, data⟩ :: rest else e :: setExtension id data rest

theorem setExtension_append {id : UInt8} {xs : List Extension} (h : ∀ x ∈ xs, x.id ≠ id)
    (data : List UInt8) (ys : List Extension) :
    setExtension id data (xs ++ ys) = xs ++ setExtension id data ys := by
  induction xs with
  | nil => rfl
  | cons x xs ih =>
    obtain ⟨hx, hxs⟩ := forall_mem_cons.mp h
    rw [cons_append, setExtension, if_neg hx, ih hxs, cons_append]

section Replace

variable {p p' : RtpPacket} {c : Content} {two : Bool} {xs ys : List Extension} {id : UInt8}

theorem Content.bytes_replace (c : Content) (two : Bool) (xs ys : List Extension) (id : UInt8)
    (length : Nat) : ∃ a b size, a.length =
        c.extensionsOffset + (xs.flatMap (Extension.bytes two)).length + extensionHeaderSize two ∧
      ∀ data, data.length = length →
        Content.bytes { c with exts := xs ++ ⟨id, data⟩ :: ys } two = a ++ (data ++ b) ∧
        (Content.extBytes { c with exts := xs ++ ⟨id, data⟩ :: ys } two).length = size := by
  obtain ⟨size, hsize⟩ : ∃ size, (xs.flatMap (Extension.bytes two)).length + (extensionHeaderSize two
    + length + (ys.flatMap (Extension.bytes two)).length) = size := ⟨_, rfl⟩
  refine ⟨(firstByte (c.padding ≠ 0) true c.csrcs.length :: c.fixedHeader.tail) ++ c.csrcBytes ++
      (bigEndian16 (profileId two) ++ bigEndian16 (.ofNat 16 ((size + 3) / 4))) ++
      xs.flatMap (Extension.bytes two) ++ extensionHeader (profileId two) id length,
    ys.flatMap (Extension.bytes two) ++ List.replicate (4 * ((size + 3) / 4) - size) 0 ++
      (c.payload ++ c.paddingBytes), size, ?_, fun data hdata => ?_⟩
  · simp only [length_append, length_extensionHeader, length_csrcBytes, length_bigEndian16]
    rfl
  · have hlength :
        (Content.extBytes { c with exts := xs ++ ⟨id, data⟩ :: ys } two).length = size := by
      rw [extBytes, flatMap_append, flatMap_cons, length_append, length_append,
        Extension.length_bytes, hdata, hsize]
    have hfixed : (Content.fixedHeader { c with exts := xs ++ ⟨id, data⟩ :: ys }) =
        firstByte (c.padding ≠ 0) true c.csrcs.length :: c.fixedHeader.tail := by
      cases xs <;> rfl
    refine ⟨?_, hlength⟩
    rw [bytes, headers, block, hfixed, Content.words, hlength, if_neg (by simp), extBytes]
    simp only [flatMap_append, flatMap_cons, Extension.bytes, hdata, append_assoc]
    rfl

theorem RtpPacket.Carries.replace {old new : List UInt8} {memory' : List UInt8}
    (h : p.Carries { c with exts := xs ++ ⟨id, old⟩ :: ys } two) (hnew : new.length = old.length)
    (hwrite : write p.buffer.memory (c.extensionsOffset +
      (xs.flatMap (Extension.bytes two)).length + extensionHeaderSize two) new = some memory') :
    RtpPacket.Carries { p with buffer := ⟨memory', p.buffer.size⟩ }
      { c with exts := xs ++ ⟨id, new⟩ :: ys } two := by
  obtain @⟨_, _, extensions, memory, hm⟩ := h
  obtain ⟨a, b, size, ha, hbytes⟩ := c.bytes_replace two xs ys id old.length
  obtain ⟨hold, hsize⟩ := hbytes old rfl
  obtain ⟨hnewBytes, hsize'⟩ := hbytes new hnew
  rw [hold] at hm
  have hm' := hm.replace (by rwa [Nat.zero_add, ha]) hnew
  rw [← hnewBytes] at hm'
  have hpacket : Content.packet { c with exts := xs ++ ⟨id, new⟩ :: ys } two extensions memory' =
      { Content.packet { c with exts := xs ++ ⟨id, old⟩ :: ys } two extensions memory with
        buffer := ⟨memory', (Content.packet { c with exts := xs ++ ⟨id, old⟩ :: ys } two extensions
          memory).buffer.size⟩ } := by
    simp only [Content.packet, headersSize, Content.words, hsize, hsize', entriesFrom_append,
      entriesFrom, Extension.length_bytes, hnew]
    rw [if_neg (by simp), if_neg (by simp)]
    rfl
  rw [← hpacket]
  exact .packet two extensions hm'

theorem RtpPacket.Carries.allocate {length : Nat} {view : Option View} (h : p.Carries c c.twoByte)
    (hc : c.csrcs.length ≤ 15)
    (hsmall : c.extensionsOffset + ((c.extBytes true).length + 2 + length) < 2 ^ 16)
    (hset : p.allocateRawExtension id length = some (view, p')) : (view = none ∧ p' = p) ∨
      (1 ≤ id ∧ 1 ≤ length ∧ length ≤ 255) ∧ ∃ xs old ys two, old.length = length ∧
        (∀ data, setExtension id data c.exts = xs ++ ⟨id, data⟩ :: ys) ∧
        two = twoByte { c with exts := xs ++ ⟨id, old⟩ :: ys } ∧
        view = some ⟨c.extensionsOffset + (xs.flatMap (Extension.bytes two)).length +
          extensionHeaderSize two, length⟩ ∧
        p'.Carries { c with exts := xs ++ ⟨id, old⟩ :: ys } two := by
  have hrange : 1 ≤ id ∧ 1 ≤ length ∧ length ≤ 255 := by
    obtain ⟨_, hguard, -⟩ := bind_eq_some_iff.mp hset
    exact (guard_eq_some' _).mp hguard
  have hentries : p.extensionEntries = entriesFrom c.twoByte c.extensionsOffset c.exts := by
    cases h
    rfl
  cases hfind : p.findExtensionInfo id with
  | none =>
    refine (h.allocate_new hc rfl hsmall hfind hset).imp_right
      fun ⟨old, hold, hview, hcarries⟩ => ?_
    rw [findExtensionInfo, hentries, find?_entriesFrom_eq_none] at hfind
    refine ⟨hrange, c.exts, old, [], _, hold, fun data => ?_, ?_, hview, hcarries⟩
    · rw [← append_nil c.exts, setExtension_append hfind, append_nil, setExtension]
    · have hpos : length ≠ 0 := by omega
      rw [← Content.addExt, twoByte_addExt]
      congr 2
      simp [Extension.NeedsTwoBytes, hpos, hold]
  | some entry =>
    obtain ⟨_, -, hset⟩ := bind_eq_some_iff.mp hset
    simp only [hfind] at hset
    split at hset
    · next hlength =>
      cases hset
      rw [findExtensionInfo, hentries] at hfind
      obtain ⟨xs, ⟨id', old⟩, ys, hexts, hxs, hid, rfl⟩ := find?_entriesFrom hfind
      obtain rfl : id' = id := hid
      have hself : { c with exts := xs ++ ⟨id', old⟩ :: ys } = c := by rw [← hexts]
      refine .inr ⟨hrange, xs, old, ys, c.twoByte, hlength, fun data => ?_, ?_, rfl, ?_⟩
      · rw [hexts, setExtension_append hxs, setExtension, if_pos rfl]
      · rw [hself]
      · rwa [hself]
    · cases hset
      exact .inl ⟨rfl, rfl⟩

theorem RtpPacket.Carries.setRawExtension {data : List UInt8} {accepted : Bool}
    (h : p.Carries c c.twoByte) (hc : c.csrcs.length ≤ 15)
    (hsmall : c.extensionsOffset + ((c.extBytes true).length + 2 + data.length) < 2 ^ 16)
    (hset : p.setRawExtension id data = some (accepted, p')) : (accepted = false ∧ p' = p) ∨
      accepted = true ∧ (1 ≤ id ∧ 1 ≤ data.length ∧ data.length ≤ 255) ∧
        p'.Carries { c with exts := setExtension id data c.exts }
          (twoByte { c with exts := setExtension id data c.exts }) := by
  obtain ⟨⟨view, p₁⟩, hallocate, hfill⟩ := bind_eq_some_iff.mp hset
  rcases h.allocate hc hsmall hallocate with
    ⟨rfl, rfl⟩ | ⟨hrange, xs, old, ys, two, hold, hexts, htwo, rfl, hcarries⟩
  · cases hfill
    exact .inl ⟨rfl, rfl⟩
  · obtain ⟨memory', hwrite, ⟨⟩⟩ := writeAt_bind_eq_some.mp hfill
    have hneeds : (Extension.mk id data).NeedsTwoBytes ↔ (Extension.mk id old).NeedsTwoBytes := by
      simp only [Extension.NeedsTwoBytes, hold]
    have htwo' : twoByte { c with exts := xs ++ ⟨id, data⟩ :: ys } = two := by
      rw [htwo]
      simp only [twoByte, any_append, any_cons, hneeds]
    refine .inr ⟨rfl, hrange, ?_⟩
    simp only [hexts, htwo']
    exact hcarries.replace hold.symm hwrite

end Replace

end WebRtc.Rtp
