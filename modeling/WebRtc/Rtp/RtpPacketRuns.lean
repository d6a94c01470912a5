import WebRtc.Rtp.RtpPacketParse

/-! Runs of the setters on a new packet. Whatever the calls were, the packet says what the accepted
ones asked for, and so does the packet that the parser makes of its bytes. -/

namespace WebRtc.Rtp

open RtpPacket Content

open ByteBuffer List Option

inductive PacketCall
  | setMarker (marker : Bool)
  | setPayloadType (payloadType : UInt8)
  | setSequenceNumber (sequenceNumber : BitVec 16)
  | setTimestamp (timestamp : BitVec 32)
  | setSsrc (ssrc : BitVec 32)
  | setCsrcs (csrcs : List (BitVec 32))
  | setRawExtension (id : UInt8) (data : List UInt8)
  | setPayload (payload : List UInt8)
  | setPadding (padding : Nat)

/-- A call with whether the packet accepted it. -/
def RtpPacket.call (p : RtpPacket) : PacketCall → Option (Bool × RtpPacket)
  | .setMarker marker => (p.setMarker marker).map (true, ·)
  | .setPayloadType payloadType => (p.setPayloadType payloadType).map (true, ·)
  | .setSequenceNumber sequenceNumber => (p.setSequenceNumber sequenceNumber).map (true, ·)
  | .setTimestamp timestamp => (p.setTimestamp timestamp).map (true, ·)
  | .setSsrc ssrc => (p.setSsrc ssrc).map (true, ·)
  | .setCsrcs csrcs => (p.setCsrcs csrcs).map (true, ·)
  | .setRawExtension id data => p.setRawExtension id data
  | .setPayload payload => (p.setPayload payload).map (true, ·)
  | .setPadding padding => p.setPadding padding

def Content.set (c : Content) : PacketCall → Content
  | .setMarker marker => { c with marker }
  | .setPayloadType payloadType => { c with payloadType }
  | .setSequenceNumber sequenceNumber => { c with sequenceNumber }
  | .setTimestamp timestamp => { c with timestamp }
  | .setSsrc ssrc => { c with ssrc }
  | .setCsrcs csrcs => { c with csrcs }
  | .setRawExtension id data => { c with exts := setExtension id data c.exts }
  | .setPayload payload => { c with payload }
  | .setPadding padding => { c with padding }

/-- A call to a packet, next to what the packet is to say. -/
def stepCall (s : RtpPacket × Content) (call : PacketCall) : Option (RtpPacket × Content) := do
  let (accepted, p) ← s.1.call call
  return (p, if accepted then s.2.set call else s.2)

def build (extensions : RtpHeaderExtensionMap) (memory : List UInt8) (calls : List PacketCall) :
    Option (RtpPacket × Content) := do
  let p ← create extensions memory
  calls.foldlM stepCall (p, .empty)

def PacketCall.extensionBytes : PacketCall → Nat
  | .setRawExtension _ data => data.length + 2
  | _ => 0

section Extensions

variable {exts : List Extension} {id : UInt8} {data : List UInt8}

theorem mem_setExtension {e : Extension} (h : e ∈ setExtension id data exts) :
    e = ⟨id, data⟩ ∨ e ∈ exts := by
  induction exts with
  | nil => exact .inl (mem_singleton.mp h)
  | cons x rest ih =>
    rw [setExtension] at h
    split at h
    · rcases mem_cons.mp h with h | h
      · exact .inl h
      · exact .inr (mem_cons_of_mem _ h)
    · rcases mem_cons.mp h with rfl | h
      · exact .inr mem_cons_self
      · exact (ih h).imp_right (mem_cons_of_mem _)

theorem nodup_setExtension (h : (exts.map Extension.id).Nodup) :
    ((setExtension id data exts).map Extension.id).Nodup := by
  induction exts with
  | nil => exact nodup_singleton _
  | cons x rest ih =>
    obtain ⟨hx, hrest⟩ := nodup_cons.mp h
    rw [setExtension]
    split
    · next hid => exact nodup_cons.mpr ⟨hid ▸ hx, hrest⟩
    · next hid =>
      refine nodup_cons.mpr ⟨fun hmem => ?_, ih hrest⟩
      obtain ⟨e, he, heid⟩ := List.mem_map.mp hmem
      rcases mem_setExtension he with rfl | he
      · exact hid heid.symm
      · exact hx (List.mem_map.mpr ⟨e, he, heid⟩)

theorem length_setExtension_le :
    ((setExtension id data exts).flatMap (Extension.bytes true)).length ≤
      (exts.flatMap (Extension.bytes true)).length + (data.length + 2) := by
  induction exts with
  | nil => simp [setExtension, Extension.length_bytes, extensionHeaderSize, Nat.add_comm]
  | cons x rest ih =>
    rw [setExtension]
    split <;> simp only [flatMap_cons, length_append, Extension.length_bytes, extensionHeaderSize,
      if_true] at ih ⊢ <;> omega

end Extensions

section Runs

variable {p p' : RtpPacket} {c : Content}

/-- The packet says `c`, and extensions of `n` bytes more find room in 16-bit offsets. -/
structure RtpPacket.Keeps (p : RtpPacket) (c : Content) (n : Nat) : Prop where
  wellFormed : c.WellFormed
  carries : p.Carries c c.twoByte
  room : (c.extBytes true).length + n + 76 < 2 ^ 16

variable {n : Nat}

theorem RtpPacket.Keeps.small (h : p.Keeps c n) (two : Bool) :
    c.extensionsOffset + (c.extBytes two).length + n < 2 ^ 16 := by
  obtain ⟨hc, -, hroom⟩ := h
  have hcsrcs := hc.csrcs_le
  have hle := c.length_extBytes_le two
  unfold extensionsOffset csrcsEnd kFixedHeaderSize
  omega

theorem RtpPacket.Keeps.setRawExtension {id : UInt8} {data : List UInt8} {accepted : Bool}
    (h : p.Keeps c (data.length + 2 + n)) (hset : p.setRawExtension id data = some (accepted, p')) :
    p'.Keeps (if accepted then { c with exts := setExtension id data c.exts } else c) n := by
  have hsmall := h.small true
  obtain ⟨hc, hcarries, hroom⟩ := h
  rcases hcarries.setRawExtension hc.csrcs_le (by omega) hset with
    ⟨rfl, rfl⟩ | ⟨rfl, hrange, hcarries⟩
  · rw [if_neg Bool.false_ne_true]
    exact ⟨hc, hcarries, by omega⟩
  · rw [if_pos rfl]
    refine ⟨⟨hc.1, hc.2, hc.3, nodup_setExtension hc.4, fun e he => ?_⟩, hcarries, ?_⟩
    · rcases mem_setExtension he with rfl | he
      · exact hrange
      · exact hc.exts e he
    · have hle := @length_setExtension_le c.exts id data
      simp only [extBytes] at hroom ⊢
      omega

theorem RtpPacket.Keeps.step {c' : Content} {call : PacketCall}
    (h : p.Keeps c (call.extensionBytes + n)) (hcall : stepCall (p, c) call = some (p', c')) :
    p'.Keeps c' n := by
  obtain ⟨⟨accepted, p₁⟩, hset, ⟨⟩⟩ := bind_eq_some_iff.mp hcall
  have hc := h.wellFormed
  have hroom : (c.extBytes true).length + n + 76 < 2 ^ 16 := by
    have := h.room
    omega
  cases call
  case setRawExtension => exact h.setRawExtension hset
  case setPadding =>
    rcases h.carries.setPadding hc.2 hset with ⟨rfl, rfl⟩ | ⟨rfl, hlt, hcarries⟩
    · exact ⟨hc, h.carries, hroom⟩
    · exact ⟨{ hc with padding_lt := hlt }, hcarries, hroom⟩
  -- The other calls are always accepted.
  all_goals obtain ⟨_, hset, ⟨⟩⟩ := map_eq_some_iff.mp hset
  case setMarker => exact ⟨{ hc with }, h.carries.setMarker hc.1 hset, hroom⟩
  case setPayloadType =>
    obtain ⟨htype, hcarries⟩ := h.carries.setPayloadType hc.1 hset
    exact ⟨{ hc with payloadType_le := htype }, hcarries, hroom⟩
  case setSequenceNumber => exact ⟨{ hc with }, h.carries.setSequenceNumber hset, hroom⟩
  case setTimestamp => exact ⟨{ hc with }, h.carries.setTimestamp hset, hroom⟩
  case setSsrc => exact ⟨{ hc with }, h.carries.setSsrc hset, hroom⟩
  case setCsrcs =>
    obtain ⟨hcsrcs, hcarries⟩ := h.carries.setCsrcs hc.2 hset
    exact ⟨{ hc with csrcs_le := hcsrcs }, hcarries, hroom⟩
  case setPayload => exact ⟨{ hc with }, h.carries.setPayload hset, hroom⟩

theorem RtpPacket.Keeps.run {c' : Content} {calls : List PacketCall}
    (h : p.Keeps c (calls.map PacketCall.extensionBytes).sum)
    (hrun : calls.foldlM stepCall (p, c) = some (p', c')) : p'.Keeps c' 0 := by
  induction calls generalizing p c with
  | nil =>
    cases hrun
    exact h
  | cons call calls ih =>
    obtain ⟨⟨p₁, c₁⟩, hcall, hrun⟩ := bind_eq_some_iff.mp hrun
    exact ih (h.step hcall) hrun

theorem keeps_create {extensions : RtpHeaderExtensionMap} {memory : List UInt8}
    (h : create extensions memory = some p) (hn : n + 76 < 2 ^ 16) : p.Keeps .empty n := by
  obtain ⟨m₁, h₁, h⟩ := writeAt_bind_eq_some.mp h
  obtain ⟨m₂, h₂, ⟨⟩⟩ := writeAt_bind_eq_some.mp h
  obtain ⟨hfits, hlength⟩ := length_of_write h₁
  rw [setSize_of_le (hlength ▸ hfits)] at h₂ ⊢
  have hbytes : Holds m₂ 0 (Content.bytes .empty false) :=
    Holds.replace (a := []) (o := [0]) (b := List.replicate 11 0) (.of_write h₁) h₂ rfl
  exact ⟨⟨by decide, Nat.zero_le _, Nat.zero_lt_succ _, nodup_nil, fun _ he => nomatch he⟩,
    .packet false extensions hbytes, (Nat.zero_add n).symm ▸ hn⟩

/-- The packet says `c`, and so does every packet that parses its bytes. -/
def RtpPacket.ReadsAs (p : RtpPacket) (c : Content) : Prop :=
  p.Shows c ∧ ∀ (q : RtpPacket) (slack : List UInt8),
    ∃ q', q.parse p.data slack = some (true, q') ∧ q'.Shows c

theorem build_readsAs {extensions : RtpHeaderExtensionMap} {memory : List UInt8}
    {calls : List PacketCall} (hroom : (calls.map PacketCall.extensionBytes).sum + 76 < 2 ^ 16)
    (hbuild : build extensions memory calls = some (p, c)) : p.ReadsAs c := by
  obtain ⟨p₀, hcreate, hrun⟩ := bind_eq_some_iff.mp hbuild
  have h := (keeps_create hcreate hroom).run hrun
  refine ⟨h.carries.shows h.wellFormed.csrcs_le, fun q slack => ?_⟩
  rw [h.carries.data]
  exact parse_bytes h.wellFormed (h.small c.twoByte) q slack

theorem build_readsAs_promoted : ∃ r, build ⟨fun _ => 0, true⟩ (List.replicate 40 0)
      [.setMarker true, .setCsrcs [5], .setRawExtension 1 [6, 7], .setRawExtension 15 [8],
        .setPayload [9, 10], .setPadding 3] = some r ∧ r.1.ReadsAs r.2 :=
  (isSome_iff_exists.mp (by decide)).imp fun _ hbuild =>
    ⟨hbuild, build_readsAs (by decide) hbuild⟩

end Runs

end WebRtc.Rtp
