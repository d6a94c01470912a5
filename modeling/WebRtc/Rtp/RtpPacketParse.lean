import WebRtc.Rtp.RtpPacketExtensions

/-! The parser reads what a packet was laid out to say. -/

namespace WebRtc.Rtp

open RtpPacket Content

open ByteBuffer List

structure RtpPacket.Shows (q : RtpPacket) (c : Content) : Prop where
  marker : q.marker = c.marker
  payloadType : q.payloadType = c.payloadType
  sequenceNumber : q.sequenceNumber = c.sequenceNumber
  timestamp : q.timestamp = c.timestamp
  ssrc : q.ssrc = c.ssrc
  csrcs : q.csrcs = c.csrcs
  extension : ∀ id, q.extension id = (c.exts.find? (·.id = id)).map Extension.data
  payload : q.payload = c.payload
  paddingSize : q.paddingSize = c.padding

structure Content.WellFormed (c : Content) : Prop where
  payloadType_le : c.payloadType ≤ 0x7F
  csrcs_le : c.csrcs.length ≤ 15
  padding_lt : c.padding < 2 ^ 8
  ids_nodup : (c.exts.map Extension.id).Nodup
  exts : ∀ e ∈ c.exts, 1 ≤ e.id ∧ 1 ≤ e.data.length ∧ e.data.length ≤ 255

/-! The headers of extensions. -/

theorem oneByteHeader_bits {id : UInt8} {length : Nat} (hid : 1 ≤ id) (hid' : id ≤ 14)
    (hlength : 1 ≤ length) (hlength' : length ≤ 16) : id <<< 4 ||| UInt8.ofNat (length - 1) ≠ 0 ∧
      (id <<< 4 ||| UInt8.ofNat (length - 1)) >>> 4 = id ∧
      1 + ((id <<< 4 ||| UInt8.ofNat (length - 1)) &&& 0xf).toNat = length := by
  have hbits : ∀ i : BitVec 8, 1 ≤ i → i ≤ 14 → ∀ n < 16,
      UInt8.ofBitVec i <<< 4 ||| UInt8.ofNat n ≠ 0 ∧
        (UInt8.ofBitVec i <<< 4 ||| UInt8.ofNat n) >>> 4 = UInt8.ofBitVec i ∧
        ((UInt8.ofBitVec i <<< 4 ||| UInt8.ofNat n) &&& 0xf).toNat = n := by decide
  obtain ⟨hne, hshift, hand⟩ := hbits id.toBitVec hid hid' (length - 1) (by omega)
  exact ⟨hne, hshift, by rw [hand]; omega⟩

variable {e : Extension} {entries : List ExtensionInfo}

theorem findOrCreate_map {id : UInt8} {length offset : Nat}
    (h : id ∉ entries.map ExtensionInfo.id) : (findOrCreateExtensionInfo entries id).map
        (fun entry => if entry.id = id then ⟨id, length, offset⟩ else entry) =
      entries ++ [⟨id, length, offset⟩] := by
  have hother : ∀ entry ∈ entries, entry.id ≠ id :=
    fun entry hentry hid => h (List.mem_map.mpr ⟨entry, hentry, hid⟩)
  have hany : ¬ entries.any (·.id = id) = true := by simpa using hother
  have hsame : entries.map (fun entry => if entry.id = id then ⟨id, length, offset⟩ else entry) =
      entries :=
    (map_congr_left fun entry hentry => if_neg (hother entry hentry)).trans (map_id' entries)
  rw [findOrCreateExtensionInfo, if_neg hany, map_append, hsame, map_singleton, if_pos rfl]

section Loop

variable {buffer : List UInt8} {two : Bool} {offset capacity size k rounds : Nat}

theorem parseExtensions_zeros {oneByte : Bool} (entries : List ExtensionInfo)
    (hbuffer : Holds buffer (offset + size) (List.replicate k 0)) (hcapacity : size + k = capacity)
    (hrounds : k ≤ rounds) :
    (parseExtensions buffer oneByte offset capacity rounds size entries).2 = entries := by
  induction rounds generalizing k size with
  | zero => rfl
  | succ rounds ih =>
    rw [parseExtensions]
    by_cases hmore : size + (if oneByte then 1 else 2) < capacity
    · obtain ⟨k, rfl⟩ : ∃ j, k = j + 1 := Nat.exists_eq_succ_of_ne_zero (by
        rintro rfl
        omega)
      obtain ⟨hzero, hrest⟩ := (holds_append (a := [0])).mp hbuffer
      have hbyte : buffer.getD (offset + size) 0 = 0 := hzero.getD zero_lt_one
      rw [if_pos hmore, if_pos hbyte]
      exact ih hrest (by omega) (by omega)
    · rw [if_neg hmore]

def Extension.Fits (e : Extension) (two : Bool) : Prop :=
  (1 ≤ e.id ∧ 1 ≤ e.data.length ∧ e.data.length ≤ 255) ∧ (two = false → ¬ e.NeedsTwoBytes)

theorem parseExtensions_step (rounds : Nat) (hbuffer : Holds buffer (offset + size) (e.bytes two))
    (he : e.Fits two) (hcapacity : size + (e.bytes two).length ≤ capacity)
    (hnew : e.id ∉ entries.map ExtensionInfo.id)
    (hoffset : offset + size + (e.bytes two).length < 2 ^ 16) :
    parseExtensions buffer (!two) offset capacity (rounds + 1) size entries =
      parseExtensions buffer (!two) offset capacity rounds (size + (e.bytes two).length)
        (entries ++ [⟨e.id, e.data.length, offset + size + extensionHeaderSize two⟩]) := by
  obtain ⟨⟨hid, hpos, hle⟩, hone⟩ := he
  have hne : e.id ≠ 0 := fun h => absurd hid (h ▸ by decide)
  replace hbuffer := (holds_append.mp hbuffer).1
  rw [Extension.length_bytes] at hcapacity hoffset ⊢
  rw [parseExtensions]
  cases two
  · obtain ⟨hid14, hlength⟩ := not_or.mp (hone rfl)
    obtain ⟨hbyte, hshift, hand⟩ :=
      oneByteHeader_bits hid (UInt8.not_lt.mp hid14) hpos (not_lt.mp hlength)
    have h15 : e.id ≠ 15 := fun h => hid14 (h ▸ by decide)
    simp only [extensionHeaderSize, Bool.false_eq_true, if_false] at hcapacity hoffset ⊢
    rw [show buffer.getD (offset + size) 0 = e.id <<< 4 ||| UInt8.ofNat (e.data.length - 1) from
      hbuffer.getD (show 0 < 1 by decide)]
    simp only [Bool.not_false, if_true, hbyte, if_false, hshift, hand, h15, hne, false_and, or_self,
      and_false, show size + 1 < capacity by omega,
      show ¬ size + 1 + e.data.length > capacity by omega,
      show offset + size + 1 < 2 ^ 16 by omega, findOrCreate_map hnew]
    rw [Nat.add_assoc size]
  · have hnat : (UInt8.ofNat e.data.length).toNat = e.data.length :=
      UInt8.toNat_ofNat_of_lt (Nat.lt_succ_of_le hle)
    simp only [extensionHeaderSize, if_true] at hcapacity hoffset ⊢
    rw [show buffer.getD (offset + size) 0 = e.id from hbuffer.getD (show 0 < 2 by decide),
      show buffer.getD (offset + size + 1) 0 = UInt8.ofNat e.data.length from
        hbuffer.getD (show 1 < 2 by decide)]
    simp only [Bool.not_true, Bool.false_eq_true, if_false, hne, hnat, false_and,
      show size + 2 < capacity by omega, show ¬ size + 2 + e.data.length > capacity by omega,
      show offset + size + 2 < 2 ^ 16 by omega, findOrCreate_map hnew, if_true]
    rw [Nat.add_assoc size]

theorem parseExtensions_exts {exts : List Extension}
    (hbuffer : Holds buffer (offset + size) (exts.flatMap (Extension.bytes two)))
    (hzeros : Holds buffer (offset + size + (exts.flatMap (Extension.bytes two)).length)
      (List.replicate k 0))
    (hcapacity : size + (exts.flatMap (Extension.bytes two)).length + k = capacity)
    (hrounds : exts.length + k ≤ rounds) (hfits : ∀ e ∈ exts, e.Fits two)
    (hids : (entries.map ExtensionInfo.id ++ exts.map Extension.id).Nodup)
    (hsmall : offset + size + (exts.flatMap (Extension.bytes two)).length < 2 ^ 16) :
    (parseExtensions buffer (!two) offset capacity rounds size entries).2 =
      entries ++ entriesFrom two (offset + size) exts := by
  induction exts generalizing size rounds entries with
  | nil =>
    rw [entriesFrom, append_nil]
    exact parseExtensions_zeros entries hzeros hcapacity (by simpa using hrounds)
  | cons e exts ih =>
    rw [length_cons] at hrounds
    obtain ⟨rounds, rfl⟩ : ∃ r, rounds = r + 1 := Nat.exists_eq_succ_of_ne_zero (by omega)
    rw [flatMap_cons, holds_append] at hbuffer
    rw [flatMap_cons, length_append] at hcapacity hsmall hzeros
    have hnew : e.id ∉ entries.map ExtensionInfo.id :=
      fun hmem => (List.nodup_append.mp hids).2.2 _ hmem _ mem_cons_self rfl
    obtain ⟨he, hexts⟩ := forall_mem_cons.mp hfits
    rw [parseExtensions_step rounds hbuffer.1 he (by omega) hnew (by omega),
      ih (by rw [← Nat.add_assoc]; exact hbuffer.2)
        (by rw [← Nat.add_assoc, Nat.add_assoc _ (e.bytes two).length]; exact hzeros) (by omega)
        (by omega) hexts (by rwa [map_append, append_assoc]) (by omega),
      entriesFrom, append_assoc, ← Nat.add_assoc]
    rfl

end Loop

/-! The whole packet. -/

section Packet

variable {c : Content} {two : Bool}

theorem Content.length_exts_le (c : Content) (two : Bool) :
    c.exts.length ≤ (c.extBytes two).length := by
  unfold extBytes
  induction c.exts with
  | nil => exact le_rfl
  | cons e rest ih =>
    have hpos : 1 ≤ extensionHeaderSize two := by cases two <;> decide
    rw [flatMap_cons, length_append, Extension.length_bytes, length_cons]
    omega

theorem parseExtensionBlock_bytes (h : c.WellFormed) (hsmall : c.Small)
    (hm : Holds (c.bytes c.twoByte) 0 (c.bytes c.twoByte)) (hexts : c.exts ≠ []) :
    ∃ size, parseExtensionBlock (c.bytes c.twoByte) c.csrcsEnd =
      some (c.headersSize c.twoByte, size, entriesFrom c.twoByte c.extensionsOffset c.exts) := by
  have hfits : ∀ e ∈ c.exts, e.Fits c.twoByte := by
    refine fun e he => ⟨h.exts e he, fun htwo => ?_⟩
    simpa using any_eq_false.mp htwo e he
  unfold Content.Small at hsmall
  generalize c.twoByte = two at *
  have hsize : c.headersSize two = c.csrcsEnd + 4 + 4 * c.words two := if_neg (by simp [hexts])
  have hle := c.length_extBytes_le_words two
  have hwords : c.words two < 2 ^ 16 := by
    unfold words
    omega
  obtain ⟨hprofile, hlength, hext, hzeros⟩ :=
    (holds_block hexts).mp (holds_headers.mp (holds_bytes.mp hm).1).2.2
  have htotal := c.length_bytes two
  rw [parseExtensionBlock, hprofile.load16, hlength.load16, BitVec.toNat_ofNat,
    Nat.mod_eq_of_lt hwords, if_neg (by omega), if_neg (by omega),
    if_neg (by cases two <;> decide), profileId_eq_one, Nat.mul_comm, ← hsize]
  have hrounds := c.length_exts_le two
  exact ⟨_, congrArg some (Prod.ext rfl (Prod.ext rfl (parseExtensions_exts hext hzeros
    (by rw [Nat.zero_add]; exact Nat.add_sub_cancel' hle) (by omega) hfits h.ids_nodup hsmall)))⟩

theorem Content.getD_last (c : Content) (two : Bool) (hpadding : c.padding ≠ 0) :
    (c.bytes two).getD ((c.bytes two).length - 1) 0 = UInt8.ofNat c.padding := by
  have hbytes : c.bytes two = (c.headers two ++ (c.payload ++
      List.replicate (c.padding - 1) 0)) ++ [UInt8.ofNat c.padding] := by
    simp only [bytes, paddingBytes, if_neg hpadding, append_assoc]
  rw [hbytes, length_append, length_singleton, Nat.add_sub_cancel,
    getD_append_right _ _ _ _ le_rfl, Nat.sub_self]
  rfl

theorem parseBuffer_bytes (h : c.WellFormed) (hsmall : c.Small) (p : RtpPacket) :
    ∃ size, p.parseBuffer (c.bytes c.twoByte) = some
      { c.packet c.twoByte p.extensions [] with extensionsSize := size, buffer := p.buffer } := by
  have hm : Holds (c.bytes c.twoByte) 0 (c.bytes c.twoByte) := take_length
  have hblock := parseExtensionBlock_bytes h hsmall hm
  generalize c.twoByte = two at *
  have hlength := c.length_bytes two
  have hcsrcs : c.csrcsEnd ≤ c.headersSize two := by
    unfold headersSize extensionsOffset
    split <;> omega
  replace hblock : ∃ size, (if (!c.exts.isEmpty) = true then
      parseExtensionBlock (c.bytes two) c.csrcsEnd else some (c.csrcsEnd, 0, [])) =
        some (c.headersSize two, size, entriesFrom two c.extensionsOffset c.exts) := by
    by_cases hexts : c.exts = []
    · rw [headersSize, hexts]
      exact ⟨0, rfl⟩
    · rw [if_pos (by simp [hexts])]
      exact hblock hexts
  obtain ⟨size, hblock⟩ := hblock
  obtain ⟨hcount, hversion, hpadBit, hextBit⟩ :=
    firstByte_bits (c.padding ≠ 0) (!c.exts.isEmpty) c.csrcs.length h.csrcs_le
  obtain ⟨hmarker, htype, -⟩ := secondByte_bits c.marker h.payloadType_le
  have hfixed := fixedHeader_of_bytes hm
  have hzero : (c.bytes two).getD 0 0 = _ := byteAt_zero (b := ⟨_, 0⟩) hfixed
  have hone : (c.bytes two).getD 1 0 = _ := byteAt_one (b := ⟨_, 0⟩) hfixed
  have hlast : (if c.padding ≠ 0 ∧ c.headersSize two < (c.bytes two).length then
      ((c.bytes two).getD ((c.bytes two).length - 1) 0).toNat else 0) = c.padding := by
    by_cases hpadding : c.padding = 0
    · rw [if_neg (fun h => h.1 hpadding), hpadding]
    · rw [if_pos ⟨hpadding, by omega⟩, c.getD_last two hpadding]
      exact UInt8.toNat_ofNat_of_lt h.padding_lt
  simp only [fixedHeader, holds_append] at hfixed
  obtain ⟨⟨⟨-, hsequence⟩, htimestamp⟩, hssrc⟩ := hfixed
  have hloads : load16 (c.bytes two) 2 = c.sequenceNumber ∧ load32 (c.bytes two) 4 = c.timestamp ∧
      load32 (c.bytes two) 8 = c.ssrc := ⟨hsequence.load16, htimestamp.load32, hssrc.load32⟩
  have hsize : kFixedHeaderSize + c.csrcs.length * 4 = c.csrcsEnd := rfl
  have hpayload : (c.bytes two).length - c.headersSize two - c.padding = c.payload.length := by
    omega
  have hpadded : ¬ (c.padding ≠ 0 ∧ c.headersSize two < (c.bytes two).length ∧ c.padding = 0) :=
    fun hpad => hpad.1 hpad.2.2
  refine ⟨size, ?_⟩
  have hlong : ¬ (c.bytes two).length < kFixedHeaderSize := by omega
  rw [parseBuffer, if_neg hlong, hzero]
  simp only [hversion, hcount, hpadBit, hextBit, hsize, hblock, hlast, decide_eq_true_eq, hone,
    hmarker, htype, hloads, hpayload, if_neg hpadded]
  rw [if_neg (by simp), if_neg (by omega), if_neg (by omega)]
  rfl

theorem map_load32 {buffer : List UInt8} {offset : Nat} {csrcs : List (BitVec 32)}
    (h : Holds buffer offset (csrcs.flatMap bigEndian32)) :
    (List.range csrcs.length).map (fun i => load32 buffer (offset + i * 4)) = csrcs := by
  induction csrcs generalizing offset with
  | nil => rfl
  | cons v csrcs ih =>
    obtain ⟨hhead, htail⟩ := holds_append.mp h
    rw [length_cons, range_succ_eq_map, map_cons, map_map, Nat.zero_mul, Nat.add_zero, hhead.load32]
    refine congrArg _ (Eq.trans (map_congr_left fun i _ => ?_) (ih htail))
    rw [Function.comp_apply, Nat.succ_mul, Nat.add_comm (i * 4), ← Nat.add_assoc]
    rfl

variable {p : RtpPacket}

theorem RtpPacket.Carries.extension (h : p.Carries c two) (id : UInt8) :
    p.extension id = (c.exts.find? (·.id = id)).map Extension.data := by
  obtain ⟨_, extensions, hm⟩ := h
  rw [RtpPacket.extension, RtpPacket.findExtensionInfo]
  cases hfind : (entriesFrom two c.extensionsOffset c.exts).find? (·.id = id) with
  | none =>
    have hnone : c.exts.find? (·.id = id) = none := by
      simpa [List.find?_eq_none] using find?_entriesFrom_eq_none.mp hfind
    rw [hnone]
    exact congrArg _ hfind
  | some entry =>
    obtain ⟨xs, e, ys, hexts, hxs, rfl, rfl⟩ := find?_entriesFrom hfind
    have hsome : c.exts.find? (·.id = e.id) = some e := by
      have hnone : xs.find? (·.id = e.id) = none := by simpa [List.find?_eq_none] using hxs
      rw [hexts, List.find?_append, hnone, Option.none_or, List.find?_cons_of_pos (by simp)]
    have hne : c.exts ≠ [] := hexts ▸ append_ne_nil_of_right_ne_nil _ (cons_ne_nil _ _)
    have hext := ((holds_block hne).mp (holds_headers.mp (holds_bytes.mp hm).1).2.2).2.2.1
    rw [extBytes, hexts, flatMap_append, flatMap_cons, holds_append, holds_append,
      Extension.bytes, holds_append, length_extensionHeader] at hext
    rw [hsome]
    exact (congrArg _ hfind).trans (congrArg some hext.2.1.2)

theorem RtpPacket.Carries.shows (h : p.Carries c two) (hc : c.csrcs.length ≤ 15) : p.Shows c := by
  have hextension := h.extension
  obtain @⟨_, _, extensions, memory, hm⟩ := h
  obtain ⟨hheaders, hpayload, -⟩ := holds_bytes.mp hm
  obtain ⟨hfixed, hcsrcs, -⟩ := holds_headers.mp hheaders
  refine ⟨rfl, rfl, rfl, rfl, rfl, ?_, hextension, hpayload, rfl⟩
  rw [RtpPacket.csrcs, numCsrc_eq hfixed hc]
  exact map_load32 hcsrcs

theorem RtpPacket.Carries.data (h : p.Carries c two) : p.data = c.bytes two := by
  obtain @⟨_, _, extensions, memory, hm⟩ := h
  have hsize : (c.packet two extensions memory).size = (c.bytes two).length :=
    (c.length_bytes two).symm
  rw [RtpPacket.data, hsize]
  exact hm

theorem parse_bytes (h : c.WellFormed) (hsmall : c.Small) (p : RtpPacket) (slack : List UInt8) :
    ∃ q, p.parse (c.bytes c.twoByte) slack = some (true, q) ∧ q.Shows c := by
  obtain ⟨size, hparse⟩ := parseBuffer_bytes h hsmall p
  have hshows := (RtpPacket.Carries.packet c.twoByte p.extensions
    (holds_zero_iff.mpr (prefix_append (c.bytes c.twoByte) slack))).shows h.csrcs_le
  rw [parse, hparse]
  exact ⟨_, rfl, rfl, rfl, rfl, rfl, rfl, hshows.csrcs, hshows.extension, hshows.payload, rfl⟩

end Packet

/-! What the parser accepts, whatever the bytes are. -/

section Accepted

variable {entries : List ExtensionInfo} {bytes : List UInt8}

theorem mem_findOrCreate {id : UInt8} {entry : ExtensionInfo}
    (h : entry ∈ findOrCreateExtensionInfo entries id) : entry ∈ entries ∨ entry = ⟨id, 0, 0⟩ := by
  unfold findOrCreateExtensionInfo at h
  split at h
  · exact .inl h
  · exact (mem_append.mp h).imp_right mem_singleton.mp

/-- The extension lies in the block. One that was refused for its offset is left empty. -/
def ExtensionInfo.Within (entry : ExtensionInfo) (low high : Nat) : Prop :=
  (entry.length ≠ 0 → low < entry.offset) ∧ entry.offset + entry.length ≤ high

theorem parseExtensions_within {oneByte : Bool} {offset capacity rounds size : Nat}
    (h : ∀ entry ∈ entries, entry.Within offset (offset + capacity)) :
    ∀ entry ∈ (parseExtensions bytes oneByte offset capacity rounds size entries).2,
      entry.Within offset (offset + capacity) := by
  induction rounds generalizing size entries with
  | zero => exact h
  | succ rounds ih =>
    have hpos : 0 < if oneByte then 1 else 2 := by split <;> decide
    simp only [parseExtensions]
    generalize (if oneByte then 1 else 2) = headerLength at hpos ⊢
    generalize (if oneByte then _ else _ : UInt8) = id
    generalize (if oneByte then _ else _ : Nat) = length
    split_ifs with _ _ _ hfull
    all_goals try exact h
    · exact ih h
    · refine ih fun entry hentry => ?_
      obtain ⟨e, he, rfl⟩ := List.mem_map.mp hentry
      split
      · exact ⟨fun _ => by simp only; omega, by simp only; omega⟩
      · next hid => exact h e ((mem_findOrCreate he).resolve_right fun he => hid (he ▸ rfl))
    · intro entry hentry
      rcases mem_findOrCreate hentry with hentry | rfl
      · exact h entry hentry
      · exact ⟨fun hne => absurd rfl hne, Nat.zero_le _⟩

theorem parseExtensionBlock_within {offset payloadOffset size : Nat}
    (h : parseExtensionBlock bytes offset = some (payloadOffset, size, entries)) :
    offset ≤ payloadOffset ∧ payloadOffset ≤ bytes.length ∧
      ∀ entry ∈ entries, entry.Within (offset + 4) payloadOffset := by
  simp only [parseExtensionBlock, Option.ite_none_left_eq_some] at h
  obtain ⟨-, hfits, h⟩ := h
  obtain ⟨rfl, hparsed⟩ := Prod.mk.inj (Option.some.inj h)
  obtain rfl := (congrArg Prod.snd hparsed : _ = entries)
  refine ⟨by omega, by omega, ?_⟩
  split_ifs
  · exact fun _ he => nomatch he
  · exact parseExtensions_within fun _ he => nomatch he

/-- The parts of the packet add up to the bytes, so that no accessor reads outside of them. -/
def RtpPacket.Divides (q : RtpPacket) (bytes : List UInt8) : Prop :=
  q.payloadOffset + q.payloadSize + q.paddingSize = bytes.length ∧
    kFixedHeaderSize + (bytes.getD 0 0 &&& 0x0f).toNat * 4 ≤ q.payloadOffset ∧
    ∀ entry ∈ q.extensionEntries, entry.Within
      (kFixedHeaderSize + (bytes.getD 0 0 &&& 0x0f).toNat * 4 + 4) q.payloadOffset

theorem parseBuffer_divides {p q : RtpPacket} (h : p.parseBuffer bytes = some q) :
    q.Divides bytes := by
  simp only [parseBuffer, Option.ite_none_left_eq_some] at h
  obtain ⟨-, -, hcsrcs, h⟩ := h
  split at h
  · cases h
  next hblock =>
  simp only [Option.ite_none_left_eq_some] at h
  obtain ⟨-, hfits, ⟨⟩⟩ := h
  split at hblock
  · obtain ⟨hle, -, hwithin⟩ := parseExtensionBlock_within hblock
    exact ⟨by simp only; omega, hle, hwithin⟩
  · cases hblock
    exact ⟨by simp only; omega, le_rfl, fun _ he => nomatch he⟩

theorem parseBuffer_divides_extension : ∃ bytes q,
    (Content.empty.packet false ⟨fun _ => 0, true⟩ []).parseBuffer bytes = some q ∧
      q.extensionEntries ≠ [] ∧ q.Divides bytes :=
  ⟨[0x90, 0, 0, 0, 0, 0, 0, 0, 0, 0, 0, 0, 0xBE, 0xDE, 0, 1, 0x10, 7, 0, 0, 8], _, rfl,
    cons_ne_nil _ _, parseBuffer_divides rfl⟩

end Accepted

end WebRtc.Rtp
