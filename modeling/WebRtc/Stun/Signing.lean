import WebRtc.Stun.RoundTrip

/-! The integrity attribute and the fingerprint that are added to a message are accepted when the
message is read. -/

namespace WebRtc.Stun

open StunAttr Option

open ByteBuffer

namespace StunMessage

variable {c : MessageClass} {m m₁ m₂ : StunMessage} {transactionId : List UInt8}
variable {hmac : List UInt8 → List UInt8 → Vector UInt8 20} {crc32 : List UInt8 → BitVec 32}
variable {miType : BitVec 16} {miSize : Nat} {key : List UInt8}

theorem writeAttributes_append (l r : List StunAttribute) :
    writeAttributes transactionId (l ++ r) = (writeAttributes transactionId l).bind fun a =>
      (writeAttributes transactionId r).map fun b => a ++ b := by
  induction l with
  | nil =>
    rw [List.nil_append, writeAttributes, bind_some]
    simp
  | cons x l ih =>
    simp only [List.cons_append, writeAttributes, ih]
    cases writeAttribute transactionId x with
    | none => rfl
    | some bytes =>
      cases writeAttributes transactionId l with
      | none => rfl
      | some body => cases writeAttributes transactionId r <;> simp

theorem writeAttributes_concat {l : List StunAttribute} {a : StunAttribute} {bytes : List UInt8} :
    writeAttributes transactionId (l ++ [a]) = some bytes ↔
      ∃ body value, writeAttributes transactionId l = some body ∧
        writeAttribute transactionId a = some value ∧ body ++ value = bytes := by
  rw [writeAttributes_append]
  cases writeAttributes transactionId l with
  | none => simp
  | some body => cases hvalue : writeAttribute transactionId a <;> simp [writeAttributes, hvalue]

theorem findIntegrity_skip (hid : transactionId.length = 12) {attrs : List StunAttribute}
    (h : ∀ a ∈ attrs, a.Proper c) (hother : ∀ a ∈ attrs, a.type ≠ miType) {body : List UInt8}
    (hw : writeAttributes transactionId attrs = some body) (before after : List UInt8) (n : Nat) :
    findIntegrity miType miSize (before ++ (body ++ after)) (attrs.length + n) before.length =
      findIntegrity miType miSize (before ++ (body ++ after)) n (before.length + body.length) := by
  induction attrs generalizing before body with
  | nil =>
    cases hw
    simp
  | cons a attrs ih =>
    obtain ⟨x, hx, hw⟩ := bind_eq_some_iff.mp hw
    obtain ⟨y, hy, hw⟩ := bind_eq_some_iff.mp hw
    cases hw
    have hlen := length_writeAttribute hid (h a List.mem_cons_self) hx
    have hrest := ih (fun b hb => h b (List.mem_cons_of_mem a hb))
      (fun b hb => hother b (List.mem_cons_of_mem a hb)) hy (before ++ x)
    rw [List.length_append, hlen, List.append_assoc] at hrest
    obtain ⟨value, -, rfl⟩ := map_eq_some_iff.mp hx
    generalize hdata : before ++ (bigEndian16 a.type ++ bigEndian16 a.length ++ value ++ y ++ after) =
      data at hrest ⊢
    have htype : load16 data before.length = a.type := by
      rw [← hdata, ← Nat.add_zero before.length, load16_append_right]
      simp only [List.append_assoc]
      exact load16_bigEndian16_append _ _
    have hlength : load16 data (before.length + 2) = a.length := by
      rw [← hdata, load16_append_right]
      simp only [List.append_assoc]
      exact (load16_append_right (bigEndian16 a.type) _ 0).trans (load16_bigEndian16_append _ _)
    have hfits : before.length + 4 ≤ data.length := by
      rw [← hdata]
      simp only [List.length_append, length_bigEndian16]
      omega
    have hdata' : before ++ (bigEndian16 a.type ++ bigEndian16 a.length ++ value ++ (y ++ after)) =
        data := by
      rw [← hdata, List.append_assoc _ y]
    rw [hdata'] at hrest
    rw [List.length_cons, Nat.add_right_comm, findIntegrity, if_pos hfits, htype, hlength]
    dsimp only
    rw [if_neg (hother a List.mem_cons_self), List.length_append, hlen, ← Nat.add_assoc, ← hrest]
    congr 1
    rw [attributeSize]
    omega

theorem findIntegrity_found (hsize : miSize < 2 ^ 16) {mac : List UInt8} (hmaclen : mac.length = miSize)
    (before after : List UInt8) (n : Nat) : findIntegrity miType miSize
      (before ++ (bigEndian16 miType ++ bigEndian16 (BitVec.ofNat 16 miSize) ++ mac ++ after)) (n + 1)
      before.length = some before.length := by
  generalize hdata :
    before ++ (bigEndian16 miType ++ bigEndian16 (BitVec.ofNat 16 miSize) ++ mac ++ after) = data
  have htype : load16 data before.length = miType := by
    rw [← hdata, ← Nat.add_zero before.length, load16_append_right]
    simp only [List.append_assoc]
    exact load16_bigEndian16_append _ _
  have hlength : (load16 data (before.length + 2)).toNat = miSize := by
    have hload : load16 data (before.length + 2) = BitVec.ofNat 16 miSize := by
      rw [← hdata, load16_append_right]
      simp only [List.append_assoc]
      exact (load16_append_right (bigEndian16 miType) _ 0).trans (load16_bigEndian16_append _ _)
    rw [hload, BitVec.toNat_ofNat, Nat.mod_eq_of_lt hsize]
  have hfits : before.length + 4 + miSize ≤ data.length := by
    rw [← hdata]
    simp only [List.length_append, length_bigEndian16]
    omega
  have hok : ¬(miSize ≠ miSize ∨ before.length + 4 + miSize > data.length) := by
    rintro (hne | hgt)
    · exact hne rfl
    · omega
  rw [findIntegrity, if_pos (by omega), htype, hlength]
  dsimp only
  rw [if_pos rfl, if_neg hok]

theorem sum_attributeSize_mod (attrs : List StunAttribute) :
    (attrs.map attributeSize).sum % 4 = 0 := by
  induction attrs with
  | nil => rfl
  | cons a attrs ih =>
    rw [List.map_cons, List.sum_cons, attributeSize, padding]
    split_ifs <;> omega

def headerWith (m : StunMessage) (length : BitVec 16) : List UInt8 :=
  ({ m with length := length } : StunMessage).header

theorem headerWith_eq (length : BitVec 16) (hid : m.transactionId.length = 12) :
    m.headerWith length = bigEndian16 m.type ++ (bigEndian16 length ++
      (bigEndian32 stunMagicCookie ++ m.transactionId)) := by
  have hlegacy : m.transactionId.length ≠ 16 := by omega
  rw [headerWith, header, if_neg hlegacy, List.append_assoc, List.append_assoc]

theorem length_headerWith (length : BitVec 16) (hid : m.transactionId.length = 12) :
    (m.headerWith length).length = 20 := by
  rw [headerWith_eq length hid]
  simp only [List.length_append, length_bigEndian16, length_bigEndian32, hid]

theorem validate_signed (hid : m.transactionId.length = 12) (h : ∀ a ∈ m.attrs, a.Proper c)
    (hother : ∀ a ∈ m.attrs, a.type ≠ miType) (hsize : miSize ≤ 20) (haligned : miSize % 4 = 0)
    {body after : List UInt8} (hbody : writeAttributes m.transactionId m.attrs = some body)
    (hafter : after.length % 4 = 0) {length : BitVec 16}
    (hlength : length.toNat = body.length + (4 + miSize) + after.length) {mac : List UInt8}
    (hmacs : mac = (hmac key (m.headerWith (BitVec.ofNat 16 (body.length + (4 + miSize))) ++
      body)).toList.take miSize) :
    validateMessageIntegrityOfType hmac miType miSize (m.headerWith length ++ (body ++
      (bigEndian16 miType ++ bigEndian16 (BitVec.ofNat 16 miSize) ++ mac ++ after))) key = true := by
  have hmaclen : mac.length = miSize := by
    rw [hmacs, List.length_take, Vector.length_toList]
    omega
  have hheader := length_headerWith length hid
  have hbodylen : body.length % 4 = 0 := by
    rw [length_writeAttributes hid h hbody]
    exact sum_attributeSize_mod m.attrs
  generalize hdata : m.headerWith length ++ (body ++
    (bigEndian16 miType ++ bigEndian16 (BitVec.ofNat 16 miSize) ++ mac ++ after)) = data
  have hdatalen : data.length = 20 + body.length + (4 + miSize) + after.length := by
    rw [← hdata]
    simp only [List.length_append, length_bigEndian16, hheader, hmaclen]
    omega
  have hload : load16 data 2 = length := by
    rw [← hdata, headerWith_eq length hid]
    simp only [List.append_assoc]
    exact (load16_append_right (bigEndian16 m.type) _ 0).trans (load16_bigEndian16_append _ _)
  have hfound : integrityPosition miType miSize data = some (20 + body.length) := by
    obtain ⟨n, hn⟩ : ∃ n, data.length = m.attrs.length + (n + 1) := by
      have hle : m.attrs.length ≤ (m.attrs.map attributeSize).sum := by
        rw [← List.length_map (f := attributeSize)]
        apply List.length_le_sum_of_one_le
        intro i hi
        obtain ⟨a, -, rfl⟩ := List.mem_map.mp hi
        rw [attributeSize]
        omega
      rw [← length_writeAttributes hid h hbody] at hle
      exact ⟨data.length - m.attrs.length - 1, by omega⟩
    rw [integrityPosition, if_neg (by omega), hload, if_neg (by omega), hn, ← hheader]
    rw [← hdata, findIntegrity_skip hid h hother hbody, ← List.append_assoc, ← List.length_append]
    exact findIntegrity_found (by omega) hmaclen _ _ _
  have htake : data.take (20 + body.length) = m.headerWith length ++ body := by
    rw [← hdata, ← List.append_assoc]
    exact List.take_left' (by rw [List.length_append, hheader])
  have hcovered : coveredBytes miSize data (20 + body.length) =
      m.headerWith (BitVec.ofNat 16 (body.length + (4 + miSize))) ++ body := by
    unfold coveredBytes
    have hnew : 20 + body.length + 4 + miSize - 20 = body.length + (4 + miSize) := by omega
    split_ifs with hmore
    · rw [htake, hnew, headerWith_eq _ hid, headerWith_eq _ hid]
      simp only [List.append_assoc]
      exact store_middle rfl
    · have hlast : length = BitVec.ofNat 16 (body.length + (4 + miSize)) := by
        apply BitVec.eq_of_toNat_eq
        rw [BitVec.toNat_ofNat, Nat.mod_eq_of_lt (by omega)]
        omega
      rw [htake, hlast]
  have hvalue : (data.drop (20 + body.length + 4)).take miSize = mac := by
    have hsplit : data = (m.headerWith length ++ body ++ (bigEndian16 miType ++
        bigEndian16 (BitVec.ofNat 16 miSize))) ++ (mac ++ after) := by
      rw [← hdata]
      simp only [List.append_assoc]
    rw [hsplit, List.drop_left' (by
      simp only [List.length_append, length_bigEndian16, hheader]), List.take_left' hmaclen]
  rw [validateMessageIntegrityOfType, hfound]
  dsimp only
  rw [hcovered, hvalue, ← hmacs, decide_eq_true rfl]

def integrityAttribute (miType : BitVec 16) (miSize : Nat) (mac : List UInt8) : StunAttribute :=
  ⟨miType, BitVec.ofNat 16 miSize, .byteString mac⟩

structure IntegrityType (miType : BitVec 16) (miSize : Nat) : Prop where
  size : miSize ≤ 20
  aligned : miSize % 4 = 0
  valid : lengthValid miType miSize = true
  typed : ∀ c, createAttribute c miType = some .byteString

theorem integrityType : IntegrityType messageIntegrity 20 :=
  ⟨le_rfl, rfl, by decide, fun c => by cases c <;> decide⟩

theorem integrityType32 : IntegrityType googMessageIntegrity32 4 :=
  ⟨by decide, rfl, by decide, fun c => by cases c <;> decide⟩

namespace IntegrityType

variable {mac : List UInt8}

section

variable (ht : IntegrityType miType miSize)
include ht

theorem toNat_ofNat : (BitVec.ofNat 16 miSize).toNat = miSize := by
  have hle := ht.size
  rw [BitVec.toNat_ofNat, Nat.mod_eq_of_lt (by omega)]

theorem padding_eq : padding miSize = 0 := by
  rw [padding, ht.aligned, if_neg (lt_irrefl 0)]

theorem attributeSize_eq : attributeSize (integrityAttribute miType miSize mac) = 4 + miSize := by
  rw [attributeSize, integrityAttribute, ht.toNat_ofNat, ht.padding_eq]
  omega

theorem proper (hmac : mac.length = miSize) : (integrityAttribute miType miSize mac).Proper c :=
  ⟨ht.toNat_ofNat.trans hmac.symm, ht.typed c, trivial⟩

theorem writeAttribute_eq (hmac : mac.length = miSize) :
    writeAttribute transactionId (integrityAttribute miType miSize mac) =
      some (bigEndian16 miType ++ bigEndian16 (BitVec.ofNat 16 miSize) ++ mac) := by
  have hvalue : writeValue transactionId (integrityAttribute miType miSize mac) = some mac := by
    unfold writeValue integrityAttribute
    dsimp only
    rw [ht.toNat_ofNat, if_pos ht.valid, writePadding, ht.padding_eq, ← hmac, List.take_length]
    simp
  rw [writeAttribute, hvalue]
  rfl

end

end IntegrityType

theorem write_eq_some {bytes : List UInt8} : m.write = some bytes ↔
      ∃ body, writeAttributes m.transactionId m.attrs = some body ∧ m.header ++ body = bytes :=
  map_eq_some_iff

theorem signed_eq (ht : IntegrityType miType miSize) {ok : Bool}
    (h : m.addMessageIntegrityOfType c hmac miType miSize key = some (ok, m₁)) {bytes : List UInt8}
    (hw : writeAttributes m.transactionId m₁.attrs = some bytes) :
    ∃ body mac, writeAttributes m.transactionId m.attrs = some body ∧
      mac = (hmac key (m.headerWith (m.length + BitVec.ofNat 16 (4 + miSize)) ++
        body)).toList.take miSize ∧
      m₁ = { m with
        length := m.length + BitVec.ofNat 16 (4 + miSize)
        attrs := m.attrs ++ [integrityAttribute miType miSize mac]
        integrity := .integrityOk } := by
  obtain ⟨m', hadd, h⟩ := bind_eq_some_iff.mp h
  change m.addAttribute c (integrityAttribute miType miSize (List.replicate miSize 0x30)) = some m'
    at hadd
  obtain rfl := addAttribute_eq_some hadd
  rw [ht.attributeSize_eq] at h
  -- The attribute with its dummy value can be written wherever the others can.
  have hwrite : ∀ body, writeAttributes m.transactionId m.attrs = some body →
      ({ m with
        length := m.length + BitVec.ofNat 16 (4 + miSize)
        attrs := m.attrs ++ [integrityAttribute miType miSize (List.replicate miSize 0x30)] } :
          StunMessage).write = some (m.headerWith (m.length + BitVec.ofNat 16 (4 + miSize)) ++
        (body ++ (bigEndian16 miType ++ bigEndian16 (BitVec.ofNat 16 miSize) ++
          List.replicate miSize 0x30))) := by
    intro body hbody
    refine write_eq_some.mpr ⟨_, writeAttributes_concat.mpr ⟨body, _, hbody, ?_, rfl⟩, rfl⟩
    exact ht.writeAttribute_eq List.length_replicate
  obtain ⟨a, ha⟩ : ∃ a, m₁.attrs = m.attrs ++ [a] := by
    split at h
    · cases h
      exact ⟨_, rfl⟩
    · cases h
      exact ⟨_, rfl⟩
  rw [ha] at hw
  obtain ⟨body, -, hbody, -⟩ := writeAttributes_concat.mp hw
  rw [hwrite body hbody] at h
  cases h
  refine ⟨body, _, hbody, rfl, ?_⟩
  congr 6
  rw [← List.append_assoc, List.take_left']
  simp only [List.length_append, length_bigEndian16, List.length_replicate]
  omega

def fingerprintAttribute (bits : BitVec 32) : StunAttribute :=
  ⟨StunAttr.fingerprint, 4, .uint32 bits⟩

theorem fingerprint_proper (c : MessageClass) (bits : BitVec 32) :
    (fingerprintAttribute bits).Proper c :=
  ⟨rfl, by cases c <;> rfl, trivial⟩

theorem attributeSize_fingerprint (bits : BitVec 32) :
    attributeSize (fingerprintAttribute bits) = 8 := by
  simp [attributeSize, fingerprintAttribute, padding]

theorem writeAttribute_fingerprint (bits : BitVec 32) :
    writeAttribute transactionId (fingerprintAttribute bits) =
      some (bigEndian16 fingerprint ++ bigEndian16 4 ++ bigEndian32 bits) := rfl

theorem fingerprinted_eq {ok : Bool} (h : m.addFingerprint c crc32 = some (ok, m₁))
    {bytes : List UInt8} (hw : writeAttributes m.transactionId m₁.attrs = some bytes) :
    ∃ body, writeAttributes m.transactionId m.attrs = some body ∧
      m₁ = { m with
        length := m.length + BitVec.ofNat 16 8
        attrs := m.attrs ++ [fingerprintAttribute
          (crc32 (m.headerWith (m.length + BitVec.ofNat 16 8) ++ body) ^^^
            stunFingerprintXorValue)] } := by
  obtain ⟨m', hadd, h⟩ := bind_eq_some_iff.mp h
  change m.addAttribute c (fingerprintAttribute 0) = some m' at hadd
  obtain rfl := addAttribute_eq_some hadd
  have hwrite : ∀ body, writeAttributes m.transactionId m.attrs = some body →
      ({ m with
        length := m.length + BitVec.ofNat 16 (attributeSize (fingerprintAttribute 0))
        attrs := m.attrs ++ [fingerprintAttribute 0] } : StunMessage).write =
        some (m.headerWith (m.length + BitVec.ofNat 16 8) ++ (body ++
          (bigEndian16 fingerprint ++ bigEndian16 4 ++ bigEndian32 0))) := by
    intro body hbody
    exact write_eq_some.mpr ⟨_, writeAttributes_concat.mpr ⟨body, _, hbody, rfl, rfl⟩, rfl⟩
  obtain ⟨a, ha⟩ : ∃ a, m₁.attrs = m.attrs ++ [a] := by
    split at h
    · cases h
      exact ⟨_, rfl⟩
    · cases h
      exact ⟨_, rfl⟩
  rw [ha] at hw
  obtain ⟨body, -, hbody, -⟩ := writeAttributes_concat.mp hw
  rw [hwrite body hbody] at h
  cases h
  refine ⟨body, hbody, ?_⟩
  congr 7
  rw [← List.append_assoc, List.take_left']
  simp only [List.length_append, length_bigEndian16, length_bigEndian32]
  omega

/-- A message that was signed for the type, and then had the attributes `extra` added. -/
structure SignedWith (c : MessageClass) (hmac : List UInt8 → List UInt8 → Vector UInt8 20)
    (miType : BitVec 16) (miSize : Nat) (key : List UInt8) (m m₂ : StunMessage)
    (extra : List StunAttribute) : Prop where
  type : m₂.type = m.type
  transactionId : m₂.transactionId = m.transactionId
  shaped : m₂.Shaped c
  signed : ∃ body mac, writeAttributes m.transactionId m.attrs = some body ∧
    mac = (hmac key (m.headerWith (BitVec.ofNat 16 (body.length + (4 + miSize))) ++
      body)).toList.take miSize ∧
    m₂.attrs = m.attrs ++ [integrityAttribute miType miSize mac] ++ extra

variable {extra : List StunAttribute}

theorem SignedWith.validate (ht : IntegrityType miType miSize)
    (h : SignedWith c hmac miType miSize key m m₂ extra) (hm : m.Shaped c)
    (hid : m.transactionId.length = 12) (hother : ∀ a ∈ m.attrs, a.type ≠ miType)
    (hsize : m₂.size < 2 ^ 16) {bytes : List UInt8} (hw : m₂.write = some bytes) :
    validateMessageIntegrityOfType hmac miType miSize bytes key = true := by
  obtain ⟨body, mac, hbody, hmac, hattrs⟩ := h.signed
  have hmaclen : mac.length = miSize := by
    rw [hmac, List.length_take, Vector.length_toList]
    exact Nat.min_eq_left ht.size
  have hid₂ : m₂.transactionId.length = 12 := by
    rw [h.transactionId]
    exact hid
  obtain ⟨all, hall, rfl⟩ := write_eq_some.mp hw
  have halllen := length_writeAttributes hid₂ h.shaped.proper hall
  obtain ⟨after, hafter, rfl⟩ : ∃ after, writeAttributes m.transactionId extra = some after ∧
      all = body ++ (bigEndian16 miType ++ bigEndian16 (BitVec.ofNat 16 miSize) ++ mac ++ after) := by
    rw [hattrs, h.transactionId, writeAttributes_append, writeAttributes_append, hbody] at hall
    rw [bind_some, writeAttributes, ht.writeAttribute_eq hmaclen] at hall
    cases hextra : writeAttributes m.transactionId extra with
    | none =>
      rw [hextra] at hall
      cases hall
    | some after =>
      rw [hextra] at hall
      cases hall
      exact ⟨after, rfl, by simp [List.append_assoc]⟩
  have hproper : ∀ a ∈ extra, a.Proper c := by
    intro a ha
    apply h.shaped.proper
    rw [hattrs]
    exact List.mem_append_right _ ha
  have hheader : m₂.header = m.headerWith m₂.length := by
    rw [headerWith, header, header, h.type, h.transactionId]
  rw [hheader]
  refine validate_signed hid hm.proper hother ht.size ht.aligned hbody ?_ ?_ hmac
  · rw [length_writeAttributes hid hproper hafter]
    exact sum_attributeSize_mod extra
  · rw [h.shaped.toNat_length hsize, size, ← halllen]
    simp only [List.length_append, length_bigEndian16, hmaclen]
    omega

theorem SignedWith.of_signed (ht : IntegrityType miType miSize) (hm : m.Shaped c)
    (hid : m.transactionId.length = 12) {ok : Bool}
    (h : m.addMessageIntegrityOfType c hmac miType miSize key = some (ok, m₁)) {bytes : List UInt8}
    (hw : writeAttributes m.transactionId m₁.attrs = some bytes) :
    SignedWith c hmac miType miSize key m m₁ [] := by
  obtain ⟨body, mac, hbody, hmac, rfl⟩ := signed_eq ht h hw
  have hlength : m.length + BitVec.ofNat 16 (4 + miSize) =
      BitVec.ofNat 16 (body.length + (4 + miSize)) := by
    rw [hm.length, ← BitVec.ofNat_add, length_writeAttributes hid hm.proper hbody, size]
  have hmaclen : mac.length = miSize := by
    rw [hmac, List.length_take, Vector.length_toList]
    exact Nat.min_eq_left ht.size
  rw [hlength] at hmac
  refine ⟨rfl, rfl, hm.append (ht.proper hmaclen) rfl ?_, body, mac, hbody, hmac, ?_⟩
  · rw [ht.attributeSize_eq]
  · rw [List.append_nil]

theorem SignedWith.addFingerprint (h : SignedWith c hmac miType miSize key m m₁ []) {ok : Bool}
    (hf : m₁.addFingerprint c crc32 = some (ok, m₂)) {bytes : List UInt8}
    (hw : writeAttributes m₁.transactionId m₂.attrs = some bytes) :
    ∃ bits, SignedWith c hmac miType miSize key m m₂ [fingerprintAttribute bits] := by
  obtain ⟨body, hbody, rfl⟩ := fingerprinted_eq hf hw
  obtain ⟨body', mac, hbody', hmac, hattrs⟩ := h.signed
  rw [List.append_nil] at hattrs
  refine ⟨crc32 (m₁.headerWith (m₁.length + BitVec.ofNat 16 8) ++ body) ^^^ stunFingerprintXorValue,
    h.type, h.transactionId, h.shaped.append (fingerprint_proper c _) rfl ?_, body', mac, hbody',
    hmac, ?_⟩
  · rw [attributeSize_fingerprint]
  · show m₁.attrs ++ [_] = _
    rw [hattrs]

theorem transactionId_of_signed {ok : Bool}
    (h : m.addMessageIntegrityOfType c hmac miType miSize key = some (ok, m₁)) :
    m₁.transactionId = m.transactionId := by
  obtain ⟨m', hadd, h⟩ := bind_eq_some_iff.mp h
  obtain rfl := addAttribute_eq_some hadd
  split at h <;> cases h <;> rfl

theorem transactionId_of_fingerprinted {ok : Bool} (h : m.addFingerprint c crc32 = some (ok, m₁)) :
    m₁.transactionId = m.transactionId := by
  obtain ⟨m', hadd, h⟩ := bind_eq_some_iff.mp h
  obtain rfl := addAttribute_eq_some hadd
  split at h <;> cases h <;> rfl

theorem attrs_of_fingerprinted {ok : Bool} (h : m.addFingerprint c crc32 = some (ok, m₁)) :
    ∃ a, m₁.attrs = m.attrs ++ [a] := by
  obtain ⟨m', hadd, h⟩ := bind_eq_some_iff.mp h
  obtain rfl := addAttribute_eq_some hadd
  split at h <;> cases h <;> exact ⟨_, rfl⟩

theorem validateFingerprint_of_added (hm : m.Shaped c) (hid : m.transactionId.length = 12) {ok : Bool}
    (h : m.addFingerprint c crc32 = some (ok, m₁)) {bytes : List UInt8}
    (hw : m₁.write = some bytes) : validateFingerprint crc32 bytes = true := by
  obtain ⟨all, hall, rfl⟩ := write_eq_some.mp hw
  rw [transactionId_of_fingerprinted h] at hall
  obtain ⟨body, hbody, rfl⟩ := fingerprinted_eq h hall
  obtain ⟨body', value, hbody', hvalue, rfl⟩ := writeAttributes_concat.mp hall
  rw [hbody] at hbody'
  cases hbody'
  rw [writeAttribute_fingerprint] at hvalue
  cases hvalue
  have hbodylen : body.length % 4 = 0 := by
    rw [length_writeAttributes hid hm.proper hbody]
    exact sum_attributeSize_mod m.attrs
  show validateFingerprint crc32 (m.headerWith (m.length + BitVec.ofNat 16 8) ++ (body ++ _)) = true
  generalize m.length + BitVec.ofNat 16 8 = length
  have hheader := length_headerWith length hid
  generalize hbits : crc32 (m.headerWith length ++ body) ^^^ stunFingerprintXorValue = bits
  generalize hdata : m.headerWith length ++
    (body ++ (bigEndian16 fingerprint ++ bigEndian16 4 ++ bigEndian32 bits)) = data
  have hdatalen : data.length = (m.headerWith length ++ body).length + 8 := by
    rw [← hdata]
    simp only [List.length_append, length_bigEndian16, length_bigEndian32]
    omega
  have hsplit : data = (m.headerWith length ++ body) ++
      (bigEndian16 fingerprint ++ (bigEndian16 4 ++ bigEndian32 bits)) := by
    rw [← hdata]
    simp only [List.append_assoc]
  have hcookie : load32 data 4 = stunMagicCookie := by
    rw [← hdata, headerWith_eq length hid]
    simp only [List.append_assoc]
    exact (load32_append_right (bigEndian16 m.type ++ bigEndian16 length) _ 0).trans
      (load32_bigEndian32_append _ _)
  have htype : load16 data (data.length - 8) = fingerprint := by
    rw [hdatalen, Nat.add_sub_cancel, hsplit, ← Nat.add_zero (List.length _), load16_append_right]
    exact load16_bigEndian16_append _ _
  have hsize : load16 data (data.length - 8 + 2) = 4 := by
    rw [hdatalen, Nat.add_sub_cancel, hsplit, load16_append_right]
    exact (load16_append_right (bigEndian16 fingerprint) _ 0).trans
      (load16_bigEndian16_append _ _)
  have hvalue : load32 data (data.length - 8 + 4) = bits := by
    rw [hdatalen, Nat.add_sub_cancel, hsplit, load32_append_right]
    exact (load32_append_right (bigEndian16 fingerprint ++ bigEndian16 4) _ 0).trans
      (load32_bigEndian32 _)
  have hlen : (m.headerWith length ++ body).length = 20 + body.length := by
    rw [List.length_append, hheader]
  have hsizes : ¬(data.length % 4 ≠ 0 ∨ data.length < 20 + 8) := by omega
  have hattribute : ¬(load16 data (data.length - 8) ≠ fingerprint ∨
      load16 data (data.length - 8 + 2) ≠ 4) := by
    rintro (hne | hne)
    · exact hne htype
    · exact hne hsize
  have htake : data.take (data.length - 8) = m.headerWith length ++ body := by
    rw [hdatalen, Nat.add_sub_cancel, hsplit, List.take_left' rfl]
  rw [validateFingerprint, if_neg hsizes, if_neg (not_not.mpr hcookie), if_neg hattribute, hvalue,
    htake, ← hbits, BitVec.xor_assoc, BitVec.xor_self, BitVec.xor_zero, decide_eq_true rfl]

/-- `AddMessageIntegrity` or `AddMessageIntegrity32` was called on a message without the attribute
that it adds, and without one that is preferred to it. -/
inductive Signed (c : MessageClass) (hmac : List UInt8 → List UInt8 → Vector UInt8 20)
    (key : List UInt8) (m m₁ : StunMessage) : Prop
  | integrity {ok : Bool} (h : m.addMessageIntegrity c hmac key = some (ok, m₁))
      (hnone : m.getAttribute StunAttr.messageIntegrity = none)
  | integrity32 {ok : Bool} (h : m.addMessageIntegrity32 c hmac key = some (ok, m₁))
      (hnone : m.getAttribute StunAttr.messageIntegrity = none)
      (hnone32 : m.getAttribute StunAttr.googMessageIntegrity32 = none)

theorem exists_signedWith (ht : IntegrityType miType miSize) (hm : m.Shaped c)
    (hid : m.transactionId.length = 12) {ok : Bool}
    (h : m.addMessageIntegrityOfType c hmac miType miSize key = some (ok, m₁))
    (hf : m₂ = m₁ ∨ ∃ ok, m₁.addFingerprint c crc32 = some (ok, m₂)) {bytes : List UInt8}
    (hw : m₂.write = some bytes) : SignedWith c hmac miType miSize key m m₁ [] ∧ ∃ extra,
      SignedWith c hmac miType miSize key m m₂ extra ∧ ∀ a ∈ extra, a.type = fingerprint := by
  obtain ⟨all, hall, rfl⟩ := write_eq_some.mp hw
  have hid₁ := transactionId_of_signed h
  rcases hf with rfl | ⟨ok, hf⟩
  · rw [hid₁] at hall
    have hsigned := SignedWith.of_signed ht hm hid h hall
    exact ⟨hsigned, [], hsigned, nofun⟩
  · rw [transactionId_of_fingerprinted hf] at hall
    obtain ⟨a, ha⟩ := attrs_of_fingerprinted hf
    obtain ⟨body, -, hbody, -⟩ := writeAttributes_concat.mp (ha ▸ hall)
    rw [hid₁] at hbody
    have hsigned := SignedWith.of_signed ht hm hid h hbody
    obtain ⟨bits, hsigned₂⟩ := hsigned.addFingerprint hf hall
    refine ⟨hsigned, _, hsigned₂, ?_⟩
    intro x hx
    rw [List.mem_singleton.mp hx]
    rfl

theorem type_ne_of_getAttribute_none {type : BitVec 16} (h : m.getAttribute type = none) :
    ∀ a ∈ m.attrs, a.type ≠ type := by
  intro a ha
  simpa using List.find?_eq_none.mp h a ha

theorem SignedWith.getAttribute_isSome
    (h : SignedWith c hmac miType miSize key m m₂ extra) : (m₂.getAttribute miType).isSome := by
  obtain ⟨body, mac, -, -, hattrs⟩ := h.signed
  rw [getAttribute, List.find?_isSome]
  refine ⟨integrityAttribute miType miSize mac, ?_, decide_eq_true rfl⟩
  rw [hattrs]
  exact List.mem_append_left _ (List.mem_append_right _ (List.mem_singleton_self _))

theorem SignedWith.getAttribute_none {type : BitVec 16}
    (h : SignedWith c hmac miType miSize key m m₂ extra) (hm : m.getAttribute type = none)
    (htype : miType ≠ type) (hextra : ∀ a ∈ extra, a.type ≠ type) :
    m₂.getAttribute type = none := by
  obtain ⟨body, mac, -, -, hattrs⟩ := h.signed
  rw [getAttribute, List.find?_eq_none, hattrs]
  intro a ha
  rw [List.mem_append, List.mem_append, List.mem_singleton] at ha
  rcases ha with (ha | rfl) | ha
  · simpa using type_ne_of_getAttribute_none hm a ha
  · simp [integrityAttribute, htype]
  · simpa using hextra a ha

theorem Signed.validated (h : Signed c hmac key m m₁) (hm : m.Shaped c)
    (htype : m.type.toNat < 0x8000) (hid : m.transactionId.length = 12)
    (hf : m₂ = m₁ ∨ ∃ ok, m₁.addFingerprint c crc32 = some (ok, m₂)) (hsize : m₂.size < 2 ^ 16)
    {bytes : List UInt8} (hw : m₂.write = some bytes) :
    (∃ m' m'', read c bytes = some m' ∧ m'.validateMessageIntegrity hmac key = some m'' ∧
      m''.integrity = .integrityOk) ∧
    ∀ ok, m₁.addFingerprint c crc32 = some (ok, m₂) → validateFingerprint crc32 bytes = true := by
  have hread : ∀ {miType miSize extra}, SignedWith c hmac miType miSize key m m₂ extra →
      read c bytes =
        some ⟨m₂.type, m₂.length, m₂.transactionId, m₂.attrs, bytes, .notSet⟩ := by
    intro miType miSize extra hs
    exact hs.shaped.read_write (by rw [hs.type]; exact htype) (by rw [hs.transactionId]; exact hid)
      hsize hw
  have hfinger : ∀ {miType miSize}, SignedWith c hmac miType miSize key m m₁ [] →
      ∀ ok, m₁.addFingerprint c crc32 = some (ok, m₂) → validateFingerprint crc32 bytes = true :=
    fun hs ok hf => validateFingerprint_of_added hs.shaped (by rw [hs.transactionId]; exact hid) hf hw
  cases h with
  | integrity hadd hnone =>
    obtain ⟨hs₁, extra, hs, -⟩ := exists_signedWith integrityType hm hid hadd hf hw
    have hvalid := hs.validate integrityType hm hid (type_ne_of_getAttribute_none hnone) hsize hw
    refine ⟨⟨_, ⟨m₂.type, m₂.length, m₂.transactionId, m₂.attrs, bytes, .integrityOk⟩, hread hs, ?_,
      rfl⟩, hfinger hs₁⟩
    show (if (m₂.getAttribute messageIntegrity).isSome = true then _ else _) = _
    rw [if_pos hs.getAttribute_isSome, hvalid]
    rfl
  | integrity32 hadd hnone hnone32 =>
    obtain ⟨hs₁, extra, hs, hextra⟩ := exists_signedWith integrityType32 hm hid hadd hf hw
    have hvalid := hs.validate integrityType32 hm hid (type_ne_of_getAttribute_none hnone32) hsize hw
    have hmissing : m₂.getAttribute messageIntegrity = none :=
      hs.getAttribute_none hnone (by decide) fun a ha => by rw [hextra a ha]; decide
    refine ⟨⟨_, ⟨m₂.type, m₂.length, m₂.transactionId, m₂.attrs, bytes, .integrityOk⟩, hread hs, ?_,
      rfl⟩, hfinger hs₁⟩
    show (if (m₂.getAttribute messageIntegrity).isSome = true then _ else
      if (m₂.getAttribute googMessageIntegrity32).isSome = true then _ else _) = _
    rw [hmissing, isSome_none, if_neg Bool.false_ne_true, if_pos hs.getAttribute_isSome, hvalid]
    rfl

end StunMessage

open StunMessage

/-- What was written is read back, and a message that was signed before it was written is accepted
when it has no other attribute of integrity that `ValidateMessageIntegrity` would take. -/
theorem stunMessage_readBack (c : MessageClass) (m : StunMessage) (hm : Built c m)
    (htype : m.type.toNat < 0x8000) (hid : m.transactionId.length = 12) :
    (m.size < 2 ^ 16 → ∀ bytes, m.write = some bytes → ∃ m', read c bytes = some m' ∧
      m'.type = m.type ∧ m'.transactionId = m.transactionId ∧ m'.attrs = m.attrs) ∧
    ∀ (hmac : List UInt8 → List UInt8 → Vector UInt8 20) (crc32 : List UInt8 → BitVec 32) key m₁ m₂
      bytes, Signed c hmac key m m₁ → (m₂ = m₁ ∨ ∃ ok, m₁.addFingerprint c crc32 = some (ok, m₂)) →
      m₂.size < 2 ^ 16 → m₂.write = some bytes →
      (∃ m' m'', read c bytes = some m' ∧ m'.validateMessageIntegrity hmac key = some m'' ∧
        m''.integrity = .integrityOk) ∧
      ∀ ok, m₁.addFingerprint c crc32 = some (ok, m₂) → validateFingerprint crc32 bytes = true := by
  have hshaped := hm.shaped
  constructor
  · intro hsize bytes hw
    exact ⟨_, hshaped.read_write htype hid hsize hw, rfl, rfl, rfl⟩
  · intro hmac crc32 key m₁ m₂ bytes hs hf hsize hw
    exact hs.validated hshaped htype hid hf hsize hw

theorem proper_username : StunAttribute.Proper .stun ⟨username, 3, .byteString [1, 2, 3]⟩ :=
  ⟨rfl, rfl, trivial⟩

theorem stunMessage_readBack_username : ∃ m m₁ m₂ bytes, Built .stun m ∧ m.attrs ≠ [] ∧
      m.addMessageIntegrity .stun (fun _ _ => .replicate 20 0) [5] = some (true, m₁) ∧
      m₁.addFingerprint .stun (fun _ => 0) = some (true, m₂) ∧ m₂.write = some bytes ∧
      (∃ m', read .stun bytes = some m') ∧ validateFingerprint (fun _ => 0) bytes = true := by
  have hm : Built .stun
      ⟨0x0001, 8, List.replicate 12 7, [⟨username, 3, .byteString [1, 2, 3]⟩], [], .notSet⟩ :=
    .add (.create 0x0001 (List.replicate 12 7)) proper_username rfl
  obtain ⟨⟨m', -, hread, -⟩, hfinger⟩ := (stunMessage_readBack .stun _ hm (by decide) rfl).2
    (fun _ _ => .replicate 20 0) (fun _ => 0) [5] _ _ _ (.integrity rfl rfl) (.inr ⟨true, rfl⟩)
    (by decide) rfl
  exact ⟨_, _, _, _, hm, nofun, rfl, rfl, rfl, ⟨m', hread⟩, hfinger true rfl⟩

/-- A message that already has an integrity attribute keeps it before the one that is added, and only
the first one is validated. -/
theorem stunMessage_second_integrity :
    ∃ m m₁ bytes m' m'', Built .stun m ∧ m.type.toNat < 0x8000 ∧ m.transactionId.length = 12 ∧
      m.addMessageIntegrity .stun (fun _ _ => .replicate 20 0) [5] = some (true, m₁) ∧
      m₁.size < 2 ^ 16 ∧ m₁.write = some bytes ∧ read .stun bytes = some m' ∧
      m'.validateMessageIntegrity (fun _ _ => .replicate 20 0) [5] = some m'' ∧
      m''.integrity = .integrityBad := by
  have hproper : StunAttribute.Proper .stun
      (integrityAttribute messageIntegrity 20 (List.replicate 20 1)) :=
    integrityType.proper rfl
  have hm : Built .stun
      ⟨0x0001, 24, List.replicate 12 7,
        [integrityAttribute messageIntegrity 20 (List.replicate 20 1)], [], .notSet⟩ :=
    .add (.create 0x0001 (List.replicate 12 7)) hproper rfl
  exact ⟨_, _, _, _, _, hm, by decide, rfl, rfl, by decide, rfl, rfl, rfl, rfl⟩

end WebRtc.Stun
