import WebRtc.Stun.Message

/-! What `Write` makes of a message that was built from complete attributes, `Read` reads back. -/

namespace WebRtc.Stun

open ByteBuffer BitVec

namespace StunAttributeValue

def size : StunAttributeValue → Nat
  | .address addr => addr.ip.addressLength.toNat
  | .xorAddress addr => addr.ip.addressLength.toNat
  | .uint32 _ => 4
  | .uint64 _ => 8
  | .byteString bytes => bytes.length
  | .errorCode _ _ reason => 4 + reason.length
  | .uint16List types => 2 * types.length

def CodeBelow : StunAttributeValue → Prop
  | .errorCode errorClass number _ => errorClass.toNat * 100 + number.toNat < 800
  | _ => True

end StunAttributeValue

structure StunAttribute.Proper (c : MessageClass) (a : StunAttribute) : Prop where
  complete : a.length.toNat = a.value.size
  typed : createAttribute c a.type = some a.value.valueType
  code : a.value.CodeBelow

variable {c : MessageClass} {transactionId : List UInt8}

theorem xorBytes_xorBytes {n : Nat} (key : List UInt8) (bytes : Vector UInt8 n) :
    xorBytes key (xorBytes key bytes) = bytes := by
  apply Vector.ext
  intro i hi
  simp only [xorBytes, Vector.getElem_ofFn, Vector.get_eq_getElem, UInt8.xor_assoc, UInt8.xor_self,
    UInt8.xor_zero]

section

variable (hid : transactionId.length = 12)
include hid

theorem getXoredIP_getXoredIP (ip : IPAddress) :
    getXoredIP transactionId (getXoredIP transactionId ip) = ip := by
  cases ip with
  | unspec => rfl
  | v4 bytes => rw [getXoredIP, getXoredIP, xorBytes_xorBytes]
  | v6 bytes => rw [getXoredIP, if_pos hid, getXoredIP, if_pos hid, xorBytes_xorBytes]

theorem family_getXoredIP (ip : IPAddress) : (getXoredIP transactionId ip).family = ip.family := by
  cases ip with
  | unspec => rfl
  | v4 bytes => rfl
  | v6 bytes =>
    rw [getXoredIP, if_pos hid]
    rfl

theorem addressLength_getXoredIP (ip : IPAddress) :
    (getXoredIP transactionId ip).addressLength = ip.addressLength := by
  cases ip with
  | unspec => rfl
  | v4 bytes => rfl
  | v6 bytes =>
    rw [getXoredIP, if_pos hid]
    rfl

end

theorem xorPort_xorPort (port : BitVec 16) : xorPort (xorPort port) = port := by
  rw [xorPort, xorPort, BitVec.xor_assoc, BitVec.xor_self, BitVec.xor_zero]

theorem reads_consumePadding (length : Nat) :
    Reads (consumePadding length) (writePadding length) () := by
  intro rest
  have hlen : (writePadding length).length = padding length := List.length_replicate
  have hle : padding length ≤ (writePadding length ++ rest).length := by
    rw [List.length_append]
    omega
  show (if _ then _ else _) = _
  rw [if_pos hle, List.drop_left' hlen]

theorem reads_readAddress {ip : IPAddress} (h : ip.family ≠ 0) (port : BitVec 16) :
    Reads (readAddress ip.addressLength) (writeAddress ip port) ⟨ip, port⟩ := by
  unfold writeAddress readAddress
  rw [List.append_assoc, List.append_assoc]
  refine (reads_readUInt8 0).bind ((reads_readUInt8 _).bind ((reads_readUInt16 port).bind ?_))
  cases ip with
  | unspec => exact absurd rfl h
  | v4 bytes => exact Reads.guard_bind rfl ((reads_readVector bytes).map fun v => SocketAddress.mk (.v4 v) port)
  | v6 bytes => exact Reads.guard_bind rfl ((reads_readVector bytes).map fun v => SocketAddress.mk (.v6 v) port)

theorem reads_readXorAddress (hid : transactionId.length = 12) {ip : IPAddress} (h : ip.family ≠ 0)
    (port : BitVec 16) : Reads (readXorAddress transactionId ip.addressLength)
      (writeAddress (getXoredIP transactionId ip) (xorPort port)) ⟨ip, port⟩ := by
  have hread := (reads_readAddress (by rwa [family_getXoredIP hid]) (xorPort port)).map
    fun addr : SocketAddress =>
      (⟨getXoredIP transactionId addr.ip, xorPort addr.port⟩ : SocketAddress)
  rw [addressLength_getXoredIP hid, getXoredIP_getXoredIP hid, xorPort_xorPort] at hread
  exact hread

theorem reads_readByteString {length : BitVec 16} {bytes : List UInt8}
    (h : bytes.length = length.toNat) :
    Reads (readByteString length) (bytes ++ writePadding length.toNat) bytes :=
  (reads_readBytes bytes h).bind ((reads_consumePadding length.toNat).map fun _ => bytes)

theorem errorCode_bits {errorClass : BitVec 8} (number : BitVec 8) (h : errorClass.toNat < 8) :
    (((errorClass.setWidth 32 <<< 8 ||| number.setWidth 32) >>> 8) &&& 0x7).extractLsb' 0 8 =
        errorClass ∧
      ((errorClass.setWidth 32 <<< 8 ||| number.setWidth 32) &&& 0xff).extractLsb' 0 8 =
        number := by
  have hhigh : ∀ i (_ : i < 8), 3 ≤ i → errorClass[i] = false := by
    intro i _ hi
    apply Nat.testBit_lt_two_pow
    calc errorClass.toNat < 2 ^ 3 := h
      _ ≤ 2 ^ i := Nat.pow_le_pow_right (by decide) hi
  constructor
  · apply eq_of_getLsbD_eq
    intro i hi
    interval_cases i <;> simp [hhigh]
  · apply eq_of_getLsbD_eq
    intro i hi
    interval_cases i <;> simp

theorem reads_readErrorCode {length : BitVec 16} {errorClass number : BitVec 8}
    {reason : List UInt8} (h : length.toNat = 4 + reason.length) (hclass : errorClass.toNat < 8) :
    Reads (readErrorCode length)
      (bigEndian32 (errorClass.setWidth 32 <<< 8 ||| number.setWidth 32) ++ reason ++
        writePadding length.toNat) (.errorCode errorClass number reason) := by
  obtain ⟨hc, hn⟩ := errorCode_bits number hclass
  unfold readErrorCode
  rw [List.append_assoc]
  refine Reads.guard_bind (by omega) ((reads_readUInt32 _).bind ?_)
  rw [hc, hn]
  exact (reads_readBytes reason (by omega)).bind ((reads_consumePadding length.toNat).map fun _ =>
    StunAttributeValue.errorCode errorClass number reason)

theorem reads_readUInt16List {length : BitVec 16} {types : List (BitVec 16)}
    (h : length.toNat = 2 * types.length) :
    Reads (readUInt16List length) (types.flatMap bigEndian16 ++ writePadding length.toNat) types := by
  unfold readUInt16List
  refine Reads.guard_bind (by omega) ?_
  rw [show length.toNat / 2 = types.length by omega]
  exact (reads_readMany reads_readUInt16 types).bind
    ((reads_consumePadding length.toNat).map fun _ => types)

variable {a : StunAttribute}

theorem reads_readAttribute (hid : transactionId.length = 12) (h : a.Proper c)
    {bytes : List UInt8} (hw : writeValue transactionId a = some bytes) :
    Reads (readAttribute transactionId a.type a.length a.value.valueType) bytes a := by
  obtain ⟨hlength, -, hcode⟩ := h
  obtain ⟨type, length, value⟩ := a
  dsimp only at hlength hcode
  unfold writeValue at hw
  cases value with
  | address addr =>
    dsimp only at hw
    split_ifs at hw with hfamily
    cases hw
    obtain rfl : length = addr.ip.addressLength := eq_of_toNat_eq hlength
    exact (reads_readAddress hfamily addr.port).map fun addr =>
      StunAttribute.mk type addr.ip.addressLength (.address addr)
  | xorAddress addr =>
    dsimp only at hw
    split_ifs at hw with hfamily hxored
    cases hw
    obtain rfl : length = addr.ip.addressLength := eq_of_toNat_eq hlength
    rw [← family_getXoredIP hid]
    exact (reads_readXorAddress hid hfamily addr.port).map fun addr =>
      StunAttribute.mk type addr.ip.addressLength (.xorAddress addr)
  | uint32 bits =>
    cases hw
    obtain rfl : length = 4 := eq_of_toNat_eq hlength
    exact (reads_readUInt32 bits).map fun bits => StunAttribute.mk type 4 (.uint32 bits)
  | uint64 bits =>
    cases hw
    obtain rfl : length = 8 := eq_of_toNat_eq hlength
    exact (reads_readUInt64 bits).map fun bits => StunAttribute.mk type 8 (.uint64 bits)
  | byteString bytes =>
    dsimp only at hw
    split_ifs at hw
    cases hw
    rw [hlength, StunAttributeValue.size, List.take_length]
    rw [StunAttributeValue.size] at hlength
    rw [← hlength]
    exact (reads_readByteString hlength.symm).map fun bytes =>
      StunAttribute.mk type length (.byteString bytes)
  | errorCode errorClass number reason =>
    cases hw
    have hclass : errorClass.toNat < 8 := by
      change errorClass.toNat * 100 + number.toNat < 800 at hcode
      omega
    exact (reads_readErrorCode hlength hclass).map (StunAttribute.mk type length)
  | uint16List types =>
    cases hw
    exact (reads_readUInt16List hlength).map fun types =>
      StunAttribute.mk type length (.uint16List types)

theorem length_writeValue (hid : transactionId.length = 12) (h : a.Proper c)
    {bytes : List UInt8} (hw : writeValue transactionId a = some bytes) :
    bytes.length = a.length.toNat + padding a.length.toNat := by
  obtain ⟨hlength, -, -⟩ := h
  obtain ⟨type, length, value⟩ := a
  dsimp only at hlength ⊢
  have haddress : ∀ ip : IPAddress, ip.family ≠ 0 → ∀ port, (writeAddress ip port).length =
      ip.addressLength.toNat + padding ip.addressLength.toNat := by
    intro ip hip port
    cases ip with
    | unspec => exact absurd rfl hip
    | v4 bytes => simp [writeAddress, bigEndian8, length_bigEndian16, IPAddress.toBytes, padding,
        IPAddress.addressLength]
    | v6 bytes => simp [writeAddress, bigEndian8, length_bigEndian16, IPAddress.toBytes, padding,
        IPAddress.addressLength]
  unfold writeValue at hw
  cases value with
  | address addr =>
    dsimp only at hw
    split_ifs at hw with hfamily
    cases hw
    rw [hlength]
    exact haddress addr.ip hfamily addr.port
  | xorAddress addr =>
    dsimp only at hw
    split_ifs at hw with hfamily hxored
    cases hw
    rw [hlength, ← family_getXoredIP hid, StunAttributeValue.size, ← addressLength_getXoredIP hid]
    exact haddress _ hxored (xorPort addr.port)
  | uint32 bits =>
    cases hw
    simp [hlength, StunAttributeValue.size, padding, length_bigEndian32]
  | uint64 bits =>
    cases hw
    simp [hlength, StunAttributeValue.size, padding, bigEndian64, length_bigEndian32]
  | byteString bytes =>
    dsimp only at hw
    split_ifs at hw
    cases hw
    rw [List.length_append, writePadding, List.length_replicate, hlength, StunAttributeValue.size,
      List.take_length]
  | errorCode errorClass number reason =>
    cases hw
    rw [List.length_append, List.length_append, writePadding, List.length_replicate, hlength]
    rfl
  | uint16List types =>
    cases hw
    rw [List.length_append, writePadding, List.length_replicate, hlength,
      length_flatMap_encode length_bigEndian16, StunAttributeValue.size, Nat.mul_comm]

namespace StunMessage

variable {m : StunMessage}

def size (m : StunMessage) : Nat := (m.attrs.map attributeSize).sum

inductive Built (c : MessageClass) : StunMessage → Prop
  | create (type : BitVec 16) (transactionId : List UInt8) : Built c (create type transactionId)
  | add {m m' : StunMessage} {a : StunAttribute} (h : Built c m) (ha : a.Proper c)
      (hm : m.addAttribute c a = some m') : Built c m'
  | remove {m : StunMessage} (h : Built c m) (type : BitVec 16) : Built c (m.removeAttribute type)

structure Shaped (c : MessageClass) (m : StunMessage) : Prop where
  proper : ∀ a ∈ m.attrs, a.Proper c
  length : m.length = BitVec.ofNat 16 m.size

theorem addAttribute_eq_some {m' : StunMessage}
    (h : m.addAttribute c a = some m') :
    m' = { m with
      length := m.length + BitVec.ofNat 16 (attributeSize a)
      attrs := m.attrs ++ [a] } := by
  unfold addAttribute at h
  obtain ⟨-, -, h⟩ := Option.bind_eq_some_iff.mp h
  cases h
  rfl

theorem Shaped.append (h : m.Shaped c) (ha : a.Proper c) {m' : StunMessage}
    (hattrs : m'.attrs = m.attrs ++ [a])
    (hlength : m'.length = m.length + BitVec.ofNat 16 (attributeSize a)) : m'.Shaped c := by
  refine ⟨?_, ?_⟩
  · intro x hx
    rw [hattrs, List.mem_append, List.mem_singleton] at hx
    rcases hx with hx | rfl
    · exact h.proper x hx
    · exact ha
  · rw [hlength, h.length, ← ofNat_add, size, size, hattrs, List.map_append, List.sum_append,
      List.map_singleton, List.sum_singleton]

theorem Shaped.removeAttribute (h : m.Shaped c) (type : BitVec 16) :
    (m.removeAttribute type).Shaped c := by
  unfold StunMessage.removeAttribute
  cases hfind : m.attrs.reverse.find? (·.type = type) with
  | none => exact h
  | some a =>
    have hperm : m.attrs.Perm (a :: (m.attrs.reverse.eraseP (·.type = type)).reverse) := by
      obtain ⟨b, l, r, hnot, hb, hl, hr⟩ := List.exists_of_eraseP
        (List.mem_of_find?_eq_some hfind) (List.find?_some hfind)
      have hab : a = b := by
        rw [hl, List.find?_append, List.find?_eq_none.mpr fun x hx => hnot x hx] at hfind
        rw [Option.none_or, List.find?_cons, hb] at hfind
        exact (Option.some.inj hfind).symm
      rw [hr, hab]
      refine (List.reverse_perm _).symm.trans ?_
      rw [hl]
      exact List.perm_middle.trans ((List.reverse_perm _).symm.cons b)
    refine ⟨?_, ?_⟩
    · intro x hx
      exact h.proper x (hperm.mem_iff.mpr (List.mem_cons_of_mem a hx))
    · have hsum := (hperm.map attributeSize).sum_eq
      rw [List.map_cons, List.sum_cons] at hsum
      show m.length - _ = BitVec.ofNat 16 (List.map _ _).sum
      rw [h.length, size, hsum, ofNat_add, BitVec.add_comm, BitVec.add_sub_cancel]

theorem Built.shaped (h : Built c m) : m.Shaped c := by
  induction h with
  | create type transactionId => exact ⟨nofun, rfl⟩
  | add _ ha hm ih =>
    obtain rfl := addAttribute_eq_some hm
    exact ih.append ha rfl rfl
  | remove _ type ih => exact ih.removeAttribute type

theorem readAttributes_nil (n : Nat) :
    (readAttributes c transactionId n).run [] = some ([], []) := by
  cases n <;> rfl

theorem readAttributes_of_reads {used rest : List UInt8} {a : Option StunAttribute}
    (h : Reads (readNext c transactionId) used a) (hused : used ≠ []) (n : Nat) :
    (readAttributes c transactionId (n + 1)).run (used ++ rest) =
      ((readAttributes c transactionId n).run rest).map fun (attrs, buf) =>
        (a.toList ++ attrs, buf) := by
  have hnonempty : (used ++ rest).isEmpty = false := by simp [hused]
  rw [readAttributes, StateT.run_bind]
  show (if (used ++ rest).isEmpty = true then _ else _ : Reader _).run (used ++ rest) = _
  rw [hnonempty, if_neg Bool.false_ne_true, StateT.run_bind, h rest]
  rw [Option.bind_eq_bind, Option.bind_some, StateT.run_bind]
  cases (readAttributes c transactionId n).run rest <;> rfl

theorem reads_readNext (hid : transactionId.length = 12) (h : a.Proper c)
    {bytes : List UInt8} (hw : writeAttribute transactionId a = some bytes) :
    Reads (readNext c transactionId) bytes (some a) := by
  obtain ⟨value, hvalue, rfl⟩ := Option.map_eq_some_iff.mp hw
  rw [List.append_assoc]
  refine (reads_readUInt16 a.type).bind ((reads_readUInt16 a.length).bind ?_)
  rw [h.typed]
  exact (reads_readAttribute hid h hvalue).map some

theorem length_writeAttribute (hid : transactionId.length = 12) (h : a.Proper c)
    {bytes : List UInt8} (hw : writeAttribute transactionId a = some bytes) :
    bytes.length = attributeSize a := by
  obtain ⟨value, hvalue, rfl⟩ := Option.map_eq_some_iff.mp hw
  simp only [List.length_append, length_bigEndian16, length_writeValue hid h hvalue, attributeSize]
  omega

variable {attrs : List StunAttribute}

theorem length_writeAttributes (hid : transactionId.length = 12)
    (h : ∀ a ∈ attrs, a.Proper c) {bytes : List UInt8}
    (hw : writeAttributes transactionId attrs = some bytes) :
    bytes.length = (attrs.map attributeSize).sum := by
  induction attrs generalizing bytes with
  | nil =>
    cases hw
    rfl
  | cons a attrs ih =>
    obtain ⟨x, hx, hw⟩ := Option.bind_eq_some_iff.mp hw
    obtain ⟨y, hy, hw⟩ := Option.bind_eq_some_iff.mp hw
    cases hw
    rw [List.length_append, List.map_cons, List.sum_cons,
      length_writeAttribute hid (h a List.mem_cons_self) hx,
      ih (fun b hb => h b (List.mem_cons_of_mem a hb)) hy]

theorem readAttributes_writeAttributes (hid : transactionId.length = 12)
    (h : ∀ a ∈ attrs, a.Proper c) {bytes : List UInt8}
    (hw : writeAttributes transactionId attrs = some bytes) {n : Nat} (hn : bytes.length ≤ n) :
    (readAttributes c transactionId n).run bytes = some (attrs, []) := by
  induction attrs generalizing bytes n with
  | nil =>
    cases hw
    exact readAttributes_nil n
  | cons a attrs ih =>
    obtain ⟨x, hx, hw⟩ := Option.bind_eq_some_iff.mp hw
    obtain ⟨y, hy, hw⟩ := Option.bind_eq_some_iff.mp hw
    cases hw
    have ha := h a List.mem_cons_self
    have hlen : 4 ≤ x.length := by
      rw [length_writeAttribute hid ha hx, attributeSize]
      omega
    rw [List.length_append] at hn
    obtain ⟨n, rfl⟩ := Nat.exists_eq_succ_of_ne_zero (by omega : n ≠ 0)
    rw [readAttributes_of_reads (reads_readNext hid ha hx) (List.ne_nil_of_length_pos (by omega)),
      ih (fun b hb => h b (List.mem_cons_of_mem a hb)) hy (by omega)]
    rfl

theorem reads_readHeader (hid : m.transactionId.length = 12) (htype : m.type.toNat < 0x8000) :
    Reads readHeader m.header (m.type, m.length, m.transactionId) := by
  have hbit : m.type &&& 0x8000 = 0 := by
    apply eq_of_toNat_eq
    have htest : m.type.toNat.testBit 15 = false := Nat.testBit_lt_two_pow htype
    show m.type.toNat &&& 2 ^ 15 = 0
    rw [Nat.and_two_pow, htest, Bool.toNat_false, Nat.zero_mul]
  have hlegacy : m.transactionId.length ≠ 16 := by omega
  unfold header readHeader
  rw [if_neg hlegacy, List.append_assoc, List.append_assoc]
  refine (reads_readUInt16 m.type).bind (Reads.guard_bind hbit ((reads_readUInt16 m.length).bind
    ((reads_readBytes (bigEndian32 stunMagicCookie) rfl).bind ?_)))
  simp only [load32_bigEndian32, ne_eq, not_true_eq_false, if_false]
  exact (reads_readBytes m.transactionId hid).map fun id => (m.type, m.length, id)

theorem Shaped.toNat_length (h : m.Shaped c) (hsize : m.size < 2 ^ 16) : m.length.toNat = m.size := by
  rw [h.length, toNat_ofNat, Nat.mod_eq_of_lt hsize]

theorem Shaped.read_write (h : m.Shaped c) (htype : m.type.toNat < 0x8000)
    (hid : m.transactionId.length = 12) (hsize : m.size < 2 ^ 16) {bytes : List UInt8}
    (hw : m.write = some bytes) :
    read c bytes = some ⟨m.type, m.length, m.transactionId, m.attrs, bytes, .notSet⟩ := by
  obtain ⟨body, hbody, rfl⟩ := Option.map_eq_some_iff.mp hw
  have hlen : m.length.toNat = body.length := by
    rw [h.toNat_length hsize, length_writeAttributes hid h.proper hbody, size]
  unfold read
  rw [reads_readHeader hid htype]
  simp only [Option.bind_eq_bind, Option.bind_some]
  rw [guard, if_pos hlen]
  show (((readAttributes c m.transactionId body.length).run body).bind _) = _
  rw [readAttributes_writeAttributes hid h.proper hbody le_rfl]
  rfl

end StunMessage

end WebRtc.Stun
