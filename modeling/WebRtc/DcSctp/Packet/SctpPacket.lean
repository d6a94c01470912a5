import WebRtc.DcSctp.Packet.ChunkRoundTrip

/-! Packets (`packet/sctp_packet`): a builder that appends chunks, a parser that finds them again,
and when the parser returns what the builder was given. CRC32C is an arbitrary function of the
bytes. -/

namespace WebRtc.DcSctp

open Parameters List

open ByteBuffer

/-- The `DcSctpOptions` that building and parsing packets reads. The error detection method zero
is `None()`. -/
structure PacketOptions where
  localPort : BitVec 16
  remotePort : BitVec 16
  mtu : Nat
  disableChecksumVerification : Bool
  zeroChecksumAlternateErrorDetectionMethod : BitVec 32
  deriving DecidableEq, Repr

structure CommonHeader where
  sourcePort : BitVec 16
  destinationPort : BitVec 16
  verificationTag : VerificationTag
  checksum : BitVec 32
  deriving DecidableEq, Repr

structure ChunkDescriptor where
  type : BitVec 8
  flags : BitVec 8
  data : List UInt8
  deriving DecidableEq, Repr

structure SctpPacket where
  commonHeader : CommonHeader
  data : List UInt8
  descriptors : List ChunkDescriptor
  deriving DecidableEq, Repr

def kMaxUdpPacketSize : Nat := 65535

namespace SctpPacket

/-- `checksHold` records the debug checks on the size. -/
structure Builder where
  verificationTag : VerificationTag
  sourcePort : BitVec 16
  destPort : BitVec 16
  maxPacketSize : Nat
  out : List UInt8
  checksHold : Bool

namespace Builder

def new (verificationTag : VerificationTag) (options : PacketOptions) : Builder :=
  { verificationTag
    sourcePort := options.localPort
    destPort := options.remotePort
    maxPacketSize := roundDownTo4 options.mtu
    out := []
    checksHold := true }

def header (b : Builder) : List UInt8 :=
  store32 (store16 (store16 (List.replicate 12 0) 0 b.sourcePort) 2 b.destPort) 4 b.verificationTag

def started (b : Builder) : List UInt8 := if b.out.isEmpty then b.header else b.out

def add (b : Builder) (chunk : Chunk) : Builder :=
  let out := Parameters.pad (b.started ++ chunk.serialize)
  { b with
    out := out
    checksHold := b.checksHold && b.started.length % 4 = 0 && out.length ≤ b.maxPacketSize }

def bytesRemaining (b : Builder) : Nat :=
  if b.out.isEmpty then toSizeT (b.maxPacketSize - 12)
  else if b.maxPacketSize < b.out.length then 0
  else b.maxPacketSize - b.out.length

def build (crc : List UInt8 → BitVec 32) (b : Builder) (writeChecksum : Bool) :
    List UInt8 × Builder :=
  let out := if !b.out.isEmpty && writeChecksum then store32 b.out 8 (crc b.out) else b.out
  (out, { b with out := [], checksHold := b.checksHold && out.length ≤ b.maxPacketSize })

end Builder

open Builder

/-- The loop of `Parse`. The length is rounded up as a `uint16_t`; every round takes four bytes at
least, so that `fuel` of the size of the data is enough. -/
def parseDescriptors : Nat → List UInt8 → Option (List ChunkDescriptor)
  | 0, _ => none
  | fuel + 1, data =>
    if data.isEmpty then some []
    else if data.length < 4 then none
    else
      let paddedLength := Parameters.lengthWithPadding (load16 data 2)
      if data.length < paddedLength then none
      else if paddedLength < 4 then none
      else (parseDescriptors fuel (data.drop paddedLength)).map
        (⟨load8 data 0, load8 data 1, data.take paddedLength⟩ :: ·)

def parse (crc : List UInt8 → BitVec 32) (data : List UInt8) (options : PacketOptions) :
    Option SctpPacket :=
  if data.length < 12 + 4 ∨ kMaxUdpPacketSize < data.length then none
  else
    let commonHeader : CommonHeader :=
      ⟨load16 data 0, load16 data 2, load32 data 4, load32 data 8⟩
    let verified := options.disableChecksumVerification ||
      (options.zeroChecksumAlternateErrorDetectionMethod ≠ 0 && commonHeader.checksum = 0) ||
      crc (store32 data 8 0) = commonHeader.checksum
    if verified then
      (parseDescriptors (data.length + 1) (data.drop 12)).map (⟨commonHeader, data, ·⟩)
    else none

variable (b : Builder)

theorem Builder.length_header : b.header.length = 12 := by simp [header]

def body (chunks : List Chunk) : List UInt8 := chunks.flatMap fun c => Parameters.pad c.serialize

theorem four_dvd_length_body (chunks : List Chunk) : 4 ∣ (body chunks).length := by
  induction chunks with
  | nil => simp [body]
  | cons c chunks ih =>
    rw [body, flatMap_cons, length_append, length_pad]
    exact dvd_add (Dvd.intro_left _ rfl) ih

variable (tag : VerificationTag)

namespace Builder

theorem add_out {b : Builder} (h : 4 ∣ b.started.length) (c : Chunk) :
    (b.add c).out = b.started ++ pad c.serialize :=
  pad_append h _

theorem four_le_serialize (c : Chunk) : 4 ≤ c.serialize.length :=
  c.four_le_headerSize.trans c.block_serialize.headerSize_le

theorem started_add (c : Chunk) : (b.add c).started = (b.add c).out := by
  have hpos : 0 < (b.add c).out.length := by
    have := four_le_serialize c
    simp only [add, length_pad, length_append, roundUpTo4]
    omega
  rw [started, if_neg]
  simpa using ne_nil_of_length_pos hpos

theorem started_foldl_add {b : Builder} {before : List Chunk}
    (h : b.started = b.header ++ body before) (chunks : List Chunk) :
    (chunks.foldl add b).started = b.header ++ body (before ++ chunks) := by
  induction chunks generalizing b before with
  | nil => simpa using h
  | cons c chunks ih =>
    have hdvd : 4 ∣ b.started.length := by
      rw [h, length_append, length_header]
      exact dvd_add ⟨3, rfl⟩ (four_dvd_length_body before)
    have hadd : (b.add c).started = (b.add c).header ++ body (before ++ [c]) := by
      rw [started_add, add_out hdvd, h, body, body, flatMap_append, append_assoc, flatMap_singleton]
      rfl
    rw [foldl_cons, ih hadd, append_assoc]
    rfl

theorem foldl_add_out {b : Builder} {before : List Chunk}
    (h : b.started = b.header ++ body before) {chunks : List Chunk} (hne : chunks ≠ []) :
    (chunks.foldl add b).out = b.header ++ body (before ++ chunks) := by
  rw [← started_foldl_add h chunks]
  rcases eq_nil_or_concat chunks with rfl | ⟨front, last, rfl⟩
  · exact absurd rfl hne
  · rw [concat_eq_append, foldl_append, foldl_cons, foldl_nil, started_add]

theorem foldl_add_new (options : PacketOptions) {chunks : List Chunk} (hne : chunks ≠ []) :
    (chunks.foldl add (new tag options)).out = (new tag options).header ++ body chunks := by
  have hstart : (new tag options).started = (new tag options).header ++ body [] := by
    simp [started, new, body]
  simpa using foldl_add_out hstart hne

theorem length_foldl_add_new (options : PacketOptions) {chunks : List Chunk} (hne : chunks ≠ []) :
    (chunks.foldl add (new tag options)).out.length = 12 + (body chunks).length := by
  rw [foldl_add_new tag options hne, length_append, length_header]

end Builder

section Parse

def descriptor (c : Chunk) : ChunkDescriptor :=
  ⟨c.type, load8 c.serialize 1, Parameters.pad c.serialize⟩

theorem load_pad {c : Chunk} (hlt : roundUpTo4 c.serialize.length < 2 ^ 16) (rest : List UInt8) :
    lengthWithPadding (load16 (pad c.serialize ++ rest) 2) = roundUpTo4 c.serialize.length ∧
      load8 (pad c.serialize ++ rest) 0 = c.type ∧
      load8 (pad c.serialize ++ rest) 1 = load8 c.serialize 1 := by
  have hfour := four_le_serialize c
  have hle := le_roundUpTo4 c.serialize.length
  have hsize : c.config.typeSizeInBytes = 1 := by cases c <;> rfl
  have hlength := c.block_serialize.length_toNat (by omega)
  rw [pad, append_assoc, load16_append _ (by omega), load8_append _ (by omega),
    load8_append _ (by omega)]
  refine ⟨?_, (if_pos hsize ▸ c.block_serialize.type_eq :), rfl⟩
  rw [lengthWithPadding, hlength, BitVec.toNat_ofNat, Nat.mod_eq_of_lt hlt]

theorem parseDescriptors_body {chunks : List Chunk}
    (h : ∀ c ∈ chunks, roundUpTo4 c.serialize.length < 2 ^ 16) (fuel : Nat) :
    parseDescriptors (chunks.length + fuel + 1) (body chunks) = some (chunks.map descriptor) := by
  induction chunks with
  | nil => simp [parseDescriptors, body]
  | cons c chunks ih =>
    have hrest := ih fun d hd => h d (by simp [hd])
    have hfour := four_le_serialize c
    have hle := le_roundUpTo4 c.serialize.length
    obtain ⟨hpadded, htype, hflags⟩ := load_pad (h c (by simp)) (body chunks)
    have hlen : (pad c.serialize ++ body chunks).length =
        roundUpTo4 c.serialize.length + (body chunks).length := by simp
    have hne : (pad c.serialize ++ body chunks).isEmpty = false :=
      List.isEmpty_eq_false_iff.mpr (ne_nil_of_length_pos (by omega))
    rw [show body (c :: chunks) = pad c.serialize ++ body chunks from rfl,
      length_cons, Nat.add_right_comm chunks.length 1 fuel, parseDescriptors, hne]
    simp only [hpadded, htype, hflags, drop_left' (length_pad c.serialize),
      take_left' (length_pad c.serialize), hrest]
    rw [if_neg (by simp), if_neg (by omega), if_neg (by omega), if_neg (by omega)]
    rfl

theorem length_le_body (chunks : List Chunk) : chunks.length ≤ (body chunks).length := by
  induction chunks with
  | nil => simp
  | cons c chunks ih =>
    have hfour := four_le_serialize c
    have hle := le_roundUpTo4 c.serialize.length
    simp only [body, flatMap_cons, length_append, length_pad, length_cons] at ih ⊢
    omega

theorem roundUpTo4_le_body {c : Chunk} {chunks : List Chunk} (hc : c ∈ chunks) :
    roundUpTo4 c.serialize.length ≤ (body chunks).length := by
  rw [← length_pad]
  exact List.Sublist.length_le (sublist_flatten_of_mem (mem_map_of_mem hc))

theorem Builder.drop_header : b.header.drop 8 = [0, 0, 0, 0] := by
  rw [header, store32, store16, store16, drop_store_of_le (by simp [length_bigEndian32]),
    drop_store_of_le (by simp [length_bigEndian16]), drop_store_of_le (by simp [length_bigEndian16])]
  rfl

theorem store32_checksum (rest : List UInt8) (checksum : BitVec 32) :
    store32 (store32 (b.header ++ rest) 8 checksum) 8 0 = b.header ++ rest := by
  rw [store32, store32, store_store (by simp [length_bigEndian32])]
  apply store_eq_self
  rw [drop_append_of_le_length (by simp [length_header]), drop_header]
  rfl

theorem parse_build (crc : List UInt8 → BitVec 32) (tag : VerificationTag)
    (sender receiver : PacketOptions) {chunks : List Chunk} (hne : chunks ≠ [])
    (hfits : (chunks.foldl Builder.add (.new tag sender)).out.length ≤ kMaxUdpPacketSize) :
    ∃ packet, parse crc ((chunks.foldl Builder.add (.new tag sender)).build crc true).1 receiver =
        some packet ∧ packet.descriptors = chunks.map descriptor := by
  have hout := Builder.foldl_add_new tag sender hne
  have hlen := Builder.length_foldl_add_new tag sender hne
  have hheader := Builder.length_header (.new tag sender)
  have hcount := length_le_body chunks
  have hfour : 4 ≤ (body chunks).length := by
    obtain ⟨c, hc⟩ := exists_mem_of_ne_nil _ hne
    have := roundUpTo4_le_body hc
    have := le_roundUpTo4 c.serialize.length
    have := Builder.four_le_serialize c
    omega
  have hlt : ∀ c ∈ chunks, roundUpTo4 c.serialize.length < 2 ^ 16 := by
    intro c hc
    have := roundUpTo4_le_body hc
    simp only [kMaxUdpPacketSize] at hfits
    omega
  generalize chunks.foldl Builder.add (.new tag sender) = b at hout hfits hlen
  have hnonempty : b.out.isEmpty = false :=
    List.isEmpty_eq_false_iff.mpr (ne_nil_of_length_pos (by omega))
  have hbuild : (b.build crc true).1 = store32 b.out 8 (crc b.out) := by
    simp [Builder.build, hnonempty]
  have hverify : crc (store32 (store32 b.out 8 (crc b.out)) 8 0) =
      load32 (store32 b.out 8 (crc b.out)) 8 := by
    rw [load32_store32 (by omega), hout, store32_checksum]
  have hbody : (store32 b.out 8 (crc b.out)).drop 12 = body chunks := by
    rw [store32, drop_store_of_le (by simp [length_bigEndian32]), hout, drop_left' hheader]
  obtain ⟨extra, hextra⟩ := Nat.exists_eq_add_of_le (show chunks.length ≤ b.out.length by omega)
  rw [hbuild]
  simp only [parse, length_store32, hverify, decide_true, Bool.or_true, if_true, hbody]
  rw [if_neg (by omega), hextra, parseDescriptors_body hlt extra]
  exact ⟨_, rfl, rfl⟩

end Parse

/-- The parser returns every chunk of a built packet, in order and without the fields that its wire
format does not have, and the parameters that were added to each of them, exactly if the length of
every ERROR chunk is a multiple of four. -/
theorem parse_build_chunks_iff (crc : List UInt8 → BitVec 32) (tag : VerificationTag)
    (sender receiver : PacketOptions) {chunks : List Chunk} (hne : chunks ≠ [])
    (hwf : ∀ c ∈ chunks, c.WellFormed)
    (hfits : (chunks.foldl Builder.add (.new tag sender)).out.length ≤ kMaxUdpPacketSize) :
    ((∃ packet, parse crc ((chunks.foldl Builder.add (.new tag sender)).build crc true).1 receiver =
          some packet ∧ packet.descriptors.map (fun d => Chunk.parse d.type d.data) =
          chunks.map fun c => some c.normalize) ∧
      ∀ c ∈ chunks, ∀ ps, c.parameters? = some (Parameters.build ps) →
        Parameters.parse (Parameters.build ps).data = some (Parameters.build ps) ∧
        (Parameters.build ps).descriptors = some (ps.map Parameter.descriptor)) ↔
      ∀ p, .error p ∈ chunks → 4 ∣ (Chunk.error p).serialize.length := by
  have hlt : ∀ c ∈ chunks, c.serialize.length < 2 ^ 16 := by
    intro c hc
    have hbody := roundUpTo4_le_body hc
    have hround := le_roundUpTo4 c.serialize.length
    rw [length_foldl_add_new tag sender hne, kMaxUdpPacketSize] at hfits
    omega
  obtain ⟨packet, hparse, hdescriptors⟩ := parse_build crc tag sender receiver hne hfits
  have hmap : packet.descriptors.map (fun d => Chunk.parse d.type d.data) =
      chunks.map fun c => Chunk.parse c.type (pad c.serialize) := by
    rw [hdescriptors, map_map]
    rfl
  constructor
  · rintro ⟨⟨packet', hparse', hmap'⟩, -⟩ p hp
    obtain rfl : packet' = packet := Option.some.inj (hparse'.symm.trans hparse)
    rw [hmap] at hmap'
    have hchunk := List.map_inj_left.mp hmap' _ hp
    rw [Chunk.parse_pad_error (hwf _ hp) (hlt _ hp)] at hchunk
    by_contra hnot
    simp [hnot] at hchunk
  · intro herror
    refine ⟨⟨packet, hparse, hmap.trans (List.map_inj_left.mpr fun c hc => ?_)⟩, ?_⟩
    · by_cases he : ∃ p, c = .error p
      · obtain ⟨p, rfl⟩ := he
        rw [Chunk.parse_pad_error (hwf _ hc) (hlt _ hc), if_pos (herror p hc)]
        rfl
      · exact Chunk.parse_pad (hwf c hc) (hlt c hc) fun p hp => he ⟨p, hp⟩
    · intro c hc ps hps
      have hlen := hlt c hc
      rw [Chunk.length_serialize_of_parameters hps] at hlen
      have hheader := c.four_le_headerSize
      exact Parameters.parse_build (by omega)

def errorWithAbortReason : Chunk := .error (Parameters.build [.userInitiatedAbortCause [97]])

def defaultOptions : PacketOptions := ⟨5000, 5000, 1191, false, 0⟩

theorem parse_build_chunks_iff_init_ack :
    ∃ packet, parse (fun _ => 7) (([Chunk.initAck ⟨1, 2, 3, 4, 5, Parameters.build
        [.stateCookie [1, 2, 3], .forwardTsnSupported]⟩].foldl Builder.add
          (.new 9 defaultOptions)).build (fun _ => 7) true).1 defaultOptions = some packet ∧
      packet.descriptors.map (fun d => Chunk.parse d.type d.data) =
        [some (Chunk.initAck ⟨1, 2, 3, 4, 5, Parameters.build
          [.stateCookie [1, 2, 3], .forwardTsnSupported]⟩)] := by
  refine ((parse_build_chunks_iff (fun _ => 7) 9 defaultOptions defaultOptions
    (cons_ne_nil _ []) ?_ (by decide)).mpr (by simp)).1
  simp only [mem_singleton, forall_eq]
  exact ⟨fun s hs => Chunk.noConfusion hs, fun p hp => ⟨_, (Option.some.inj hp).symm⟩⟩

/-- The serializer writes the length of the causes, the parser asks for a multiple of four. -/
theorem error_chunk_not_parsed : errorWithAbortReason.WellFormed ∧
      ∃ packet, parse (fun _ => 7) (((Builder.new 9 defaultOptions).add
          errorWithAbortReason).build (fun _ => 7) true).1 defaultOptions = some packet ∧
        packet.descriptors.map (fun d => Chunk.parse d.type d.data) = [none] := by
  refine ⟨⟨fun s hs => Chunk.noConfusion hs, fun p hp => ⟨_, (Option.some.inj hp).symm⟩⟩, ?_⟩
  exact ⟨⟨⟨5000, 5000, 9, 7⟩, _, _⟩, rfl, by decide⟩

end SctpPacket

end WebRtc.DcSctp
