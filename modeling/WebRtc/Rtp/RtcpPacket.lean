import WebRtc.Lib.ByteReader

/-! The header that RTCP packets begin with (`rtcp_packet.cc`, `common_header.cc`). -/

namespace WebRtc.Rtp

open ByteBuffer

structure CommonHeader where
  fmt : BitVec 8
  type : BitVec 8
  payload : List UInt8

def paddingSize (hasPadding : Bool) (payload : List UInt8) : Option Nat :=
  if hasPadding then do
    guard (payload.length ≠ 0)
    let paddingSize := (load8 payload (payload.length - 1)).toNat
    guard (paddingSize ≠ 0 ∧ paddingSize ≤ payload.length)
    return paddingSize
  else some 0

def CommonHeader.parse (buffer : List UInt8) : Option CommonHeader := do
  guard (4 ≤ buffer.length)
  guard (load8 buffer 0 >>> 6 = 2)
  let payloadSize := (load16 buffer 2).toNat * 4
  guard (4 + payloadSize ≤ buffer.length)
  let payload := (buffer.drop 4).take payloadSize
  let padding ← paddingSize (decide (load8 buffer 0 &&& 0x20 ≠ 0)) payload
  return ⟨load8 buffer 0 &&& 0x1F, load8 buffer 1, payload.take (payloadSize - padding)⟩

def headerByte (fmt : Nat) (padding : Bool) : BitVec 8 :=
  (2 <<< 6) ||| (if padding then 1 <<< 5 else 0) ||| BitVec.ofNat 8 fmt

def createHeader (fmt : Nat) (type : BitVec 8) (length : Nat) (padding : Bool) :
    Option (List UInt8) := do
  guard (length ≤ 0xffff)
  guard (fmt ≤ 0x1f)
  return bigEndian8 (headerByte fmt padding) ++ bigEndian8 type ++
    bigEndian16 (BitVec.ofNat 16 length)

theorem createHeader_eq_none {fmt length : Nat} {type : BitVec 8} {padding : Bool}
    (h : 0xffff < length) : createHeader fmt type length padding = none := by
  rw [createHeader, guard, if_neg (by omega)]
  rfl

theorem headerByte_fields {fmt : Nat} (h : fmt ≤ 0x1f) (padding : Bool) :
    headerByte fmt padding >>> 6 = 2 ∧ headerByte fmt padding &&& 0x1F = BitVec.ofNat 8 fmt ∧
      decide (headerByte fmt padding &&& 0x20 ≠ 0) = padding := by
  have hall : ∀ f : Fin 32, ∀ padding, headerByte f padding >>> 6 = 2 ∧
      headerByte f padding &&& 0x1F = BitVec.ofNat 8 f ∧
      decide (headerByte f padding &&& 0x20 ≠ 0) = padding := by decide
  exact hall ⟨fmt, by omega⟩ padding

theorem parse_createHeader {fmt : Nat} (hfmt : fmt ≤ 0x1f) (type : BitVec 8) {payload : List UInt8}
    {length : Nat} (hlength : payload.length = length * 4) (hmax : length ≤ 0xffff) :
    ∃ header, createHeader fmt type length false = some header ∧ header.length = 4 ∧
      CommonHeader.parse (header ++ payload) = some ⟨BitVec.ofNat 8 fmt, type, payload⟩ := by
  refine ⟨bigEndian8 (headerByte fmt false) ++ bigEndian8 type ++ bigEndian16 (BitVec.ofNat 16 length),
    by simp [createHeader, guard, hmax, hfmt], rfl, ?_⟩
  obtain ⟨hversion, hformat, hpadding⟩ := headerByte_fields hfmt false
  generalize hbuf : bigEndian8 (headerByte fmt false) ++ bigEndian8 type ++
    bigEndian16 (BitVec.ofNat 16 length) ++ payload = buf
  have hfirst : load8 buf 0 = headerByte fmt false := by rw [← hbuf]; rfl
  have hsecond : load8 buf 1 = type := by rw [← hbuf]; rfl
  have hsize : (load16 buf 2).toNat = length := by
    have hload : load16 buf 2 = BitVec.ofNat 16 length := by
      rw [← hbuf, List.append_assoc]
      exact (load16_append_right (bigEndian8 _ ++ bigEndian8 type) _ 0).trans
        (load16_bigEndian16_append ..)
    rw [hload, BitVec.toNat_ofNat]
    omega
  have hdrop : buf.drop 4 = payload := by rw [← hbuf]; rfl
  have htotal : buf.length = 4 + payload.length := by
    rw [← hbuf, List.length_append]
    rfl
  have htake : payload.take (length * 4) = payload := List.take_of_length_le hlength.le
  rw [CommonHeader.parse, hfirst, hsecond, hsize, hdrop, hpadding, hformat]
  dsimp only
  rw [htake, htotal, hlength]
  simp [guard, hversion, paddingSize, htake]

end WebRtc.Rtp
