import WebRtc.DcSctp.Packet.SctpPacket

/-! The spans that the parsers of packets and of parameters return. Both loops advance by a length
that is rounded up as a `uint16_t`, and for the three largest lengths this is zero. -/

namespace WebRtc.DcSctp

open ByteBuffer List

namespace Parameters

theorem lengthWithPadding_eq (length : BitVec 16) :
    lengthWithPadding length = if length.toNat ≤ 65532 then roundUpTo4 length.toNat else 0 := by
  have h := length.isLt
  rw [lengthWithPadding, BitVec.toNat_ofNat]
  split <;> simp only [roundUpTo4] <;> omega

theorem four_dvd_lengthWithPadding (length : BitVec 16) : 4 ∣ lengthWithPadding length := by
  rw [lengthWithPadding_eq]
  split
  · simp only [roundUpTo4]
    omega
  · exact dvd_zero 4

end Parameters

open Parameters

namespace SctpPacket

/-- What is left after a round of the loop of `Parse`, if there is another one. -/
def nextChunk (data : List UInt8) : Option (List UInt8) :=
  let paddedLength := Parameters.lengthWithPadding (load16 data 2)
  if data.length < 4 ∨ data.length < paddedLength ∨ paddedLength < 4 then none
  else some (data.drop paddedLength)

inductive LoopEnds : List UInt8 → Prop
  | stop {data : List UInt8} (h : nextChunk data = none) : LoopEnds data
  | next {data rest : List UInt8} (h : nextChunk data = some rest) (hr : LoopEnds rest) :
      LoopEnds data

theorem nextChunk_eq_some {data rest : List UInt8} (h : nextChunk data = some rest) :
    4 ≤ data.length ∧ 4 ≤ lengthWithPadding (load16 data 2) ∧
      lengthWithPadding (load16 data 2) ≤ data.length ∧
      rest = data.drop (lengthWithPadding (load16 data 2)) := by
  simp only [nextChunk] at h
  split at h
  · cases h
  · next hc =>
    cases h
    exact ⟨by omega, by omega, by omega, rfl⟩

theorem length_nextChunk {data rest : List UInt8} (h : nextChunk data = some rest) :
    rest.length < data.length := by
  obtain ⟨_, h4, hle, rfl⟩ := nextChunk_eq_some h
  rw [length_drop]
  omega

theorem loopEnds (data : List UInt8) : LoopEnds data := by
  induction hn : data.length using Nat.strong_induction_on generalizing data with
  | _ n ih =>
    cases h : nextChunk data with
    | none => exact .stop h
    | some rest => exact .next h (ih _ (hn ▸ length_nextChunk h) rest rfl)

theorem parseDescriptors_succ (fuel : Nat) (data : List UInt8) :
    parseDescriptors (fuel + 1) data =
      match nextChunk data with
      | none => if data.isEmpty then some [] else none
      | some rest => (parseDescriptors fuel rest).map
        (⟨load8 data 0, load8 data 1,
          data.take (lengthWithPadding (load16 data 2))⟩ :: ·) := by
  rw [parseDescriptors, nextChunk]
  by_cases he : data.isEmpty = true
  · have hl : data.length < 4 := by
      rw [isEmpty_iff.mp he]
      decide
    rw [if_pos he, if_pos (.inl hl)]
    exact (if_pos he).symm
  · rw [if_neg he]
    dsimp only
    by_cases hl : data.length < 4
    · rw [if_pos hl, if_pos (.inl hl)]
      exact (if_neg he).symm
    · rw [if_neg hl]
      by_cases hp : data.length < lengthWithPadding (load16 data 2)
      · rw [if_pos hp, if_pos (.inr (.inl hp))]
        exact (if_neg he).symm
      · rw [if_neg hp]
        by_cases h4 : lengthWithPadding (load16 data 2) < 4
        · rw [if_pos h4, if_pos (.inr (.inr h4))]
          exact (if_neg he).symm
        · rw [if_neg h4, if_neg (by omega)]

theorem parseDescriptors_fuel {fuel fuel' : Nat} {data : List UInt8} (h : data.length < fuel)
    (h' : data.length < fuel') : parseDescriptors fuel data = parseDescriptors fuel' data := by
  induction fuel generalizing data fuel' with
  | zero => omega
  | succ fuel ih =>
    cases fuel' with
    | zero => omega
    | succ fuel' =>
      rw [parseDescriptors_succ, parseDescriptors_succ]
      cases hn : nextChunk data with
      | none => rfl
      | some rest =>
        have hlt := length_nextChunk hn
        have hr : parseDescriptors fuel rest = parseDescriptors fuel' rest :=
          ih (by omega) (by omega)
        dsimp only
        rw [hr]

theorem parseDescriptors_spans {fuel : Nat} {data : List UInt8} {ds : List ChunkDescriptor}
    (h : parseDescriptors fuel data = some ds) :
    (ds.map (·.data)).flatten = data ∧ ∀ d ∈ ds, 4 ≤ d.data.length ∧ 4 ∣ d.data.length := by
  induction fuel generalizing data ds with
  | zero => cases h
  | succ fuel ih =>
    rw [parseDescriptors_succ] at h
    cases hn : nextChunk data with
    | none =>
      rw [hn] at h
      dsimp only at h
      split at h
      · next he =>
        cases h
        exact ⟨(isEmpty_iff.mp he).symm, by simp⟩
      · cases h
    | some rest =>
      rw [hn] at h
      obtain ⟨ds', hd, rfl⟩ := Option.map_eq_some_iff.mp h
      obtain ⟨_, h4, hle, rfl⟩ := nextChunk_eq_some hn
      obtain ⟨hcover, hall⟩ := ih hd
      refine ⟨?_, fun d hmem => ?_⟩
      · rw [map_cons, flatten_cons, hcover, take_append_drop]
      · rcases mem_cons.mp hmem with rfl | hmem
        · rw [length_take, Nat.min_eq_left hle]
          exact ⟨h4, four_dvd_lengthWithPadding _⟩
        · exact hall d hmem

theorem parse_spans {crc : List UInt8 → BitVec 32} {data : List UInt8} {options : PacketOptions}
    {p : SctpPacket} (h : parse crc data options = some p) :
    12 ≤ data.length ∧ (p.descriptors.map (·.data)).flatten = data.drop 12 ∧
      ∀ d ∈ p.descriptors, 4 ≤ d.data.length ∧ 4 ∣ d.data.length := by
  rw [parse] at h
  split at h
  · cases h
  · next hsize =>
    dsimp only at h
    split at h
    · obtain ⟨ds, hd, rfl⟩ := Option.map_eq_some_iff.mp h
      exact ⟨by omega, parseDescriptors_spans hd⟩
    · cases h

end SctpPacket

namespace Parameters

/-- `d` is the span of `data` at some offset, of the length that its header states. -/
def SpanOf (data : List UInt8) (d : ParameterDescriptor) : Prop :=
  ∃ offset, offset + d.data.length ≤ data.length ∧
    d.data = (data.drop offset).take d.data.length ∧ 4 ≤ d.data.length ∧
    d.data.length = (load16 (data.drop offset) 2).toNat ∧ d.type = load16 (data.drop offset) 0

theorem SpanOf.of_drop {data : List UInt8} {d : ParameterDescriptor} {n : Nat}
    (hn : n ≤ data.length) (h : SpanOf (data.drop n) d) : SpanOf data d := by
  obtain ⟨offset, hle, hd, h4, hl, ht⟩ := h
  rw [length_drop] at hle
  rw [drop_drop] at hd hl ht
  exact ⟨n + offset, by omega, hd, h4, hl, ht⟩

variable {span : List UInt8}

theorem SpanOf.front (h4 : 4 ≤ (load16 span 2).toNat) (hle : (load16 span 2).toNat ≤ span.length) :
    SpanOf span ⟨load16 span 0, span.take (load16 span 2).toNat⟩ := by
  have hl : (span.take (load16 span 2).toNat).length = (load16 span 2).toNat := by
    rw [length_take, Nat.min_eq_left hle]
  refine ⟨0, ?_, ?_, ?_, ?_, rfl⟩
  · rw [hl]
    omega
  · rw [hl]
    rfl
  · rw [hl]
    exact h4
  · rw [hl]
    rfl

theorem validateFrom_wrapped (hz : lengthWithPadding (load16 span 2) = 0)
    (fuel : Nat) (hl : ¬ span.length < 4) (he : ¬ span.isEmpty = true) :
    validateFrom fuel span = false := by
  induction fuel with
  | zero => rfl
  | succ fuel ih =>
    rw [validateFrom, if_neg he, if_neg hl]
    dsimp only
    split
    · rfl
    · rw [hz, if_neg (Nat.not_lt_zero _), drop_zero, ih]

theorem descriptorsFrom_of_validateFrom {fuel fuel' : Nat}
    (h : validateFrom fuel span = true) (hf : span.length < fuel') :
    validateFrom fuel' span = true ∧
      ∃ ds, descriptorsFrom fuel' span = some ds ∧ ∀ d ∈ ds, SpanOf span d := by
  induction fuel generalizing fuel' span with
  | zero => cases h
  | succ fuel ih =>
    obtain ⟨n, rfl⟩ := Nat.exists_eq_succ_of_ne_zero (Nat.ne_of_gt (Nat.zero_lt_of_lt hf))
    rw [validateFrom] at h ⊢
    rw [descriptorsFrom]
    by_cases he : span.isEmpty = true
    · rw [if_pos he, if_pos he]
      exact ⟨rfl, [], rfl, by simp⟩
    · rw [if_neg he] at h ⊢
      rw [if_neg he]
      by_cases hl : span.length < 4
      · rw [if_pos hl] at h
        cases h
      · rw [if_neg hl] at h ⊢
        rw [if_neg hl]
        dsimp only at h ⊢
        by_cases hv : (load16 span 2).toNat < 4 ∨ span.length < (load16 span 2).toNat
        · rw [if_pos hv] at h
          cases h
        · rw [if_neg hv] at h ⊢
          have h4 : 4 ≤ (load16 span 2).toNat := by omega
          have hle : (load16 span 2).toNat ≤ span.length := by omega
          have hfront := SpanOf.front h4 hle
          by_cases hp : span.length < lengthWithPadding (load16 span 2)
          · rw [if_pos hp, if_pos hp]
            exact ⟨rfl, _, rfl, by simpa using hfront⟩
          · rw [if_neg hp] at h ⊢
            rw [if_neg hp]
            have hpos : lengthWithPadding (load16 span 2) ≠ 0 := by
              intro hz
              rw [hz, drop_zero, validateFrom_wrapped hz fuel] at h
              · cases h
              · exact hl
              · exact he
            have hshort : (span.drop (lengthWithPadding (load16 span 2))).length < n := by
              rw [length_drop]
              omega
            obtain ⟨hval, ds, hds, hspans⟩ := ih h hshort
            refine ⟨hval, _, by rw [hds, Option.map_some], fun d hd => ?_⟩
            rcases mem_cons.mp hd with rfl | hd
            · exact hfront
            · exact (hspans d hd).of_drop (by omega)

theorem parse_of_validateFrom {fuel : Nat} {data : List UInt8}
    (h : validateFrom fuel data = true) : parse data = some ⟨data⟩ := by
  rw [parse, if_pos (descriptorsFrom_of_validateFrom h (Nat.lt_succ_self _)).1]

theorem descriptors_of_parse {data : List UInt8} {ps : Parameters} (h : parse data = some ps) :
    ∃ ds, ps.descriptors = some ds ∧ ∀ d ∈ ds, SpanOf data d := by
  rw [parse] at h
  split at h
  · next hv =>
    cases h
    exact (descriptorsFrom_of_validateFrom hv (Nat.lt_succ_self _)).2
  · cases h

end Parameters

/-- `SctpPacket::Parse` ends, and what it accepts is covered by its chunks. `Parameters::Parse`
accepts what its loop accepts after any number of rounds, and then `descriptors` ends with spans of
the data. -/
theorem parsed_spans (data : List UInt8) : SctpPacket.LoopEnds (data.drop 12) ∧
    (∀ fuel, (data.drop 12).length < fuel → SctpPacket.parseDescriptors fuel (data.drop 12) =
      SctpPacket.parseDescriptors (data.length + 1) (data.drop 12)) ∧
    (∀ crc options p, SctpPacket.parse crc data options = some p →
      12 ≤ data.length ∧ (p.descriptors.map (·.data)).flatten = data.drop 12 ∧
        ∀ d ∈ p.descriptors, 4 ≤ d.data.length ∧ 4 ∣ d.data.length) ∧
    (∀ fuel, Parameters.validateFrom fuel data = true → Parameters.parse data = some ⟨data⟩) ∧
    ∀ ps, Parameters.parse data = some ps →
      ∃ ds, ps.descriptors = some ds ∧ ∀ d ∈ ds, Parameters.SpanOf data d := by
  refine ⟨SctpPacket.loopEnds _, fun fuel hf => ?_, fun _ _ _ => SctpPacket.parse_spans,
    fun _ => parse_of_validateFrom, fun _ => descriptors_of_parse⟩
  refine SctpPacket.parseDescriptors_fuel hf ?_
  rw [length_drop]
  omega

def emptyChunkPacket : List UInt8 := List.replicate 12 0 ++ [0, 0, 0, 4]

theorem parsed_spans_empty_chunk :
    ∃ p, SctpPacket.parse (fun _ => 0) emptyChunkPacket ⟨5000, 5000, 1191, true, 0⟩ = some p ∧
      p.descriptors = [⟨0, 0, [0, 0, 0, 4]⟩] ∧
      (p.descriptors.map (·.data)).flatten = emptyChunkPacket.drop 12 := by
  have hrun : (SctpPacket.parse (fun _ => 0) emptyChunkPacket ⟨5000, 5000, 1191, true, 0⟩).any
      (fun p => decide (p.descriptors = [⟨0, 0, [0, 0, 0, 4]⟩])) = true := by decide
  obtain ⟨p, hp, hd⟩ := Option.any_eq_true .. |>.mp hrun
  exact ⟨p, hp, of_decide_eq_true hd, ((parsed_spans emptyChunkPacket).2.2.1 _ _ p hp).2.1⟩

end WebRtc.DcSctp
