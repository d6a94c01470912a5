import WebRtc.Lib.ByteBuffer

/-! NAL units behind start codes, as an encoder hands them over, and behind 16-bit lengths, as
they lie in an aggregation packet. -/

namespace WebRtc.Rtp

open ByteBuffer List

structure NaluIndex where
  startOffset : Nat
  payloadStartOffset : Nat
  payloadSize : Nat
deriving DecidableEq, Repr

/-- The loop of `FindNaluIndices` at offset `i`, before the bytes left and after the byte `prev`.
An entry is the start offset and the payload's start offset. -/
def scanStartSequences (prev : Option UInt8) (i : Nat) : List UInt8 → List (Nat × Nat)
  | a :: b :: c :: d :: rest =>
    if c > 1 then scanStartSequences (some c) (i + 3) (d :: rest)
    else if c = 1 then
      if b = 0 ∧ a = 0 then
        (if prev = some 0 then i - 1 else i, i + 3) ::
          scanStartSequences (some c) (i + 3) (d :: rest)
      else scanStartSequences (some c) (i + 3) (d :: rest)
    else scanStartSequences (some a) (i + 1) (b :: c :: d :: rest)
  | _ => []

def payloadSizes (bufferSize : Nat) : List (Nat × Nat) → List NaluIndex
  | [] => []
  | [(start, payload)] => [⟨start, payload, bufferSize - payload⟩]
  | (start, payload) :: (next, nextPayload) :: rest =>
    ⟨start, payload, next - payload⟩ :: payloadSizes bufferSize ((next, nextPayload) :: rest)

def findNaluIndices (buffer : List UInt8) : List NaluIndex :=
  if buffer.length < 3 then [] else payloadSizes buffer.length (scanStartSequences none 0 buffer)

def subview (data : List UInt8) (offset size : Nat) : List UInt8 := (data.drop offset).take size

def inputFragments (payload : List UInt8) : List (List UInt8) :=
  (findNaluIndices payload).map fun nalu => subview payload nalu.payloadStartOffset nalu.payloadSize

def startSequence (long : Bool) : List UInt8 := if long then [0, 0, 0, 1] else [0, 0, 1]

def annexB (units : List (Bool × List UInt8)) : List UInt8 :=
  units.flatMap fun unit => startSequence unit.1 ++ unit.2

structure IsNalu (nalu : List UInt8) : Prop where
  ne_nil : nalu ≠ []
  no_start : ¬ [0, 0, 1] <:+: nalu
  last_ne : nalu.getLast? ≠ some 0

variable {d : UInt8}

section Scan

variable {prev : Option UInt8} {i : Nat} {a b c : UInt8} {nalu rest : List UInt8}

theorem no_start_of_suffix {tail : List UInt8} (h : ¬ [0, 0, 1] <:+: nalu) (ht : tail <:+ nalu) :
    ¬ [0, 0, 1] <:+: tail :=
  fun hin => h (hin.trans ht.isInfix)

theorem not_start_of_head (h : ¬ [0, 0, 1] <:+: a :: b :: 1 :: rest) : ¬ (b = 0 ∧ a = 0) := by
  rintro ⟨rfl, rfl⟩
  exact h ⟨[], rest, rfl⟩

theorem byte_cases (c : UInt8) : c > 1 ∨ c = 1 ∨ c = 0 := by
  by_cases h : c > 1
  · exact .inl h
  · have hle : c.toNat ≤ 1 := UInt8.le_iff_toNat_le.mp (UInt8.not_lt.mp h)
    rcases Nat.le_one_iff_eq_zero_or_eq_one.mp hle with h0 | h1
    · exact .inr (.inr (UInt8.toNat_inj.mp h0))
    · exact .inr (.inl (UInt8.toNat_inj.mp h1))

theorem scan_skip (hc : c > 1) : scanStartSequences prev i (a :: b :: c :: d :: rest) =
      scanStartSequences (some c) (i + 3) (d :: rest) := by
  rw [scanStartSequences, if_pos hc]

theorem scan_one (hab : ¬ (b = 0 ∧ a = 0)) : scanStartSequences prev i (a :: b :: 1 :: d :: rest) =
      scanStartSequences (some 1) (i + 3) (d :: rest) := by
  rw [scanStartSequences, if_neg (by decide), if_pos rfl, if_neg hab]

theorem scan_zero : scanStartSequences prev i (a :: b :: 0 :: d :: rest) =
      scanStartSequences (some a) (i + 1) (b :: 0 :: d :: rest) := by
  rw [scanStartSequences, if_neg (by decide), if_neg (by decide)]

theorem scan_short (h : nalu.length ≤ 3) : scanStartSequences prev i nalu = [] := by
  match nalu, h with
  | [], _ => rfl
  | [_], _ => rfl
  | [_, _], _ => rfl
  | [_, _, _], _ => rfl

theorem scan_tail (n : Nat) (hn : nalu.length ≤ n) (h : ¬ [0, 0, 1] <:+: nalu) :
    scanStartSequences prev i nalu = [] := by
  induction n generalizing nalu prev i with
  | zero => exact scan_short (by omega)
  | succ n ih =>
    match nalu, hn, h with
    | [], _, _ => rfl
    | [_], _, _ => rfl
    | [_, _], _, _ => rfl
    | [_, _, _], _, _ => rfl
    | a :: b :: c :: d :: rest, hn, h =>
      have hskip : ¬ [0, 0, 1] <:+: d :: rest := no_start_of_suffix h ⟨[a, b, c], rfl⟩
      have hstep : ¬ [0, 0, 1] <:+: b :: c :: d :: rest := no_start_of_suffix h ⟨[a], rfl⟩
      simp only [length_cons] at hn
      rcases byte_cases c with hc | rfl | rfl
      · rw [scan_skip hc]
        exact ih (by simp only [length_cons]; omega) hskip
      · rw [scan_one (not_start_of_head h)]
        exact ih (by simp only [length_cons]; omega) hskip
      · rw [scan_zero]
        exact ih (by simp only [length_cons]; omega) hstep

theorem scan_nalu (n : Nat) (hn : nalu.length ≤ n) (hnalu : IsNalu nalu) (hrest : rest ≠ []) :
    scanStartSequences prev i (nalu ++ 0 :: 0 :: rest) =
      scanStartSequences nalu.getLast? (i + nalu.length) (0 :: 0 :: rest) := by
  obtain ⟨r, rs, rfl⟩ := exists_cons_of_ne_nil hrest
  induction n generalizing nalu prev i with
  | zero => exact absurd (List.length_eq_zero_iff.mp (by omega)) hnalu.ne_nil
  | succ n ih =>
    obtain ⟨hne, hstart, hlast⟩ := hnalu
    match nalu, hne, hn, hstart, hlast with
    | [a], _, _, _, _ => exact scan_zero
    | [a, b], _, _, hstart, hlast =>
      rw [cons_append, cons_append, nil_append, scan_zero]
      exact scan_zero
    | a :: b :: c :: tail, _, hn, hstart, hlast =>
      have hskip : ¬ [0, 0, 1] <:+: tail := no_start_of_suffix hstart ⟨[a, b, c], rfl⟩
      have hstep : ¬ [0, 0, 1] <:+: b :: c :: tail := no_start_of_suffix hstart ⟨[a], rfl⟩
      obtain ⟨d, ds, hd⟩ : ∃ d ds, tail ++ 0 :: 0 :: r :: rs = d :: ds :=
        exists_cons_of_ne_nil (by simp)
      -- a skip of three ends behind `c`, inside the unit or at its end
      have hjump : scanStartSequences (some c) (i + 3) (d :: ds) =
          scanStartSequences (a :: b :: c :: tail).getLast?
            (i + (a :: b :: c :: tail).length) (0 :: 0 :: r :: rs) := by
        by_cases ht : tail = []
        · subst ht
          rw [← hd]
          rfl
        · have hlast' : (a :: b :: c :: tail).getLast? = tail.getLast? := by
            rw [List.getLast?_cons_cons, List.getLast?_cons_cons, List.getLast?_cons_of_ne_nil ht]
          rw [← hd, hlast', ih (by simp at hn; omega) ⟨ht, hskip, hlast' ▸ hlast⟩]
          congr 1
          simp only [length_cons]
          omega
      rw [cons_append, cons_append, cons_append, hd]
      rcases byte_cases c with hc | rfl | rfl
      · rw [scan_skip hc, hjump]
      · rw [scan_one (not_start_of_head hstart), hjump]
      · rw [scan_zero, ← hd]
        have hlast' : (a :: b :: 0 :: tail).getLast? = (b :: 0 :: tail).getLast? :=
          List.getLast?_cons_cons
        have hih : scanStartSequences (some a) (i + 1) (b :: 0 :: (tail ++ 0 :: 0 :: r :: rs)) =
            scanStartSequences (b :: 0 :: tail).getLast? (i + 1 + (b :: 0 :: tail).length)
              (0 :: 0 :: r :: rs) :=
          ih (by simp at hn ⊢; omega) ⟨by simp, hstep, hlast' ▸ hlast⟩
        rw [hih, hlast']
        congr 1
        simp only [length_cons]
        omega

end Scan

def unitStarts (offset : Nat) : List (Bool × List UInt8) → List (Nat × Nat)
  | [] => []
  | unit :: rest =>
    (offset, offset + (startSequence unit.1).length) ::
      unitStarts (offset + (startSequence unit.1).length + unit.2.length) rest

theorem annexB_cons (unit : Bool × List UInt8) (rest : List (Bool × List UInt8)) :
    annexB (unit :: rest) = startSequence unit.1 ++ (unit.2 ++ annexB rest) := by
  simp only [annexB, flatMap_cons, append_assoc]

theorem scan_startSequence {prev : Option UInt8} {i : Nat} {long : Bool}
    {rest : List UInt8} (hprev : prev ≠ some 0) :
    scanStartSequences prev i (startSequence long ++ d :: rest) =
      (i, i + (startSequence long).length) ::
        scanStartSequences (some 1) (i + (startSequence long).length) (d :: rest) := by
  cases long with
  | false =>
    show scanStartSequences prev i (0 :: 0 :: 1 :: d :: rest) = _
    rw [scanStartSequences, if_neg (by decide), if_pos rfl, if_pos ⟨rfl, rfl⟩, if_neg hprev]
    rfl
  | true =>
    show scanStartSequences prev i (0 :: 0 :: 0 :: 1 :: d :: rest) = _
    rw [scan_zero, scanStartSequences, if_neg (by decide), if_pos rfl, if_pos ⟨rfl, rfl⟩,
      if_pos rfl]
    rfl

theorem annexB_head {unit : Bool × List UInt8} (rest : List (Bool × List UInt8))
    (hunit : unit.2 ≠ []) : ∃ tail, tail ≠ [] ∧ annexB (unit :: rest) = 0 :: 0 :: tail := by
  obtain ⟨long, nalu⟩ := unit
  cases long with
  | false => exact ⟨1 :: nalu ++ annexB rest, by simp, by simp [annexB, startSequence]⟩
  | true => exact ⟨0 :: 1 :: nalu ++ annexB rest, by simp, by simp [annexB, startSequence]⟩

variable {units : List (Bool × List UInt8)}

theorem scan_annexB (hunits : ∀ unit ∈ units, IsNalu unit.2)
    {prev : Option UInt8} (hprev : prev ≠ some 0) (i : Nat) :
    scanStartSequences prev i (annexB units) = unitStarts i units := by
  induction units generalizing prev i with
  | nil => rfl
  | cons unit rest ih =>
    have hunit := hunits unit mem_cons_self
    have hrest : ∀ other ∈ rest, IsNalu other.2 :=
      fun other h => hunits other (mem_cons_of_mem _ h)
    obtain ⟨d, ds, hd⟩ := exists_cons_of_ne_nil hunit.ne_nil
    have hsplit : annexB (unit :: rest) = startSequence unit.1 ++ d :: (ds ++ annexB rest) := by
      rw [annexB_cons, hd, cons_append]
    rw [hsplit, scan_startSequence hprev, ← cons_append, ← hd, unitStarts]
    congr 1
    cases rest with
    | nil =>
      rw [annexB, flatMap_nil, append_nil]
      exact scan_tail _ le_rfl hunit.no_start
    | cons next rest =>
      obtain ⟨tail, htail, heq⟩ :=
        annexB_head rest (hrest next mem_cons_self).ne_nil
      rw [heq, scan_nalu _ le_rfl hunit htail, ← heq]
      exact ih hrest hunit.last_ne _

theorem subviews_unitStarts (units : List (Bool × List UInt8)) (before : List UInt8) :
    (payloadSizes (before ++ annexB units).length (unitStarts before.length units)).map
        (fun nalu => subview (before ++ annexB units) nalu.payloadStartOffset nalu.payloadSize) =
      units.map Prod.snd := by
  induction units generalizing before with
  | nil => rfl
  | cons unit rest ih =>
    have hsplit : before ++ annexB (unit :: rest) =
        (before ++ startSequence unit.1) ++ (unit.2 ++ annexB rest) := by
      rw [annexB_cons, append_assoc]
    have hfirst : subview (before ++ annexB (unit :: rest))
        (before.length + (startSequence unit.1).length) unit.2.length = unit.2 := by
      rw [hsplit, ← length_append, subview, drop_left, take_left]
    cases rest with
    | nil =>
      have hsize : (before ++ annexB [unit]).length -
          (before.length + (startSequence unit.1).length) = unit.2.length := by
        rw [annexB_cons, annexB, flatMap_nil, append_nil]
        simp only [length_append]
        omega
      simp only [unitStarts, payloadSizes, map_cons, map_nil, hsize, hfirst]
    | cons next rest =>
      have hih := ih (before ++ startSequence unit.1 ++ unit.2)
      have hwhole : before ++ startSequence unit.1 ++ unit.2 ++ annexB (next :: rest) =
          before ++ annexB (unit :: next :: rest) := by
        rw [hsplit, ← append_assoc]
      have hlen : (before ++ startSequence unit.1 ++ unit.2).length =
          before.length + (startSequence unit.1).length + unit.2.length := by
        simp only [length_append]
      rw [hwhole, hlen] at hih
      simp only [unitStarts, payloadSizes, map_cons, Nat.add_sub_cancel_left, hfirst]
      congr 1

theorem inputFragments_annexB (hunits : ∀ unit ∈ units, IsNalu unit.2) :
    inputFragments (annexB units) = units.map Prod.snd := by
  cases units with
  | nil => rfl
  | cons unit rest =>
    have hlen : ¬ (annexB (unit :: rest)).length < 3 := by
      obtain ⟨tail, htail, heq⟩ := annexB_head rest (hunits unit mem_cons_self).ne_nil
      have hpos := List.length_pos_iff.mpr htail
      rw [heq, length_cons, length_cons]
      omega
    have hsub := subviews_unitStarts (unit :: rest) []
    rw [nil_append] at hsub
    rw [inputFragments, findNaluIndices, if_neg hlen, scan_annexB hunits (by simp)]
    exact hsub

def startCode : List UInt8 := [0, 0, 0, 1]

def withStartCodes (units : List (List UInt8)) : List UInt8 := units.flatMap (startCode ++ ·)

def lengthPrefixed (units : List (List UInt8)) : List UInt8 :=
  units.flatMap fun unit => bigEndian16 (BitVec.ofNat 16 unit.length) ++ unit

/-- `ParseStapAStartOffsets` and `ParseApStartOffsets`, which differ in the size of the header
before the first unit. -/
def parseStartOffsets (headerSize : Nat) : Nat → Nat → List UInt8 → Option (List Nat)
  | 0, _, data => if data = [] then some [] else none
  | fuel + 1, offset, data =>
    if data = [] then some []
    else if data.length < 2 then none
    else
      let naluSize := (load16 data 0).toNat
      if naluSize > data.length - 2 then none
      else do
        let offsets ← parseStartOffsets headerSize fuel (offset + 2 + naluSize)
          (data.drop (2 + naluSize))
        return (offset + headerSize) :: offsets

def naluRanges (endOffset : Nat) : List Nat → List (Nat × Nat)
  | [] => []
  | [start] => [(start, endOffset - 2)]
  | start :: next :: rest => (start, next - 2) :: naluRanges endOffset (next :: rest)

/-- The loop in which the trackers turn length fields into start codes, until at most `slack`
bytes are left. A byte behind the end is read as zero: the loop gives up there in any case. -/
def copySegments (slack : Nat) : Nat → List UInt8 → Option (List UInt8)
  | 0, data => if data.length ≤ slack then some [] else none
  | fuel + 1, data =>
    if data.length ≤ slack then some []
    else
      let segmentLength := (load16 data 0).toNat
      if 2 + segmentLength > data.length then none
      else do
        let rest ← copySegments slack fuel (data.drop (2 + segmentLength))
        return startCode ++ (data.drop 2).take segmentLength ++ rest

theorem bigEndian16_load16 {data : List UInt8} (h : 2 ≤ data.length) :
    bigEndian16 (load16 data 0) ++ data.drop 2 = data := by
  match data, h with
  | a :: b :: rest, _ =>
    show bigEndian16 (a.toBitVec ++ b.toBitVec) ++ rest = a :: b :: rest
    have ha : (a.toBitVec ++ b.toBitVec).extractLsb' 8 8 = a.toBitVec :=
      BitVec.extractLsb'_append_eq_left
    have hb : (a.toBitVec ++ b.toBitVec).extractLsb' 0 8 = b.toBitVec :=
      BitVec.extractLsb'_append_eq_right
    rw [bigEndian16, ha, hb]
    rfl

theorem lengthPrefixed_cons (unit : List UInt8) (rest : List (List UInt8)) :
    lengthPrefixed (unit :: rest) =
      bigEndian16 (BitVec.ofNat 16 unit.length) ++ (unit ++ lengthPrefixed rest) := by
  simp only [lengthPrefixed, flatMap_cons, append_assoc]

theorem withStartCodes_cons (unit : List UInt8) (rest : List (List UInt8)) :
    withStartCodes (unit :: rest) = startCode ++ (unit ++ withStartCodes rest) := by
  simp only [withStartCodes, flatMap_cons, append_assoc]

theorem length_lengthPrefixed (units : List (List UInt8)) :
    (lengthPrefixed units).length = units.flatten.length + 2 * units.length := by
  induction units with
  | nil => rfl
  | cons unit rest ih =>
    simp only [lengthPrefixed_cons, flatten_cons, length_append, length_cons, ih,
      length_bigEndian16]
    omega

theorem length_withStartCodes (units : List (List UInt8)) :
    (withStartCodes units).length = units.flatten.length + 4 * units.length := by
  induction units with
  | nil => rfl
  | cons unit rest ih =>
    simp only [withStartCodes_cons, flatten_cons, length_append, length_cons, ih,
      startCode, length_nil]
    omega

theorem split_unit {data : List UInt8} (h : 2 + (load16 data 0).toNat ≤ data.length) :
    ∃ unit, unit.length = (load16 data 0).toNat ∧ unit = (data.drop 2).take unit.length ∧
      data = bigEndian16 (BitVec.ofNat 16 unit.length) ++
        (unit ++ data.drop (2 + unit.length)) := by
  have hlen : ((data.drop 2).take (load16 data 0).toNat).length = (load16 data 0).toNat := by
    rw [length_take, length_drop]
    omega
  refine ⟨(data.drop 2).take (load16 data 0).toNat, hlen, by rw [hlen], ?_⟩
  rw [hlen, BitVec.ofNat_toNat, BitVec.setWidth_eq, ← drop_drop, take_append_drop,
    bigEndian16_load16 (by omega)]

theorem parseStartOffsets_cases {headerSize fuel offset : Nat} {data : List UInt8}
    {offsets : List Nat} (h : parseStartOffsets headerSize fuel offset data = some offsets) :
    (data = [] ∧ offsets = []) ∨
      ∃ rest fuel', fuel = fuel' + 1 ∧ 2 + (load16 data 0).toNat ≤ data.length ∧
        parseStartOffsets headerSize fuel' (offset + 2 + (load16 data 0).toNat)
          (data.drop (2 + (load16 data 0).toNat)) = some rest ∧
        offsets = (offset + headerSize) :: rest := by
  by_cases hdata : data = []
  · left
    cases fuel <;> simp_all [parseStartOffsets]
  · right
    cases fuel with
    | zero => simp [parseStartOffsets, hdata] at h
    | succ fuel =>
      rw [parseStartOffsets, if_neg hdata] at h
      split at h
      · cases h
      · simp only at h
        split at h
        · cases h
        · obtain ⟨rest, hrest, heq⟩ := Option.bind_eq_some_iff.mp h
          exact ⟨rest, fuel, rfl, by omega, hrest, (Option.some.inj heq).symm⟩

theorem parseStartOffsets_units {headerSize fuel offset : Nat} {data : List UInt8}
    {offsets : List Nat} (h : parseStartOffsets headerSize fuel offset data = some offsets)
    {before : List UInt8} (hbefore : before.length + 2 = offset + headerSize) :
    ∃ units, data = lengthPrefixed units ∧ offsets.length = units.length ∧
      (naluRanges ((before ++ data).length + 2) offsets).map
        (fun range => subview (before ++ data) range.1 (range.2 - range.1)) = units := by
  induction fuel generalizing offset data offsets before with
  | zero =>
    obtain ⟨rfl, rfl⟩ | ⟨_, _, hfuel, -⟩ := parseStartOffsets_cases h
    · exact ⟨[], rfl, rfl, rfl⟩
    · cases hfuel
  | succ fuel ih =>
    obtain ⟨rfl, rfl⟩ | ⟨rest, fuel', hfuel, hfits, hrest, rfl⟩ := parseStartOffsets_cases h
    · exact ⟨[], rfl, rfl, rfl⟩
    obtain rfl : fuel = fuel' := by omega
    obtain ⟨unit, hunit, -, hsplit⟩ := split_unit hfits
    rw [← hunit] at hrest
    generalize data.drop (2 + unit.length) = tail at hrest hsplit
    have hwhole : before ++ data =
        (before ++ bigEndian16 (BitVec.ofNat 16 unit.length) ++ unit) ++ tail := by
      rw [hsplit]
      simp only [append_assoc]
    have hlen : (before ++ bigEndian16 (BitVec.ofNat 16 unit.length) ++ unit).length + 2 =
        offset + 2 + unit.length + headerSize := by
      simp only [length_append, length_bigEndian16]
      omega
    obtain ⟨units, htail, hcount, hranges⟩ := ih hrest hlen
    rw [← hwhole] at hranges
    have hfirst (n : Nat) (hn : n = unit.length) :
        subview (before ++ data) (offset + headerSize) n = unit := by
      have hstart : offset + headerSize =
          (before ++ bigEndian16 (BitVec.ofNat 16 unit.length)).length := by
        rw [length_append, length_bigEndian16, hbefore]
      rw [hwhole, append_assoc _ unit, subview, hstart, drop_left, hn, take_left]
    refine ⟨unit :: units, by rw [hsplit, lengthPrefixed_cons, htail], by simp [hcount], ?_⟩
    obtain ⟨rfl, rfl⟩ | ⟨rest', _, -, -, -, rfl⟩ := parseStartOffsets_cases hrest
    · have hsize : (before ++ data).length + 2 - 2 - (offset + headerSize) = unit.length := by
        rw [hwhole, length_append, length_nil]
        omega
      rw [naluRanges, map_cons, hfirst _ hsize, ← hranges]
      rfl
    · have hsize : offset + 2 + unit.length + headerSize - 2 - (offset + headerSize) =
          unit.length := by omega
      rw [naluRanges, map_cons, hfirst _ hsize, ← hranges]

theorem copySegments_units {fuel : Nat} {data out : List UInt8}
    (h : copySegments 0 fuel data = some out) :
    ∃ units, data = lengthPrefixed units ∧ out = withStartCodes units := by
  induction fuel generalizing data out with
  | zero =>
    rw [copySegments] at h
    split at h
    · next hle =>
      obtain rfl := List.length_eq_zero_iff.mp (Nat.le_zero.mp hle)
      cases h
      exact ⟨[], rfl, rfl⟩
    · cases h
  | succ fuel ih =>
    rw [copySegments] at h
    split at h
    · next hle =>
      obtain rfl := List.length_eq_zero_iff.mp (Nat.le_zero.mp hle)
      cases h
      exact ⟨[], rfl, rfl⟩
    · simp only at h
      split at h
      · cases h
      · next hfits =>
        obtain ⟨rest, hrest, heq⟩ := Option.bind_eq_some_iff.mp h
        obtain ⟨unit, hunit, htake, hsplit⟩ := split_unit (Nat.not_lt.mp hfits)
        rw [← hunit] at hrest heq
        obtain ⟨units, htail, rfl⟩ := ih hrest
        refine ⟨unit :: units, ?_, ?_⟩
        · rw [lengthPrefixed_cons, ← htail, ← hsplit]
        · rw [withStartCodes_cons, ← Option.some.inj heq, ← htake, append_assoc]

def prefixedRanges (start : Nat) : List (List UInt8) → List (Nat × Nat)
  | [] => []
  | unit :: rest =>
    (start + 2, start + 2 + unit.length) :: prefixedRanges (start + 2 + unit.length) rest

section Forward

variable {unit : List UInt8} {units : List (List UInt8)}

theorem lengthPrefixed_head (hlen : unit.length < 65536) {bytes rest : List UInt8}
    (h : bigEndian16 (BitVec.ofNat 16 unit.length) ++ (unit ++ rest) = bytes) :
    (load16 bytes 0).toNat = unit.length ∧ bytes.drop (2 + unit.length) = rest ∧
      bytes.length = 2 + unit.length + rest.length := by
  subst h
  refine ⟨?_, ?_, ?_⟩
  · rw [load16_append _ (by rw [length_bigEndian16]), load16_bigEndian16, BitVec.toNat_ofNat]
    exact Nat.mod_eq_of_lt hlen
  · rw [← append_assoc]
    exact drop_left' (by rw [length_append, length_bigEndian16])
  · simp only [length_append, length_bigEndian16]
    omega

theorem parseStartOffsets_lengthPrefixed (hlen : ∀ unit ∈ units, unit.length < 65536)
    {headerSize fuel offset start : Nat} (hfuel : units.length ≤ fuel)
    (hstart : start + 2 = offset + headerSize) :
    parseStartOffsets headerSize fuel offset (lengthPrefixed units) =
      some ((prefixedRanges start units).map Prod.fst) := by
  induction units generalizing fuel offset start with
  | nil => cases fuel <;> rfl
  | cons unit rest ih =>
    obtain ⟨fuel, rfl⟩ : ∃ n, fuel = n + 1 := ⟨fuel - 1, by simp at hfuel; omega⟩
    obtain ⟨hload, hdrop, htotal⟩ :=
      lengthPrefixed_head (hlen unit mem_cons_self) (lengthPrefixed_cons unit rest).symm
    have hrest := ih (fun other h => hlen other (mem_cons_of_mem _ h))
      (show rest.length ≤ fuel by simpa using hfuel)
      (show start + 2 + unit.length + 2 = offset + 2 + unit.length + headerSize by omega)
    rw [parseStartOffsets, if_neg (ne_nil_of_length_pos (by omega)),
      if_neg (by omega)]
    simp only [hload, hdrop]
    rw [if_neg (by omega), hrest, prefixedRanges, map_cons, hstart]
    rfl

theorem naluRanges_prefixedRanges (start : Nat) (units : List (List UInt8)) :
    naluRanges (start + (lengthPrefixed units).length + 2)
      ((prefixedRanges start units).map Prod.fst) = prefixedRanges start units := by
  induction units generalizing start with
  | nil => rfl
  | cons unit rest ih =>
    have hih := ih (start + 2 + unit.length)
    have htotal : start + (lengthPrefixed (unit :: rest)).length =
        start + 2 + unit.length + (lengthPrefixed rest).length := by
      simp only [lengthPrefixed_cons, length_append, length_bigEndian16]
      omega
    rw [htotal]
    cases rest with
    | nil => rfl
    | cons next rest =>
      simp only [prefixedRanges, map_cons, naluRanges] at hih ⊢
      rw [hih]
      rfl

theorem copySegments_lengthPrefixed (hlen : ∀ unit ∈ units, unit.length < 65536)
    {slack fuel : Nat} (hslack : slack ≤ 1) (hfuel : units.length ≤ fuel) :
    copySegments slack fuel (lengthPrefixed units) = some (withStartCodes units) := by
  induction units generalizing fuel with
  | nil => cases fuel <;> rfl
  | cons unit rest ih =>
    obtain ⟨fuel, rfl⟩ : ∃ n, fuel = n + 1 := ⟨fuel - 1, by simp at hfuel; omega⟩
    obtain ⟨hload, hdrop, htotal⟩ :=
      lengthPrefixed_head (hlen unit mem_cons_self) (lengthPrefixed_cons unit rest).symm
    have htake : ((lengthPrefixed (unit :: rest)).drop 2).take unit.length = unit := by
      rw [lengthPrefixed_cons, drop_left' (length_bigEndian16 _), take_left]
    have hrest := ih (fun other h => hlen other (mem_cons_of_mem _ h))
      (show rest.length ≤ fuel by simpa using hfuel)
    rw [copySegments, if_neg (by omega)]
    simp only [hload, hdrop, htake]
    rw [if_neg (by omega), hrest, withStartCodes_cons, ← append_assoc]
    rfl

end Forward

end WebRtc.Rtp
