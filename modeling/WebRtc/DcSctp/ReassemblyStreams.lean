import WebRtc.DcSctp.Types

/-! What the two kinds of reassembly streams (`rx/reassembly_streams`) share: assembled messages
and skipped streams. -/

namespace WebRtc.DcSctp

/-- The arguments of an `OnAssembledMessage` callback. -/
structure Assembled where
  tsns : List Int
  message : DcSctpMessage
  deriving DecidableEq, Repr

/-- A skipped stream of a FORWARD-TSN (`ssn`) or I-FORWARD-TSN (`unordered`, `mid`). -/
structure SkippedStream where
  streamId : StreamID
  ssn : SSN
  unordered : Bool
  mid : MID
  deriving DecidableEq, Repr

structure ForwardTsnChunk where
  newCumulativeTsn : TSN
  skippedStreams : List SkippedStream
  deriving DecidableEq, Repr

def assembleMessage : List (Int × Data) → List Assembled
  | [] => []
  | (tsn, data) :: rest =>
    [{ tsns := tsn :: rest.map Prod.fst
       message := ⟨data.streamId, data.ppid, data.payload ++ rest.flatMap fun c => c.2.payload⟩ }]

/-- The bytes that `AssembleMessage` reports: exact on its fast path for one fragment. -/
def assembledBytes : List (Int × Data) → Nat
  | [c] => c.2.size
  | chunks => toSizeT (accumulateInt (chunks.map fun c => c.2.size))

theorem assembledBytes_eq {chunks : List (Int × Data)}
    (h : (chunks.map fun c => c.2.size).sum < 2 ^ 31) :
    assembledBytes chunks = (chunks.map fun c => c.2.size).sum := by
  match chunks with
  | [] => rfl
  | [c] => simp [assembledBytes]
  | _ :: _ :: _ => exact toSizeT_accumulateInt h

end WebRtc.DcSctp
