import WebRtc.DcSctp.Types

/-! Cleaning of received SACK chunks (`packet/chunk_validators`). -/

namespace WebRtc.DcSctp.ChunkValidators

def validateFrom : Nat → List GapAckBlock → Bool
  | _, [] => true
  | prevEnd, block :: blocks =>
    if block.end < block.start then false
    else if block.start.toNat ≤ prevEnd + 1 then false
    else validateFrom block.end.toNat blocks

def validate (sack : SackChunk) : Bool := validateFrom 0 sack.gapAckBlocks

def merge : GapAckBlock → List GapAckBlock → List GapAckBlock
  | back, [] => [back]
  | back, block :: blocks =>
    if block.start.toNat ≤ back.end.toNat + 1 then
      merge { back with «end» := max back.end block.end } blocks
    else back :: merge block blocks

def cleanBlocks (gapAckBlocks : List GapAckBlock) : List GapAckBlock :=
  match (gapAckBlocks.filter fun block => block.start < block.end).insertionSort
      (fun a b => a.start ≤ b.start) with
  | [] => []
  | first :: rest => merge first rest

def clean (sack : SackChunk) : SackChunk :=
  if validate sack then sack else { sack with gapAckBlocks := cleanBlocks sack.gapAckBlocks }

end WebRtc.DcSctp.ChunkValidators
