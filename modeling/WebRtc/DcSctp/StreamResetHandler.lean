import WebRtc.DcSctp.Packet.Parameter
import WebRtc.DcSctp.Receiver
import WebRtc.DcSctp.TrackedTsns
import WebRtc.Lib.Insertion

/-! Requests to reset streams (`socket/stream_reset_handler.cc`): what a repeated request is
answered, and what rejected requests and FORWARD-TSNs do to the sequence numbers that follow. -/

namespace WebRtc.DcSctp

open SeqNumUnwrapper

open ReconfigurationResponseParameter

inductive ResetRequest where
  | outgoing (requestSequenceNumber : ReconfigRequestSN) (senderLastAssignedTsn : TSN)
    (streamIds : List StreamID)
  | incoming (requestSequenceNumber : ReconfigRequestSN)

def ResetRequest.requestSequenceNumber : ResetRequest → ReconfigRequestSN
  | .outgoing sn _ _ => sn
  | .incoming sn => sn

structure StreamResetHandler where
  incomingReconfigRequestSnUnwrapper : SeqNumUnwrapper 32
  lastProcessedReqSeqNbr : Int
  lastProcessedReqResult : Result

namespace StreamResetHandler

def new (peerInitialTsn : TSN) : StreamResetHandler :=
  let (last, unwrapper) := SeqNumUnwrapper.pristine.unwrap (peerInitialTsn - 1)
  ⟨unwrapper, last, .kSuccessNothingToDo⟩

def response (sn : ReconfigRequestSN) (result : Result) : Parameter :=
  .reconfigurationResponse sn result none none

/-- The response that ends the handling of a request; none if the request is to be processed. -/
def validateReqSeqNbr (h : StreamResetHandler) (reqSeqNbr : Int) : Option Parameter :=
  if reqSeqNbr = h.lastProcessedReqSeqNbr then
    some (response (wrap 32 reqSeqNbr) h.lastProcessedReqResult)
  else if reqSeqNbr ≠ h.lastProcessedReqSeqNbr + 1 then
    some (response (wrap 32 reqSeqNbr) .kErrorBadSequenceNumber)
  else none

/-- What `HandleResetOutgoing` and `HandleResetIncoming` do with a valid request. -/
def process (h : StreamResetHandler) (requestSn : Int) (r : Receiver) :
    ResetRequest → StreamResetHandler × Receiver × Parameter
  | .outgoing sn senderLastAssignedTsn streamIds =>
    let result := if r.dataTracker.isLaterThanCumulativeAckedTsn senderLastAssignedTsn then
      Result.kInProgress else .kSuccessPerformed
    ({ h with lastProcessedReqSeqNbr := requestSn, lastProcessedReqResult := result },
      r.handleResetOutgoing senderLastAssignedTsn streamIds, response sn result)
  | .incoming sn =>
    ({ h with lastProcessedReqSeqNbr := requestSn }, r, response sn .kSuccessNothingToDo)

/-- `HandleResetOutgoing` and `HandleResetIncoming`, for a request that could be parsed. -/
def handle (h : StreamResetHandler) (r : Receiver) (req : ResetRequest) :
    StreamResetHandler × Receiver × Parameter :=
  let (requestSn, unwrapper) :=
    h.incomingReconfigRequestSnUnwrapper.unwrap req.requestSequenceNumber
  let h := { h with incomingReconfigRequestSnUnwrapper := unwrapper }
  match h.validateReqSeqNbr requestSn with
  | some resp => (h, r, resp)
  | none => h.process requestSn r req

def unwrapped (h : StreamResetHandler) (req : ResetRequest) : Int :=
  h.incomingReconfigRequestSnUnwrapper.peekUnwrap req.requestSequenceNumber

/-- The handler once it has unwrapped the sequence number of a request. -/
def afterUnwrap (h : StreamResetHandler) (req : ResetRequest) : StreamResetHandler :=
  { h with incomingReconfigRequestSnUnwrapper :=
      (h.incomingReconfigRequestSnUnwrapper.unwrap req.requestSequenceNumber).2 }

def Accepts (h : StreamResetHandler) (req : ResetRequest) : Prop :=
  h.unwrapped req = h.lastProcessedReqSeqNbr + 1

instance (h : StreamResetHandler) (req : ResetRequest) : Decidable (h.Accepts req) :=
  inferInstanceAs (Decidable (_ = _))

variable {h : StreamResetHandler} {r : Receiver} {req : ResetRequest}

theorem handle_eq : h.handle r req =
    match h.validateReqSeqNbr (h.unwrapped req) with
    | some resp => (h.afterUnwrap req, r, resp)
    | none => (h.afterUnwrap req).process (h.unwrapped req) r req := rfl

theorem handle_of_not_accepts (hr : ¬ h.Accepts req) :
    h.handle r req = (h.afterUnwrap req, r, response req.requestSequenceNumber
      (if h.unwrapped req = h.lastProcessedReqSeqNbr then h.lastProcessedReqResult
        else .kErrorBadSequenceNumber)) := by
  have hw : wrap 32 (h.unwrapped req) = req.requestSequenceNumber :=
    wrap_peekUnwrap ..
  rw [handle_eq, validateReqSeqNbr, hw, if_pos (show h.unwrapped req ≠ _ from hr)]
  split_ifs <;> rfl

theorem handle_of_accepts (ha : h.Accepts req) :
    h.handle r req = (h.afterUnwrap req).process (h.unwrapped req) r req := by
  have hnext : h.unwrapped req = h.lastProcessedReqSeqNbr + 1 := ha
  rw [handle_eq, validateReqSeqNbr, if_neg (by omega), if_neg (not_not.mpr hnext)]

theorem process_spec (h : StreamResetHandler) (r : Receiver) (req : ResetRequest) (n : Int) :
    (h.process n r req).1.incomingReconfigRequestSnUnwrapper =
        h.incomingReconfigRequestSnUnwrapper ∧ (h.process n r req).1.lastProcessedReqSeqNbr = n ∧
      ∃ result, (h.process n r req).2.2 = response req.requestSequenceNumber result ∧
        ((h.process n r req).1.lastProcessedReqResult = result ↔
          ∀ sn, req = .incoming sn → h.lastProcessedReqResult = .kSuccessNothingToDo) := by
  cases req with
  | outgoing sn tsn ids => exact ⟨rfl, rfl, _, rfl, by simp [process]⟩
  | incoming sn => exact ⟨rfl, rfl, _, rfl, by simp [process]⟩

theorem handle_unwrapper : (h.handle r req).1.incomingReconfigRequestSnUnwrapper =
    (h.incomingReconfigRequestSnUnwrapper.unwrap req.requestSequenceNumber).2 := by
  by_cases ha : h.Accepts req
  · rw [handle_of_accepts ha, (process_spec ..).1]
    rfl
  · rw [handle_of_not_accepts ha]
    rfl

theorem unwrapped_handle : (h.handle r req).1.unwrapped req = h.unwrapped req := by
  have hd : delta req.requestSequenceNumber req.requestSequenceNumber = 0 := by
    simp [delta, forwardDiff, aheadOrAt]
  rw [unwrapped, handle_unwrapper]
  change h.unwrapped req + delta req.requestSequenceNumber req.requestSequenceNumber = _
  rw [hd, add_zero]

theorem response_inj {sn : ReconfigRequestSN} {a b : Result} :
    response sn a = response sn b ↔ a = b := by
  simp [response]

/-- A request handled once more, with any receiver, changes neither the receiver nor the last
number. It is answered as before unless it is an accepted incoming request and the result kept from
an earlier request is not the one it was answered with. -/
theorem handle_again_iff (h : StreamResetHandler) (r r' : Receiver) (req : ResetRequest) :
    (((h.handle r req).1.handle r' req).2.2 = (h.handle r req).2.2 ↔
      ∀ sn, req = .incoming sn → h.Accepts req → h.lastProcessedReqResult = .kSuccessNothingToDo) ∧
    ((h.handle r req).1.handle r' req).2.1 = r' ∧
    ((h.handle r req).1.handle r' req).1.lastProcessedReqSeqNbr =
      (h.handle r req).1.lastProcessedReqSeqNbr := by
  have hagain : (h.handle r req).1.unwrapped req = h.unwrapped req := unwrapped_handle
  by_cases ha : h.Accepts req
  · obtain ⟨-, hlast, result, hresp, hiff⟩ :=
      process_spec (h.afterUnwrap req) r req (h.unwrapped req)
    rw [← handle_of_accepts ha] at hlast hresp hiff
    have hsame := hagain.trans hlast.symm
    have hno : ¬ (h.handle r req).1.Accepts req := by
      rw [Accepts, hsame]
      omega
    rw [handle_of_not_accepts hno, if_pos hsame, hresp]
    refine ⟨?_, rfl, rfl⟩
    rw [response_inj, hiff]
    exact ⟨fun hh sn he _ => hh sn he, fun hh sn he => hh sn he ha⟩
  · have hno : ¬ (h.handle r req).1.Accepts req := by
      rw [Accepts, hagain, handle_of_not_accepts ha]
      exact ha
    rw [handle_of_not_accepts hno, hagain, handle_of_not_accepts ha]
    exact ⟨⟨fun _ _ _ hc => absurd hc ha, fun _ => rfl⟩, rfl, rfl⟩

/-- An outgoing reset that was performed, then an incoming one, which is repeated. -/
theorem repeated_incoming_performed :
    ((((new 1).handle (.new 1 1000 false false) (.outgoing 1 0 [])).1.handle
        (.new 1 1000 false false) (.incoming 2)).2.2 = response 2 .kSuccessNothingToDo) ∧
      ((((new 1).handle (.new 1 1000 false false) (.outgoing 1 0 [])).1.handle
        (.new 1 1000 false false) (.incoming 2)).1.handle
        (.new 1 1000 false false) (.incoming 2)).2.2 = response 2 .kSuccessPerformed := by
  decide

/-- The requests of one association; the receiver they meet may have become anything. -/
def machine : Machine StreamResetHandler (Receiver × ResetRequest) where
  initial h := ∃ peerInitialTsn, h = new peerInitialTsn
  enabled _ _ := True
  step h op := some (h.handle op.1 op.2).1

/-- The request is answered with `kErrorBadSequenceNumber`. -/
def Rejects (h : StreamResetHandler) (op : Receiver × ResetRequest) : Prop :=
  h.unwrapped op.2 ≠ h.lastProcessedReqSeqNbr ∧ ¬ h.Accepts op.2

/-- The number of the request is unwrapped to less than half the number space from the last one
and the next. -/
def Close (h : StreamResetHandler) (op : Receiver × ResetRequest) : Prop :=
  h.lastProcessedReqSeqNbr + 1 - 2 ^ 31 < h.unwrapped op.2 ∧
    h.unwrapped op.2 < h.lastProcessedReqSeqNbr + 2 ^ 31

instance (h : StreamResetHandler) (op : Receiver × ResetRequest) : Decidable (h.Rejects op) :=
  inferInstanceAs (Decidable (_ ∧ _))

instance (h : StreamResetHandler) (op : Receiver × ResetRequest) : Decidable (h.Close op) :=
  inferInstanceAs (Decidable (_ ∧ _))

structure InStep (h : StreamResetHandler) : Prop where
  started : h.incomingReconfigRequestSnUnwrapper.lastValue ≠ none
  lt_last : h.lastProcessedReqSeqNbr + 1 - 2 ^ 31 <
    h.incomingReconfigRequestSnUnwrapper.lastUnwrapped
  last_lt : h.incomingReconfigRequestSnUnwrapper.lastUnwrapped <
    h.lastProcessedReqSeqNbr + 2 ^ 31

theorem InStep.unwrapped_eq_iff (hi : h.InStep) {t : Int} (hl : h.lastProcessedReqSeqNbr ≤ t)
    (hr : t ≤ h.lastProcessedReqSeqNbr + 1) :
    h.unwrapped req = t ↔ req.requestSequenceNumber = wrap 32 t := by
  constructor
  · rintro rfl
    exact (wrap_peekUnwrap ..).symm
  · intro he
    have hlt := hi.lt_last
    have hgt := hi.last_lt
    rw [unwrapped, he]
    exact peekUnwrap_wrap (by decide) _ hi.started (abs_lt.mpr (by omega))

theorem inStep_handle (hc : h.Close (r, req)) : (h.handle r req).1.InStep := by
  obtain ⟨hlt, hgt⟩ := hc
  have hu : (h.handle r req).1.incomingReconfigRequestSnUnwrapper =
      (h.incomingReconfigRequestSnUnwrapper.unwrap req.requestSequenceNumber).2 :=
    handle_unwrapper
  have hlast : (h.handle r req).1.lastProcessedReqSeqNbr = h.lastProcessedReqSeqNbr ∨
      (h.handle r req).1.lastProcessedReqSeqNbr = h.unwrapped req := by
    by_cases ha : h.Accepts req
    · rw [handle_of_accepts ha]
      exact .inr (process_spec ..).2.1
    · rw [handle_of_not_accepts ha]
      exact .inl rfl
  have hn : (h.handle r req).1.incomingReconfigRequestSnUnwrapper.lastUnwrapped =
      h.unwrapped req := by
    rw [hu]
    rfl
  dsimp only at hlt hgt
  refine ⟨by simp [hu], ?_, ?_⟩
  · rw [hn]
    omega
  · rw [hn]
    omega

/-- The two handlers differ in their unwrappers at most, and these are in step. -/
structure Agree (h h' : StreamResetHandler) : Prop where
  left : h.InStep
  right : h'.InStep
  seqNbr : h.lastProcessedReqSeqNbr = h'.lastProcessedReqSeqNbr
  result : h.lastProcessedReqResult = h'.lastProcessedReqResult

variable {h' : StreamResetHandler}

theorem Agree.unwrapped_eq_iff (hg : Agree h h') {t : Int} (hl : h.lastProcessedReqSeqNbr ≤ t)
    (hr : t ≤ h.lastProcessedReqSeqNbr + 1) : h.unwrapped req = t ↔ h'.unwrapped req = t := by
  rw [hg.left.unwrapped_eq_iff hl hr, hg.right.unwrapped_eq_iff (hg.seqNbr ▸ hl) (hg.seqNbr ▸ hr)]

theorem Agree.accepts_iff (hg : Agree h h') : h.Accepts req ↔ h'.Accepts req := by
  rw [Accepts, Accepts, ← hg.seqNbr]
  exact hg.unwrapped_eq_iff (by omega) le_rfl

theorem Agree.handle_outputs (hg : Agree h h') (r : Receiver) (req : ResetRequest) :
    (h.handle r req).2 = (h'.handle r req).2 ∧
      (h.handle r req).1.lastProcessedReqSeqNbr = (h'.handle r req).1.lastProcessedReqSeqNbr ∧
      (h.handle r req).1.lastProcessedReqResult = (h'.handle r req).1.lastProcessedReqResult := by
  by_cases ha : h.Accepts req
  · have ha' := hg.accepts_iff.mp ha
    have hn : h.unwrapped req = h'.unwrapped req := by
      rw [show h.unwrapped req = _ from ha, show h'.unwrapped req = _ from ha', hg.seqNbr]
    rw [handle_of_accepts ha, handle_of_accepts ha', hn]
    cases req with
    | outgoing sn tsn ids => exact ⟨rfl, rfl, rfl⟩
    | incoming sn => exact ⟨rfl, rfl, hg.result⟩
  · have he : h.unwrapped req = h.lastProcessedReqSeqNbr ↔
        h'.unwrapped req = h.lastProcessedReqSeqNbr := hg.unwrapped_eq_iff le_rfl (by omega)
    rw [handle_of_not_accepts ha, handle_of_not_accepts (mt hg.accepts_iff.mpr ha)]
    refine ⟨?_, hg.seqNbr, hg.result⟩
    rw [← hg.seqNbr, ← hg.result]
    simp only [he]

theorem Agree.of_inserted (hp : (machine.restrict Close).Inserted Rejects h h') : Agree h h' := by
  refine hp.preserved ?_ ?_ ?_
  · rintro _ ⟨p, rfl⟩
    have hi : (new p).InStep := by
      refine ⟨by simp [new], ?_, ?_⟩ <;> simp only [new, unwrap_fst,
        unwrap_snd_lastUnwrapped] <;> omega
    exact ⟨hi, hi, rfl, rfl⟩
  · rintro a a' ⟨r, req⟩ b b' hg ⟨-, hc⟩ ⟨-, hc'⟩ hs hs'
    cases hs
    cases hs'
    obtain ⟨-, hseq, hres⟩ := hg.handle_outputs r req
    exact ⟨inStep_handle hc, inStep_handle hc', hseq, hres⟩
  · rintro a a' ⟨r, req⟩ b hg ⟨-, hc⟩ ⟨-, hr⟩ hs
    cases hs
    have hlast := handle_of_not_accepts (r := r) hr
    refine ⟨inStep_handle hc, hg.right, ?_, ?_⟩
    · rw [hlast]
      exact hg.seqNbr
    · rw [hlast]
      exact hg.result

end StreamResetHandler

namespace DataTracker

def machine : Machine DataTracker Op where
  initial d := ∃ peerInitialTsn, d = new peerInitialTsn
  enabled _ _ := True
  step d op := some (d.step op)

def RejectsForwardTsn (d : DataTracker) (op : Op) : Prop :=
  ∃ tsn, op = .handleForwardTsn tsn ∧ (d.handleForwardTsn tsn).2 = false

/-- A FORWARD-TSN is unwrapped to less than a quarter of the number space from the last TSN. -/
def Close (d : DataTracker) : Op → Prop
  | .handleForwardTsn tsn => |d.tsnUnwrapper.peekUnwrap tsn - d.lastCumulativeAckedTsn| < 2 ^ 30
  | _ => True

structure InStep (d : DataTracker) : Prop where
  inv : ∃ peerInitialTsn observed skipped, Inv peerInitialTsn d observed skipped
  last_lt : d.lastCumulativeAckedTsn <
    d.tsnUnwrapper.lastUnwrapped + 2 ^ 30 + 2 * kMaxAcceptedOutstandingFragments

variable {d d' : DataTracker}

theorem last_le_of_seen_subset (hd : d.WellFormed) (hs : d'.seen ⊆ d.seen) :
    d'.lastCumulativeAckedTsn ≤ d.lastCumulativeAckedTsn := by
  by_contra hlt
  have hnext : d.lastCumulativeAckedTsn + 1 ∈ d'.seen :=
    .inl (show d.lastCumulativeAckedTsn + 1 ≤ d'.lastCumulativeAckedTsn by omega)
  rcases hs hnext with hle | hc
  · have hle' : d.lastCumulativeAckedTsn + 1 ≤ d.lastCumulativeAckedTsn := hle
    omega
  · have := IntBlock.Separated.lt_of_mem hd hc
    omega

variable {tsn : TSN}

theorem InStep.peek_of_isTSNValid (hi : d.InStep) (hv : d.isTSNValid tsn) :
    |d.tsnUnwrapper.peekUnwrap tsn - d.lastCumulativeAckedTsn| ≤
      kMaxAcceptedOutstandingFragments := by
  obtain ⟨p, observed, skipped, h⟩ := hi.inv
  have hd := d.tsnUnwrapper.peekUnwrap_abs_le (by decide) h.unwrapper_started tsn
  have hu := h.unwrapper_le
  have hl := hi.last_lt
  have hdiff : difference 32 (d.tsnUnwrapper.peekUnwrap tsn) d.lastCumulativeAckedTsn ≤
      kMaxAcceptedOutstandingFragments := of_decide_eq_true hv
  simp only [kMaxAcceptedOutstandingFragments, difference, abs_le] at *
  omega

theorem InStep.peek_wrap (hi : d.InStep) {t : Int}
    (ht : |t - d.lastCumulativeAckedTsn| ≤ kMaxAcceptedOutstandingFragments) :
    d.tsnUnwrapper.peekUnwrap (wrap 32 t) = t := by
  obtain ⟨p, observed, skipped, h⟩ := hi.inv
  have hu := h.unwrapper_le
  have hl := hi.last_lt
  refine peekUnwrap_wrap (by decide) _ h.unwrapper_started ?_
  simp only [kMaxAcceptedOutstandingFragments, abs_le, abs_lt] at *
  omega

theorem InStep.last_lt_of_same (hi : d.InStep) (hs : SameTsns d d') : d'.lastCumulativeAckedTsn <
    d'.tsnUnwrapper.lastUnwrapped + 2 ^ 30 + 2 * kMaxAcceptedOutstandingFragments := by
  rw [hs.last, hs.tsnUnwrapper]
  exact hi.last_lt

theorem InStep.step (hi : d.InStep) {op : Op} (hc : d.Close op) : (d.step op).InStep := by
  obtain ⟨p, observed, skipped, h⟩ := hi.inv
  have hinv := h.step op
  have hl := hi.last_lt
  refine ⟨⟨p, _, _, hinv⟩, ?_⟩
  -- The last TSN is seen, so it is at most the one of this call or was seen before.
  have hmem : (d.step op).lastCumulativeAckedTsn ∈ (d.step op).seen :=
    mem_seen.mpr (.inl le_rfl)
  cases op with
  | observe tsn imm =>
    simp only [DataTracker.step] at hmem ⊢
    split_ifs at hmem ⊢ with hv
    · obtain ⟨-, hseen, -, hu, -⟩ := observe_spec h.wellFormed tsn imm
      have hv' := abs_le.mp (hi.peek_of_isTSNValid hv)
      rw [hu, unwrap_snd_lastUnwrapped]
      rcases (hseen _).mp hmem with he | ho
      · omega
      · have := h.seen_le _ ho
        omega
    · exact hl
  | handleForwardTsn tsn =>
    obtain ⟨-, hseen, -, hu, -⟩ := handleForwardTsn_spec h.wellFormed tsn
    have hc' := abs_lt.mp hc
    simp only [DataTracker.step] at hmem ⊢
    rw [hu, unwrap_snd_lastUnwrapped]
    rcases (hseen _).mp hmem with he | ho
    · omega
    · have := h.seen_le _ ho
      omega
  | _ =>
    exact hi.last_lt_of_same (step_same (by simp) (by simp))

structure Agree (d d' : DataTracker) : Prop where
  left : d.InStep
  right : d'.InStep
  seen : d.seen = d'.seen

section

variable (hg : Agree d d')
include hg

theorem Agree.symm : Agree d' d := ⟨hg.right, hg.left, hg.seen.symm⟩

theorem Agree.last : d.lastCumulativeAckedTsn = d'.lastCumulativeAckedTsn := by
  obtain ⟨_, _, _, h⟩ := hg.left.inv
  obtain ⟨_, _, _, h'⟩ := hg.right.inv
  exact le_antisymm (last_le_of_seen_subset h'.wellFormed hg.seen.le)
    (last_le_of_seen_subset h.wellFormed hg.seen.ge)

theorem Agree.isTSNValid (hv : d.isTSNValid tsn) :
    d'.tsnUnwrapper.peekUnwrap tsn = d.tsnUnwrapper.peekUnwrap tsn ∧ d'.isTSNValid tsn := by
  have ht := hg.left.peek_of_isTSNValid hv
  rw [hg.last] at ht
  have he := hg.right.peek_wrap ht
  rw [wrap_peekUnwrap] at he
  refine ⟨he, ?_⟩
  rw [DataTracker.isTSNValid, he, ← hg.last]
  exact hv

theorem Agree.isTSNValid_eq (tsn : TSN) : d.isTSNValid tsn = d'.isTSNValid tsn :=
  Bool.eq_iff_iff.mpr ⟨fun hv => (hg.isTSNValid hv).2, fun hv => (hg.symm.isTSNValid hv).2⟩

theorem Agree.observe_eq (hv : d.isTSNValid tsn) (imm : Bool) :
    (d.observe tsn imm).2 = (d'.observe tsn imm).2 := by
  obtain ⟨_, _, _, h⟩ := hg.left.inv
  obtain ⟨_, _, _, h'⟩ := hg.right.inv
  rw [Bool.eq_iff_iff, (observe_spec h.wellFormed tsn imm).2.2.1,
    (observe_spec h'.wellFormed tsn imm).2.2.1, (hg.isTSNValid hv).1, hg.seen]

theorem Agree.step_seen {op : Op} (hc : d.Close op) (hc' : d'.Close op) :
    (d.step op).seen = (d'.step op).seen := by
  obtain ⟨_, _, _, h⟩ := hg.left.inv
  obtain ⟨_, _, _, h'⟩ := hg.right.inv
  cases op with
  | observe tsn imm =>
    simp only [DataTracker.step, ← hg.isTSNValid_eq tsn]
    split_ifs with hv
    · ext t
      rw [(observe_spec h.wellFormed tsn imm).2.1, (observe_spec h'.wellFormed tsn imm).2.1,
        (hg.isTSNValid hv).1, hg.seen]
    · exact hg.seen
  | handleForwardTsn tsn =>
    have hl := hg.last
    have hn : d.tsnUnwrapper.peekUnwrap tsn = d'.tsnUnwrapper.peekUnwrap tsn := by
      refine eq_of_wrap_eq (w := 32) (by simp only [wrap_peekUnwrap]) ?_
      have := abs_lt.mp hc
      have := abs_lt.mp hc'
      exact abs_lt.mpr (by omega)
    ext t
    simp only [DataTracker.step]
    rw [(handleForwardTsn_spec h.wellFormed tsn).2.1,
      (handleForwardTsn_spec h'.wellFormed tsn).2.1, hn, hg.seen]
  | _ =>
    exact (step_same (by simp) (by simp)).seen.trans
      (hg.seen.trans (step_same (by simp) (by simp)).seen.symm)

end

theorem Agree.of_inserted (hp : (machine.restrict Close).Inserted RejectsForwardTsn d d') :
    Agree d d' := by
  refine hp.preserved ?_ ?_ ?_
  · rintro _ ⟨p, rfl⟩
    have hi : (new p).InStep := by
      refine ⟨⟨p, _, _, new_inv p⟩, ?_⟩
      simp only [new, unwrap_fst, unwrap_snd_lastUnwrapped]
      omega
    exact ⟨hi, hi, rfl⟩
  · rintro a a' op b b' hg ⟨-, hc⟩ ⟨-, hc'⟩ hs hs'
    cases hs
    cases hs'
    exact ⟨hg.left.step hc, hg.right.step hc', hg.step_seen hc hc'⟩
  · rintro a a' _ b hg ⟨-, hc⟩ ⟨tsn, rfl, hrej⟩ hs
    cases hs
    refine ⟨hg.left.step hc, hg.right, ?_⟩
    obtain ⟨_, _, _, h⟩ := hg.left.inv
    obtain ⟨-, hseen, hacc, -⟩ := handleForwardTsn_spec h.wellFormed tsn
    have hold := not_lt.mp (mt hacc.mpr (by simp [hrej]))
    rw [← hg.seen]
    ext t
    refine (hseen t).trans ⟨?_, .inr⟩
    rintro (hle | hs)
    · exact .inl (hle.trans hold)
    · exact hs

end DataTracker

open DataTracker StreamResetHandler in
/-- Rejected requests and rejected FORWARD-TSNs that are close to the last number, inserted anywhere
in a run, change neither the answer to any request nor how a TSN is classified. -/
theorem rejected_input_harmless {h h' : StreamResetHandler} {d d' : DataTracker}
    (hh : (StreamResetHandler.machine.restrict StreamResetHandler.Close).Inserted Rejects h h')
    (hd : (DataTracker.machine.restrict DataTracker.Close).Inserted RejectsForwardTsn d d') :
    (∀ r req, (h.handle r req).2 = (h'.handle r req).2 ∧ (h.Accepts req ↔ h'.Accepts req) ∧
      (h.Accepts req ↔ req.requestSequenceNumber = wrap 32 (h.lastProcessedReqSeqNbr + 1))) ∧
    ∀ tsn, d.isTSNValid tsn = d'.isTSNValid tsn ∧
      (d.isTSNValid tsn → ∀ imm, (d.observe tsn imm).2 = (d'.observe tsn imm).2) := by
  have hg := StreamResetHandler.Agree.of_inserted hh
  have hg' := DataTracker.Agree.of_inserted hd
  refine ⟨fun r req => ⟨(hg.handle_outputs r req).1, hg.accepts_iff, ?_⟩, fun tsn => ?_⟩
  · exact hg.left.unwrapped_eq_iff (by omega) le_rfl
  · exact ⟨hg'.isTSNValid_eq tsn, fun hv imm => hg'.observe_eq hv imm⟩

open DataTracker StreamResetHandler in
theorem rejected_input_harmless_once : ∃ h d,
    (StreamResetHandler.machine.restrict StreamResetHandler.Close).Inserted Rejects h (.new 1) ∧
      (DataTracker.machine.restrict DataTracker.Close).Inserted RejectsForwardTsn d (.new 1) ∧
      h.Accepts (.incoming 1) ∧ d.isTSNValid 1 = true := by
  have h₀ : (StreamResetHandler.machine.restrict StreamResetHandler.Close).Inserted Rejects
      (.new 1) (.new 1) := .initial ⟨1, rfl⟩
  have h₁ := h₀.insert ((.new 1 1000 false false, .incoming 3)) ⟨trivial, by decide⟩
    (by decide) rfl
  have d₀ : (DataTracker.machine.restrict DataTracker.Close).Inserted RejectsForwardTsn
      (.new 1) (.new 1) := .initial ⟨1, rfl⟩
  have d₁ := d₀.insert (.handleForwardTsn 0xFFFFFFFE)
    ⟨trivial, show |(DataTracker.new 1).tsnUnwrapper.peekUnwrap 0xFFFFFFFE - _| < _ by decide⟩
    ⟨_, rfl, by decide⟩ rfl
  obtain ⟨hh, hd⟩ := rejected_input_harmless h₁ d₁
  refine ⟨_, _, h₁, d₁, ?_, ?_⟩
  · exact (hh (.new 1 1000 false false) (.incoming 1)).2.1.mpr (by decide)
  · rw [(hd 1).1]
    decide

open DataTracker StreamResetHandler in
/-- Two rejected requests, each less than half the number space ahead of the one before, or two
stale FORWARD-TSNs, each as far behind, make the next number be refused. -/
theorem rejected_input_poisons : (∃ h, StreamResetHandler.machine.Inserted Rejects h (.new 1) ∧
      h.lastProcessedReqSeqNbr = 0 ∧ (StreamResetHandler.new 1).Accepts (.incoming 1) ∧
      ¬ h.Accepts (.incoming 1)) ∧ ∃ d, DataTracker.machine.Inserted RejectsForwardTsn d (.new 1) ∧
      (DataTracker.new 1).isTSNValid 1 = true ∧ d.isTSNValid 1 = false := by
  have h₀ : StreamResetHandler.machine.Inserted Rejects (.new 1) (.new 1) := .initial ⟨1, rfl⟩
  have h₁ := h₀.insert ((.new 1 1000 false false, .incoming 0x7FFFFFFF)) trivial
    (by decide) rfl
  have h₂ := h₁.insert ((.new 1 1000 false false, .incoming 0xFFFFFFFE)) trivial
    (by decide) rfl
  have d₀ : DataTracker.machine.Inserted RejectsForwardTsn (.new 1) (.new 1) := .initial ⟨1, rfl⟩
  have d₁ := d₀.insert (.handleForwardTsn 0x80000001) trivial ⟨_, rfl, by decide⟩ rfl
  have d₂ := d₁.insert (.handleForwardTsn 2) trivial ⟨_, rfl, by decide⟩ rfl
  exact ⟨⟨_, h₂, by decide⟩, ⟨_, d₂, by decide⟩⟩

end WebRtc.DcSctp
