import WebRtc.CongestionControl.PacketArrivalMap

/-! The search for the next received packet (`FindNextAtOrAfter`). It stops at a received packet
only, so that it stays in the window just when the last packet of the window is received. -/

namespace WebRtc.CongestionControl

namespace PacketArrivalTimeMap

/-- The loop of `FindNextAtOrAfter`, for at most `n` rounds. -/
def findLoop (m : PacketArrivalTimeMap) (times : Nat → Int) : Nat → Int → Option (Int × Int)
  | 0, _ => none
  | n + 1, s =>
    if times (m.index s) ≥ 0 then some (times (m.index s), s) else m.findLoop times n (s + 1)

def findNextAtOrAfter (m : PacketArrivalTimeMap) (n : Nat) (sequenceNumber : Int) :
    Option (Int × Int) := do
  guard (m.beginSequenceNumber ≤ sequenceNumber ∧ sequenceNumber < m.endSequenceNumber)
  let times ← m.arrivalTimes
  m.findLoop times n sequenceNumber

/-- What was found is the first packet of the window from `s` on that is received. -/
structure Finds (m : PacketArrivalTimeMap) (s : Int) (found : Int × Int) : Prop where
  after : s ≤ found.2
  within : found.2 < m.endSequenceNumber
  received : m.hasReceived found.2
  time : m.get found.2 = some found.1
  first : ∀ x, s ≤ x → x < found.2 → m.hasReceived x = false

variable {m m' : PacketArrivalTimeMap} {v : Int → Int} {arith : Int → Int} {fresh : Nat → Int}
  {s t : Int}

theorem findLoop_finds (h : m.Represents v) {times : Nat → Int}
    (hv : ∀ x, m.Contains x → times (m.index x) = v x) (hlast : 0 ≤ v (m.endSequenceNumber - 1))
    {n : Nat} (hs : m.Contains s) (hn : m.endSequenceNumber - s ≤ n) :
    ∃ found, m.findLoop times n s = some found ∧ m.Finds s found := by
  have hlt : s < m.endSequenceNumber := hs.2
  induction n generalizing s with
  | zero => omega
  | succ n ih =>
    have hreceived := hasReceived_of_represents h hs
    rw [findLoop, hv s hs]
    by_cases hr : v s ≥ 0
    · rw [if_pos hr]
      rw [decide_eq_true hr] at hreceived
      refine ⟨_, rfl, le_rfl, hlt, hreceived, get_of_represents h hs, fun x hx hx' => ?_⟩
      exact absurd hx' (not_lt.mpr hx)
    · rw [if_neg hr]
      rw [decide_eq_false hr] at hreceived
      have hne : s ≠ m.endSequenceNumber - 1 := by
        rintro rfl
        exact hr hlast
      have hle : m.beginSequenceNumber ≤ s := hs.1
      obtain ⟨found, hfound, hf⟩ := ih (s := s + 1) ⟨by omega, by omega⟩ (by omega) (by omega)
      refine ⟨found, hfound, by linarith [hf.after], hf.within, hf.received, hf.time, ?_⟩
      intro x hx hx'
      rcases hx.eq_or_lt with rfl | hx
      · exact hreceived
      · exact hf.first x hx hx'

end PacketArrivalTimeMap

open PacketArrivalTimeMap

namespace ArrivalRun

def Ends (r : ArrivalRun) : Prop :=
  r.map.beginSequenceNumber < r.map.endSequenceNumber →
    (r.last (r.map.endSequenceNumber - 1)).isSome

/-- No packet is added before an emptied window so that it leaves a gap. -/
def noGap (r : ArrivalRun) : ArrivalOp → Prop
  | .addPacket _ sequenceNumber _ =>
    r.map.arrivalTimes.isSome → ¬ r.map.Backfills sequenceNumber
  | _ => True

variable {r r' : ArrivalRun} {arith : Int → Int} {m : PacketArrivalTimeMap}

theorem Ends.addPacket (he : r.Ends) (hcount : ExactCount arith) (h : r.Sound) {s t : Int}
    (hexact : r.map.Exact arith s) (ht : 0 ≤ t) {fresh : Nat → Int}
    (hgap : r.noGap (.addPacket fresh s t)) (hm : r.map.addPacket arith fresh s t = some m)
    (hlt : m.beginSequenceNumber < m.endSequenceNumber) :
    m.endSequenceNumber - 1 = s ∨ (r.carried m (m.endSequenceNumber - 1)).isSome := by
  rcases h.represents with hrep | ⟨hcreate, -⟩
  · have hadded := (ensures_addPacket fresh hcount hrep hexact ht h.size).of_eq_some hm
    obtain ⟨times, htimes, -⟩ := hrep.ring
    rcases hadded.ends hlt with hs | hin | hback
    · exact .inl hs
    · have hend : m.endSequenceNumber = r.map.endSequenceNumber := by
        have hlast := hadded.last
        have hle : m.endSequenceNumber - 1 < r.map.endSequenceNumber := hin.2
        omega
      rw [carried, if_pos ⟨hin, contains_last hlt⟩, hend]
      exact .inr (he (hin.1.trans_lt hin.2))
    · exact absurd hback (hgap (by rw [htimes]; rfl))
  · rw [hcreate] at hm
    obtain ⟨-, -, hend⟩ := (ensures_addPacket_create fresh hexact.next ht).of_eq_some hm
    exact .inl (by omega)

theorem Ends.removed (he : r.Ends) {v : Int → Int}
    (hm : r.map.Removed m v) (aged erased : Set Int) :
    Ends ⟨m, r.carried m, r.added, aged, erased⟩ := by
  intro hlt
  change m.beginSequenceNumber < m.endSequenceNumber at hlt
  have hfirst := hm.first
  have hlast := hm.last
  show (r.carried m (m.endSequenceNumber - 1)).isSome
  rw [carried, if_pos ⟨⟨by omega, by omega⟩, contains_last hlt⟩, hlast]
  exact he (by omega)

theorem Ends.step {op : ArrivalOp} (he : r.Ends) (hcount : ExactCount arith) (h : r.Sound)
    (hop : op.wellTyped) (hexact : r.noOverflow arith op) (hgap : r.noGap op)
    (hstep : r.step arith op = some r') : r'.Ends := by
  cases op with
  | addPacket fresh s t =>
    obtain ⟨m, hm, rfl⟩ := Option.map_eq_some_iff.mp hstep
    intro hlt
    show (if _ then some t else r.carried m (m.endSequenceNumber - 1)).isSome
    split_ifs with hs
    · rfl
    · exact (he.addPacket hcount h hexact hop.2.2 hgap hm hlt).resolve_left fun heq =>
        hs ⟨heq, contains_last hlt⟩
  | removeOldPackets fresh s limit =>
    obtain ⟨m, hm, rfl⟩ := Option.map_eq_some_iff.mp hstep
    rcases h.represents with hrep | ⟨hcreate, -⟩
    · exact he.removed ((ensures_removeOldPackets fresh s limit hcount hrep h.size).of_eq_some hm) _ _
    · rw [hcreate, removeOldPackets_create fresh s limit hcount] at hm
      cases hm
      exact fun hlt => absurd hlt (lt_irrefl _)
  | eraseTo fresh s =>
    obtain ⟨m, hm, rfl⟩ := Option.map_eq_some_iff.mp hstep
    rcases h.represents with hrep | ⟨hcreate, -⟩
    · exact he.removed ((ensures_eraseTo fresh s hcount hrep h.size).of_eq_some hm) _ _
    · rw [hcreate, eraseTo_create] at hm
      cases hm
      exact fun hlt => absurd hlt (lt_irrefl _)

end ArrivalRun

/-- In a run whose calls do not overflow and leave no gap before an emptied window, the last packet
of the window is received, and the search from any place in it ends at the next received one. -/
theorem arrivalMap_lookups {r : ArrivalRun} (h : ((arrivalMachine int64).restrict fun r op =>
      r.noOverflow int64 op ∧ r.noGap op).Reachable r) :
    (r.map.beginSequenceNumber < r.map.endSequenceNumber →
      r.map.hasReceived (r.map.endSequenceNumber - 1)) ∧
    ∀ s, r.map.Contains s → ∀ n : Nat, r.map.endSequenceNumber - s ≤ n →
      ∃ found, r.map.findNextAtOrAfter n s = some found ∧ r.map.Finds s found := by
  obtain ⟨hsound, hends⟩ := h.preserved (I := fun r => r.Sound ∧ r.Ends)
    (by
      rintro r rfl
      have h0 := (arrivalMap_sound exactCount_int64 (.initial rfl)).1
      exact ⟨h0, fun hlt => absurd hlt (lt_irrefl _)⟩)
    (by
      rintro r op r' ⟨hs, he⟩ ⟨hop, hexact, hgap⟩ hstep
      exact ⟨(hs.step exactCount_int64 hop hexact).of_eq_some hstep,
        he.step exactCount_int64 hs hop hexact hgap hstep⟩)
  have hreceived (hlt : r.map.beginSequenceNumber < r.map.endSequenceNumber) :
      r.map.hasReceived (r.map.endSequenceNumber - 1) := by
    rw [hsound.faithful.hasReceived _ (contains_last hlt)]
    exact hends hlt
  refine ⟨hreceived, fun s hs n hn => ?_⟩
  have hlt : r.map.beginSequenceNumber < r.map.endSequenceNumber := hs.1.trans_lt hs.2
  rcases hsound.represents with hrep | ⟨hcreate, -⟩
  · obtain ⟨times, htimes, hv⟩ := hrep.ring
    have hlast := hreceived hlt
    rw [hasReceived_of_represents hrep (contains_last hlt), decide_eq_true_eq] at hlast
    obtain ⟨found, hfound, hf⟩ := findLoop_finds hrep hv hlast hs hn
    have hguard : r.map.beginSequenceNumber ≤ s ∧ s < r.map.endSequenceNumber := hs
    exact ⟨found, by simp [findNextAtOrAfter, hguard, htimes, hfound], hf⟩
  · rw [hcreate] at hlt
    exact absurd hlt (lt_irrefl _)

theorem arrivalMap_lookups_first : ∃ r : ArrivalRun, r.map.Contains 5 ∧
      ∃ found, r.map.findNextAtOrAfter 1 5 = some found ∧ r.map.Finds 5 found := by
  have hfits : PacketArrivalTimeMap.create.Exact int64 5 :=
    ⟨by decide, fun h => (by cases h), fun h => (by cases h), fun h => (by cases h)⟩
  have h := Machine.Reachable.step
    (.initial (show ((arrivalMachine int64).restrict fun r op => r.noOverflow int64 op ∧
      r.noGap op).initial ⟨.create, fun _ => none, ∅, ∅, ∅⟩ from rfl))
    (show ((arrivalMachine int64).restrict _).enabled _ (.addPacket (fun _ => 0) 5 7) from
      ⟨⟨by decide, by decide, by decide⟩, hfits, fun h => (by cases h)⟩) rfl
  exact ⟨_, by decide, (arrivalMap_lookups h).2 5 (by decide) 1 (by decide)⟩

/-- Packet 3 is added when the window of packet 5 was emptied. The window then ends with packets that
are not received, and from packet 4 on there is none to be found. -/
theorem arrivalMap_gap_before_end : ∃ r, (arrivalMachine int64).Reachable r ∧ r.map.Contains 4 ∧
      r.map.hasReceived (r.map.endSequenceNumber - 1) = false ∧
      ¬ ∃ x, 4 ≤ x ∧ x < r.map.endSequenceNumber ∧ r.map.hasReceived x := by
  have h₁ := Machine.Reachable.step
    (.initial (show (arrivalMachine int64).initial ⟨.create, fun _ => none, ∅, ∅, ∅⟩ from rfl))
    (show (arrivalMachine int64).enabled _ (.addPacket (fun _ => 0) 5 7) from
      ⟨by decide, by decide, by decide⟩) rfl
  have h₂ := h₁.step
    (show (arrivalMachine int64).enabled _ (.eraseTo (fun _ => 0) 6) from trivial) rfl
  have h₃ := h₂.step
    (show (arrivalMachine int64).enabled _ (.addPacket (fun _ => 0) 3 8) from
      ⟨by decide, by decide, by decide⟩) rfl
  refine ⟨_, h₃, by decide, by decide, ?_⟩
  rintro ⟨x, hx, hx', hr⟩
  change x < 6 at hx'
  interval_cases x <;> exact absurd hr (by decide)

end WebRtc.CongestionControl
