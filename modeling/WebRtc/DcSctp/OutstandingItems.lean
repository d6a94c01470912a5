import WebRtc.DcSctp.OutstandingConsistency

/-! What becomes of each outstanding chunk: an operation keeps its identity, and abandons it only
if a chunk of the same message fails. -/

namespace WebRtc.DcSctp.OutstandingData

open List

variable {σ : Type} {discard : StreamID → OutgoingMessageId → σ → Bool × σ}
variable {od od' od'' : OutstandingData} {tsn t : Int} {item item' : Item} {F : Item → Prop}

def Item.core (item : Item) : Item :=
  { item with lifecycle := .kActive, ackState := .kUnacked, nackCount := 0 }

def Item.SameMessage (a b : Item) : Prop :=
  a.data.streamId = b.data.streamId ∧ a.messageId = b.messageId

/-- `b` is a later state of `a`; it is abandoned only if some item of its message fails. -/
structure Later (F : Item → Prop) (items : List Item) (a b : Item) : Prop where
  core : b.core = a.core
  keeps : a.isAbandoned → b.isAbandoned
  abandoned : b.isAbandoned → a.isAbandoned ∨ ∃ x ∈ items, x.SameMessage a ∧ F x.core

/-- The items of `od` live on in `od'`, followed by placeholders for ends of failed messages. -/
structure Evolves (F : Item → Prop) (od od' : OutstandingData) : Prop where
  header : od'.dataChunkHeaderSize = od.dataChunkHeaderSize
  last : od'.lastCumulativeTsnAck = od.lastCumulativeTsnAck
  later : ∀ t a, od.getItem t = some a →
    ∃ b, od'.getItem t = some b ∧ Later F od.outstandingData a b
  placeholder : ∀ t b, od'.getItem t = some b → od.getItem t = none →
    ∃ x ∈ od.outstandingData, F x.core ∧ b.core = (messageEnd x).core

structure SameItems (od od' : OutstandingData) : Prop where
  header : od'.dataChunkHeaderSize = od.dataChunkHeaderSize
  last : od'.lastCumulativeTsnAck = od.lastCumulativeTsnAck
  data : od'.outstandingData = od.outstandingData

theorem SameItems.refl (od : OutstandingData) : SameItems od od := ⟨rfl, rfl, rfl⟩

theorem SameItems.trans (h : SameItems od od') (h' : SameItems od' od'') : SameItems od od'' :=
  ⟨h'.header.trans h.header, h'.last.trans h.last, h'.data.trans h.data⟩

theorem SameItems.getItem (h : SameItems od od') (t : Int) : od'.getItem t = od.getItem t :=
  getItem_congr h.last h.data t

theorem SameItems.setItem (h : SameItems od od') (tsn : Int) (item : Item) :
    SameItems (od.setItem tsn item) (od'.setItem tsn item) :=
  ⟨h.header, h.last, by simp only [OutstandingData.setItem, h.last, h.data]⟩

theorem Later.refl (items : List Item) (a : Item) : Later F items a a := ⟨rfl, id, .inl⟩

variable {a b : Item}

theorem messageId_eq_of_core (h : a.core = b.core) : a.messageId = b.messageId := by
  have hid : a.core.messageId = b.core.messageId := by rw [h]
  exact hid

theorem data_eq_of_core (h : a.core = b.core) : a.data = b.data := by
  have hdata : a.core.data = b.core.data := by rw [h]
  exact hdata

theorem messageEnd_eq_of_core (h : a.core = b.core) : messageEnd a = messageEnd b := by
  simp only [messageEnd, messageId_eq_of_core h, data_eq_of_core h]

theorem Item.SameMessage.of_core {a b c d : Item} (h : a.SameMessage b) (hc : c.core = a.core)
    (hd : d.core = b.core) : c.SameMessage d := by
  simp only [Item.SameMessage, messageId_eq_of_core hc, messageId_eq_of_core hd,
    data_eq_of_core hc, data_eq_of_core hd]
  exact h

namespace Evolves

theorem refl (od : OutstandingData) : Evolves F od od where
  header := rfl
  last := rfl
  later _ a ha := ⟨a, ha, .refl _ a⟩
  placeholder t b hb hn := by rw [hb] at hn; cases hn

theorem origin (h : Evolves F od od') (hb : od'.getItem t = some item') :
    (∃ a, od.getItem t = some a ∧ Later F od.outstandingData a item') ∨ od.getItem t = none ∧
        ∃ x ∈ od.outstandingData, F x.core ∧ item'.core = (messageEnd x).core := by
  cases ha : od.getItem t with
  | none => exact .inr ⟨rfl, h.placeholder t item' hb ha⟩
  | some a =>
    obtain ⟨b, hb', hl⟩ := h.later t a ha
    cases hb.symm.trans hb'
    exact .inl ⟨a, rfl, hl⟩

theorem failed (h : Evolves F od od') (hb : item' ∈ od'.outstandingData) (hf : F item'.core) :
    ∃ x ∈ od.outstandingData, x.SameMessage item' ∧ F x.core := by
  obtain ⟨t, ht⟩ := getItem_of_mem hb
  rcases h.origin ht with ⟨a, ha, hl⟩ | ⟨-, x, hx, hfx, hc⟩
  · refine ⟨a, mem_of_getItem ha, ?_, hl.core ▸ hf⟩
    exact Item.SameMessage.of_core (b := item') ⟨rfl, rfl⟩ hl.core.symm rfl
  · refine ⟨x, hx, ?_, hfx⟩
    exact Item.SameMessage.of_core (a := x) (b := messageEnd x) ⟨rfl, rfl⟩ rfl hc

theorem trans (h : Evolves F od od') (h' : Evolves F od' od'') : Evolves F od od'' where
  header := h'.header.trans h.header
  last := h'.last.trans h.last
  later t a ha := by
    obtain ⟨b, hb, hab⟩ := h.later t a ha
    obtain ⟨c, hc, hbc⟩ := h'.later t b hb
    refine ⟨c, hc, hbc.core.trans hab.core, hbc.keeps ∘ hab.keeps, fun hcab => ?_⟩
    rcases hbc.abandoned hcab with hbab | ⟨x, hx, hsame, hf⟩
    · exact hab.abandoned hbab
    · obtain ⟨y, hy, hxy, hfy⟩ := h.failed hx hf
      refine .inr ⟨y, hy, ?_, hfy⟩
      exact ⟨hxy.1.trans (hsame.of_core rfl hab.core.symm).1,
        hxy.2.trans (hsame.of_core rfl hab.core.symm).2⟩
  placeholder t c hc hn := by
    rcases h'.origin hc with ⟨b, hb, hbc⟩ | ⟨-, x, hx, hf, hcore⟩
    · obtain ⟨x, hx, hf, hcore⟩ := h.placeholder t b hb hn
      exact ⟨x, hx, hf, hbc.core.trans hcore⟩
    · obtain ⟨u, hu⟩ := getItem_of_mem hx
      rcases h.origin hu with ⟨a, ha, hl⟩ | ⟨-, y, hy, hfy, hxy⟩
      · exact ⟨a, mem_of_getItem ha, hl.core ▸ hf, by rw [hcore, messageEnd_eq_of_core hl.core]⟩
      · refine ⟨y, hy, hfy, ?_⟩
        rw [hcore, messageEnd_eq_of_core hxy]
        rfl

theorem of_sameItems (h : SameItems od od') : Evolves F od od' where
  header := h.header
  last := h.last
  later t a ha := ⟨a, getItem_congr h.last h.data t ▸ ha, .refl _ a⟩
  placeholder t b hb hn := by rw [getItem_congr h.last h.data t, hn] at hb; cases hb

theorem setItem (hget : od.getItem tsn = some item) (hl : Later F od.outstandingData item item') :
    Evolves F od (od.setItem tsn item') where
  header := rfl
  last := rfl
  later t a ha := by
    rw [getItem_setItem hget]
    by_cases ht : t = tsn
    · subst ht
      cases hget.symm.trans ha
      exact ⟨item', if_pos rfl, hl⟩
    · exact ⟨a, (if_neg ht).trans ha, .refl _ a⟩
  placeholder t b hb hn := by
    rw [getItem_setItem hget] at hb
    split_ifs at hb with ht
    · subst ht
      rw [hget] at hn
      cases hn
    · rw [hn] at hb
      cases hb

end Evolves

theorem sameItems_removeUnacked (h : od.removeUnacked item = some od') : SameItems od od' := by
  simp only [removeUnacked] at h
  split_ifs at h
  · obtain ⟨bytes, -, h⟩ := Option.bind_eq_some_iff.mp h
    obtain ⟨items, -, h⟩ := Option.bind_eq_some_iff.mp h
    cases h
    exact ⟨rfl, rfl, rfl⟩
  · cases h
    exact .refl od

theorem later_ack (items : List Item) (item : Item) : Later F items item item.ack := by
  refine ⟨rfl, fun h => ?_, fun h => .inl ?_⟩
  · simpa [Item.ack, Item.isAbandoned] using h
  · simpa [Item.ack, Item.isAbandoned] using h

variable {r : OutstandingData × AckInfo} {ackInfo : AckInfo}

theorem ackChunk_sameItems (h : od.ackChunk ackInfo tsn item = some r) :
    r = (od, ackInfo) ∨ SameItems (od.setItem tsn item.ack) r.1 ∧
      r.2.ackedLifecycleIds = ackInfo.ackedLifecycleIds ∧
      r.2.abandonedLifecycleIds = ackInfo.abandonedLifecycleIds := by
  simp only [ackChunk] at h
  by_cases ha : item.isAcked
  · rw [if_pos ha] at h
    cases h
    exact .inl rfl
  · rw [if_neg ha] at h
    obtain ⟨od₁, h₁, h⟩ := Option.bind_eq_some_iff.mp h
    have hs := sameItems_removeUnacked h₁
    split_ifs at h
    · obtain ⟨-, -, h⟩ := Option.bind_eq_some_iff.mp h
      cases h
      refine .inr ⟨SameItems.setItem ?_ tsn item.ack, rfl, rfl⟩
      exact hs.trans ⟨rfl, rfl, rfl⟩
    · cases h
      exact .inr ⟨hs.setItem tsn item.ack, rfl, rfl⟩

theorem evolves_ackChunk
    (hget : od.getItem tsn = some item) (h : od.ackChunk ackInfo tsn item = some r) :
    Evolves F od r.1 := by
  rcases ackChunk_sameItems h with rfl | ⟨hs, -, -⟩
  · exact .refl od
  · exact (Evolves.setItem hget (later_ack _ item)).trans (.of_sameItems hs)

structure AckEvolves (F : Item → Prop) (s r : OutstandingData × AckInfo) : Prop where
  evolves : Evolves F s.1 r.1
  acked : r.2.ackedLifecycleIds = s.2.ackedLifecycleIds
  abandoned : r.2.abandonedLifecycleIds = s.2.abandonedLifecycleIds

theorem AckEvolves.refl (s : OutstandingData × AckInfo) : AckEvolves F s s := ⟨.refl _, rfl, rfl⟩

theorem AckEvolves.trans {s r q : OutstandingData × AckInfo} (h : AckEvolves F s r)
    (h' : AckEvolves F r q) : AckEvolves F s q :=
  ⟨h.evolves.trans h'.evolves, h'.acked.trans h.acked, h'.abandoned.trans h.abandoned⟩

theorem ackEvolves_ackGapTsn {s r : OutstandingData × AckInfo} (h : ackGapTsn s tsn = some r) :
    AckEvolves F s r := by
  simp only [ackGapTsn] at h
  split_ifs at h
  · obtain ⟨item, hget, h⟩ := Option.bind_eq_some_iff.mp h
    have he : Evolves F s.1 r.1 := evolves_ackChunk hget h
    rcases ackChunk_sameItems h with rfl | ⟨-, hacked, habandoned⟩
    · exact .refl s
    · exact ⟨he, hacked, habandoned⟩
  · cases h
    exact .refl s

variable {blocks : List GapAckBlock} {cum : Int}

theorem ackEvolves_ackGapBlocks
    {s r : OutstandingData × AckInfo} (h : ackGapBlocks cum blocks s = some r) :
    AckEvolves F s r := by
  refine foldlM_invariant (R := AckEvolves F s) h (.refl s) fun s₁ block s₂ h₁ h₂ => ?_
  refine foldlM_invariant (R := AckEvolves F s) h₂ h₁ fun s₃ t s₄ h₃ h₄ => ?_
  exact h₃.trans (ackEvolves_ackGapTsn h₄)

theorem evolves_abandonIfSameMessage (h : item ∈ od.outstandingData) (hf : F item.core) (t : Int) :
    Evolves F od (abandonIfSameMessage item od t) := by
  simp only [abandonIfSameMessage]
  cases hget : od.getItem t with
  | none => exact .refl od
  | some other =>
    by_cases hc : (!other.isAbandoned && other.data.streamId = item.data.streamId &&
        other.messageId = item.messageId) = true
    · have hsame : item.SameMessage other := by
        simp only [Bool.and_eq_true, decide_eq_true_eq] at hc
        exact ⟨hc.1.2.symm, hc.2.symm⟩
      have hl : Later F od.outstandingData other other.abandon :=
        ⟨rfl, fun _ => rfl, fun _ => .inr ⟨item, h, hsame, hf⟩⟩
      simp only [hc, if_true]
      refine (Evolves.setItem hget hl).trans (.of_sameItems (SameItems.setItem ?_ t _))
      split_ifs
      · exact ⟨rfl, rfl, rfl⟩
      · exact .refl od
    · simp only [hc]
      exact .refl od

theorem Evolves.mem (h : Evolves F od od') (hm : item ∈ od.outstandingData) :
    ∃ b ∈ od'.outstandingData, Later F od.outstandingData item b := by
  obtain ⟨t, ht⟩ := getItem_of_mem hm
  obtain ⟨b, hb, hl⟩ := h.later t item ht
  exact ⟨b, mem_of_getItem hb, hl⟩

theorem abandonIfSameMessage_congr (h : item'.core = item.core) (od : OutstandingData) (t : Int) :
    abandonIfSameMessage item' od t = abandonIfSameMessage item od t := by
  simp only [abandonIfSameMessage, messageId_eq_of_core h, data_eq_of_core h]

theorem evolves_abandonLoop (l : List Int) (h : item ∈ od.outstandingData) (hf : F item.core) :
    Evolves F od (l.foldl (abandonIfSameMessage item) od) := by
  induction l generalizing od item with
  | nil => exact .refl od
  | cons t rest ih =>
    have he := evolves_abandonIfSameMessage h hf t
    obtain ⟨b, hb, hl⟩ := he.mem h
    have hloop := ih hb (hl.core ▸ hf)
    simp only [funext₂ (abandonIfSameMessage_congr hl.core)] at hloop
    exact he.trans hloop

theorem getItem_pushBack (od : OutstandingData) (item : Item) (t : Int) :
    (od.pushBack item).getItem t = if t = od.nextTsn then some item else od.getItem t := by
  have hn := od.nextTsn_eq
  apply Option.ext
  intro x
  rw [getItem_eq_some]
  simp only [pushBack]
  constructor
  · rintro ⟨i, rfl, hi⟩
    by_cases hlt : i < od.outstandingData.length
    · rw [List.getElem?_append_left hlt] at hi
      rw [if_neg (by omega), getItem_eq_some]
      exact ⟨i, rfl, hi⟩
    · have hlen := (List.getElem?_eq_some_iff.mp hi).1
      simp only [length_append, length_singleton] at hlen
      obtain rfl : i = od.outstandingData.length := by omega
      rw [if_pos (by omega)]
      simpa using hi
  · intro hx
    split_ifs at hx with ht
    · cases hx
      exact ⟨od.outstandingData.length, by omega, by simp⟩
    · obtain ⟨i, hi, hx⟩ := getItem_eq_some.mp hx
      have hlt := (List.getElem?_eq_some_iff.mp hx).1
      exact ⟨i, hi, by rw [List.getElem?_append_left hlt, hx]⟩

theorem evolves_pushBack_messageEnd (h : item ∈ od.outstandingData) (hf : F item.core) :
    Evolves F od (od.pushBack (messageEnd item)) where
  header := rfl
  last := rfl
  later t a ha := by
    rw [getItem_pushBack, if_neg (by have := (getItem_range ha).2; omega)]
    exact ⟨a, ha, .refl _ a⟩
  placeholder t b hb hn := by
    rw [getItem_pushBack, hn] at hb
    split_ifs at hb
    cases hb
    exact ⟨item, h, hf, rfl⟩

inductive Discards (discard : StreamID → OutgoingMessageId → σ → Bool × σ) : σ → σ → Prop
  | refl (queue : σ) : Discards discard queue queue
  | step {queue queue' : σ} (streamId : StreamID) (messageId : OutgoingMessageId)
      (h : Discards discard (discard streamId messageId queue).2 queue') : Discards discard queue queue'

theorem Discards.trans {queue queue' queue'' : σ} (h : Discards discard queue queue')
    (h' : Discards discard queue' queue'') : Discards discard queue queue'' := by
  induction h with
  | refl queue => exact h'
  | step streamId messageId _ ih => exact .step streamId messageId (ih h')

structure Moves (discard : StreamID → OutgoingMessageId → σ → Bool × σ) (F : Item → Prop)
    (s s' : OutstandingData × σ) : Prop where
  evolves : Evolves F s.1 s'.1
  discards : Discards discard s.2 s'.2

theorem Moves.refl (s : OutstandingData × σ) : Moves discard F s s := ⟨.refl _, .refl _⟩

theorem Moves.trans {s s' s'' : OutstandingData × σ} (h : Moves discard F s s')
    (h' : Moves discard F s' s'') : Moves discard F s s'' :=
  ⟨h.evolves.trans h'.evolves, h.discards.trans h'.discards⟩

theorem moves_abandonAllFor (queue : σ) (h : item ∈ od.outstandingData) (hf : F item.core) :
    Moves discard F (od, queue) (abandonAllFor discard item (od, queue)) := by
  refine ⟨?_, .step item.data.streamId item.messageId (.refl _)⟩
  simp only [abandonAllFor]
  split_ifs
  · have he := evolves_pushBack_messageEnd h hf
    exact he.trans (evolves_abandonLoop _ (mem_append_left _ h) hf)
  · exact evolves_abandonLoop _ h hf

def Exhausted (item : Item) : Prop := ¬ item.numRetransmissions < item.maxRetransmissions

theorem later_nack (retransmitNow : Bool) (h : item ∈ od.outstandingData) :
    Later Exhausted od.outstandingData item (item.nack retransmitNow).1 ∧
      ((item.nack retransmitNow).2 = .kAbandon → Exhausted item) := by
  simp only [Item.nack]
  split_ifs with hc hlt
  · simp only [Bool.and_eq_true, Bool.not_eq_true'] at hc
    exact ⟨⟨rfl, fun ha => absurd ha (by simpa [Item.isAbandoned] using hc.1.2),
      fun ha => by simp [Item.isAbandoned] at ha⟩, by simp⟩
  · exact ⟨⟨rfl, fun _ => rfl, fun _ => .inr ⟨item, h, ⟨rfl, rfl⟩, hlt⟩⟩, fun _ => hlt⟩
  · exact ⟨⟨rfl, id, .inl⟩, by simp⟩

variable {s : OutstandingData × σ}

theorem moves_nackItem {retransmitNow doFast : Bool}
    {r : Bool × OutstandingData × σ} (h : nackItem discard retransmitNow doFast s tsn = some r) :
    Moves discard Exhausted s r.2 := by
  obtain ⟨item, hget, h⟩ := Option.bind_eq_some_iff.mp h
  obtain ⟨od, hod, h⟩ := Option.bind_eq_some_iff.mp h
  have hs := sameItems_removeUnacked hod
  obtain ⟨hl, hex⟩ := later_nack retransmitNow (mem_of_getItem hget)
  have he : Moves discard Exhausted s (od.setItem tsn (item.nack retransmitNow).1, s.2) :=
    ⟨(Evolves.setItem hget hl).trans (.of_sameItems (hs.setItem tsn _)), .refl _⟩
  have hmem : (item.nack retransmitNow).1 ∈
      (od.setItem tsn (item.nack retransmitNow).1).outstandingData := by
    exact mem_of_getItem ((getItem_setItem ((hs.getItem tsn).trans hget)).trans (if_pos rfl))
  generalize item.nack retransmitNow = n at h he hmem hl hex
  obtain ⟨nacked, action⟩ := n
  cases action with
  | kNothing =>
    cases h
    exact he
  | kRetransmit =>
    simp only at h
    split_ifs at h
    all_goals
      cases h
      exact he.trans ⟨.of_sameItems ⟨rfl, rfl, rfl⟩, .refl _⟩
  | kAbandon =>
    cases h
    exact he.trans (moves_abandonAllFor s.2 hmem (hl.core ▸ hex rfl))

theorem moves_nackBefore {maxTsn : Int} {doFast : Bool} {rounds : Nat}
    {s r : Bool × OutstandingData × σ}
    (h : nackBefore discard maxTsn doFast rounds tsn s = some r) :
    Moves discard Exhausted s.2 r.2 := by
  induction rounds generalizing tsn s with
  | zero =>
    cases h
    exact .refl _
  | succ rounds ih =>
    simp only [nackBefore] at h
    split_ifs at h
    · obtain ⟨r₁, h₁, h⟩ := Option.bind_eq_some_iff.mp h
      exact (moves_nackItem h₁).trans (ih (s := (s.1 || r₁.1, r₁.2)) h)
    · cases h
      exact .refl _

theorem moves_nackBlocks {cum maxTsn prev : Int} {doFast : Bool} {s r : Bool × OutstandingData × σ}
    (h : nackBlocks discard cum maxTsn doFast prev blocks s = some r) :
    Moves discard Exhausted s.2 r.2 := by
  induction blocks generalizing prev s with
  | nil =>
    cases h
    exact .refl _
  | cons block blocks ih =>
    obtain ⟨s₁, h₁, h⟩ := Option.bind_eq_some_iff.mp h
    exact (moves_nackBefore h₁).trans (ih h)

theorem moves_nackAll {s r : OutstandingData × σ} (h : nackAll discard s = some r) :
    Moves discard Exhausted s r := by
  refine foldlM_invariant (R := Moves discard Exhausted s) h (.refl s) ?_
  intro s₁ tsn s₂ h₁ h₂
  obtain ⟨r₁, hr₁, h₂⟩ := Option.bind_eq_some_iff.mp h₂
  cases h₂
  exact h₁.trans (moves_nackItem hr₁)

def Expired (now : Timestamp) (item : Item) : Prop := item.hasExpired now

theorem moves_expireLoop {now : Timestamp} (l : List Int) (s : OutstandingData × σ) :
    Moves discard (Expired now) s (expireLoop discard now l s) := by
  induction l generalizing s with
  | nil => exact .refl _
  | cons t rest ih =>
    simp only [expireLoop]
    cases hget : s.1.getItem t with
    | none => exact .refl _
    | some item =>
      simp only
      split_ifs with hab hexp
      · exact ih s
      · simp only [Bool.and_eq_true] at hexp
        exact (moves_abandonAllFor s.2 (mem_of_getItem hget) hexp.2).trans (ih _)
      · exact .refl _

theorem moves_insert (messageId : OutgoingMessageId) (data : Data) (now : Timestamp)
    (maxRetransmissions : MaxRetransmits) (expiresAt : Timestamp) (lifecycleId : LifecycleId)
    (s : OutstandingData × σ) : Moves discard (Expired now)
      (s.1.pushBack (Item.new messageId data now maxRetransmissions expiresAt lifecycleId), s.2)
      (insert discard messageId data now maxRetransmissions expiresAt lifecycleId s).2 := by
  simp only [insert]
  split_ifs with hexp
  · refine Moves.trans ?_ (moves_abandonAllFor s.2 ?_ hexp)
    · exact ⟨.of_sameItems ⟨rfl, rfl, rfl⟩, .refl _⟩
    · exact mem_append_right _ (mem_singleton.mpr rfl)
  · exact ⟨.of_sameItems ⟨rfl, rfl, rfl⟩, .refl _⟩

structure Acked (od : OutstandingData) (ackInfo : AckInfo) (popped : List Item)
    (r : OutstandingData × AckInfo) : Prop where
  header : r.1.dataChunkHeaderSize = od.dataChunkHeaderSize
  data : od.outstandingData = popped ++ r.1.outstandingData
  last : r.1.lastCumulativeTsnAck = od.lastCumulativeTsnAck + popped.length
  acked : r.2.ackedLifecycleIds = ackInfo.ackedLifecycleIds ++
    (popped.filter fun x => x.lifecycleId ≠ 0 ∧ ¬ x.isAbandoned).map Item.lifecycleId
  abandoned : r.2.abandonedLifecycleIds = ackInfo.abandonedLifecycleIds ++
    (popped.filter fun x => x.lifecycleId ≠ 0 ∧ x.isAbandoned).map Item.lifecycleId

theorem acked_popFront {rest : List Item} (hd : od.outstandingData = item :: rest)
    (h : od.ackChunk ackInfo (od.lastCumulativeTsnAck + 1) item = some r) :
    Acked od ackInfo [item] (r.1.popFront, addLifecycleId r.2 item) := by
  have hfront : SameItems od r.1 ∨ SameItems (od.setItem (od.lastCumulativeTsnAck + 1) item.ack) r.1 := by
    rcases ackChunk_sameItems h with rfl | ⟨hs, -⟩
    · exact .inl (.refl od)
    · exact .inr hs
  have hids : r.2.ackedLifecycleIds = ackInfo.ackedLifecycleIds ∧
      r.2.abandonedLifecycleIds = ackInfo.abandonedLifecycleIds := by
    rcases ackChunk_sameItems h with rfl | ⟨-, hids⟩
    · exact ⟨rfl, rfl⟩
    · exact hids
  have htail : r.1.outstandingData.tail = rest := by
    rcases hfront with hs | hs
    · rw [hs.data, hd, tail_cons]
    · simp [hs.data, setItem, hd]
  refine ⟨?_, by simp [popFront, htail, hd], ?_, ?_, ?_⟩
  · rcases hfront with hs | hs <;> exact hs.header
  · rcases hfront with hs | hs <;> simp [popFront, hs.last, setItem]
  all_goals
    by_cases h0 : item.lifecycleId = 0#64
    · simp [addLifecycleId, hids, h0]
    · by_cases hab : item.isAbandoned <;> simp [addLifecycleId, hids, h0, hab]

theorem Acked.trans {p₁ p₂ : List Item} {r₁ r₂ : OutstandingData × AckInfo}
    (h₁ : Acked od ackInfo p₁ r₁) (h₂ : Acked r₁.1 r₁.2 p₂ r₂) :
    Acked od ackInfo (p₁ ++ p₂) r₂ where
  header := h₂.header.trans h₁.header
  data := by rw [h₁.data, h₂.data, append_assoc]
  last := by rw [h₂.last, h₁.last, length_append, Nat.cast_add, add_assoc]
  acked := by rw [h₂.acked, h₁.acked, filter_append, map_append, append_assoc]
  abandoned := by
    rw [h₂.abandoned, h₁.abandoned, filter_append, map_append, append_assoc]

theorem acked_removeAckedLoop {rounds : Nat} {s r : OutstandingData × AckInfo}
    (h : removeAckedLoop cum rounds s = some r) : ∃ popped, Acked s.1 s.2 popped r := by
  induction rounds generalizing s with
  | zero =>
    cases h
    exact ⟨[], rfl, by simp, by simp, by simp, by simp⟩
  | succ rounds ih =>
    obtain ⟨od, ackInfo⟩ := s
    simp only [removeAckedLoop] at h
    cases hd : od.outstandingData with
    | nil =>
      simp only [hd] at h
      cases h
      exact ⟨[], rfl, by simp, by simp, by simp, by simp⟩
    | cons item rest =>
      simp only [hd] at h
      split_ifs at h
      · obtain ⟨⟨od₁, ackInfo₁⟩, h₁, h⟩ := Option.bind_eq_some_iff.mp h
        obtain ⟨popped, hp⟩ := ih h
        exact ⟨[item] ++ popped, (acked_popFront hd h₁).trans hp⟩
      · cases h
        exact ⟨[], rfl, by simp, by simp, by simp, by simp⟩

theorem acked_removeAcked
    (h : od.removeAcked cum ackInfo = some r) : ∃ popped, Acked od ackInfo popped r := by
  obtain ⟨⟨od₁, ackInfo₁⟩, h₁, h⟩ := Option.bind_eq_some_iff.mp h
  cases h
  obtain ⟨popped, hp⟩ := acked_removeAckedLoop h₁
  exact ⟨popped, hp.header, hp.data, hp.last, hp.acked, hp.abandoned⟩

theorem moves_handleSack {isInFastRecovery : Bool} {r : AckInfo × OutstandingData × σ}
    (h : handleSack discard cum blocks isInFastRecovery s = some r) :
    ∃ popped od₁, Acked s.1 (AckInfo.new cum) popped (od₁, r.1) ∧
      Moves discard Exhausted (od₁, s.2) r.2 := by
  obtain ⟨⟨od₁, ackInfo₁⟩, h₁, h⟩ := Option.bind_eq_some_iff.mp h
  obtain ⟨⟨od₂, ackInfo₂⟩, h₂, h⟩ := Option.bind_eq_some_iff.mp h
  obtain ⟨⟨loss, od₃, queue⟩, h₃, h⟩ := Option.bind_eq_some_iff.mp h
  cases h
  obtain ⟨popped, hp⟩ := acked_removeAcked h₁
  have hg : AckEvolves Exhausted (od₁, ackInfo₁) (od₂, ackInfo₂) := ackEvolves_ackGapBlocks h₂
  refine ⟨popped, od₁, ⟨hp.header, hp.data, hp.last, hg.acked.trans hp.acked,
    hg.abandoned.trans hp.abandoned⟩, ?_⟩
  have hgap : Moves discard Exhausted (od₁, s.2) (od₂, s.2) := ⟨hg.evolves, .refl _⟩
  exact hgap.trans (moves_nackBlocks h₃)

theorem isAbandoned_abandonIfSameMessage (hget : od.getItem t = some item')
    (hsame : item.SameMessage item') :
    ∃ b, (abandonIfSameMessage item od t).getItem t = some b ∧ b.isAbandoned := by
  simp only [abandonIfSameMessage, hget]
  by_cases hab : item'.isAbandoned
  · exact ⟨item', by simp [hab, hget], hab⟩
  · simp only [hab, Bool.not_false, hsame.1, hsame.2, decide_true, Bool.and_self, if_true]
    refine ⟨item'.abandon, ?_, rfl⟩
    split_ifs
    · exact (getItem_setItem (t := t) hget).trans (if_pos rfl)
    · exact (getItem_setItem hget).trans (if_pos rfl)

theorem isAbandoned_abandonLoop {l : List Int} (hmem : item ∈ od.outstandingData) (ht : t ∈ l)
    (hget : od.getItem t = some item') (hsame : item.SameMessage item') :
    ∃ b, (l.foldl (abandonIfSameMessage item) od).getItem t = some b ∧ b.isAbandoned := by
  induction l generalizing od item item' with
  | nil => cases ht
  | cons u rest ih =>
    have he : Evolves (fun _ => True) od (abandonIfSameMessage item od u) :=
      evolves_abandonIfSameMessage hmem trivial u
    obtain ⟨x, hx, hxl⟩ := he.mem hmem
    have hstep : u = t → ∃ b, (abandonIfSameMessage item od u).getItem t = some b ∧
        b.isAbandoned := by
      rintro rfl
      exact isAbandoned_abandonIfSameMessage hget hsame
    rw [foldl_cons]
    generalize abandonIfSameMessage item od u = od₁ at he hx hstep ⊢
    rw [← funext₂ (abandonIfSameMessage_congr hxl.core)]
    by_cases hu : u = t
    · obtain ⟨b, hb, hab⟩ := hstep hu
      have hloop : Evolves (fun _ => True) od₁ (rest.foldl (abandonIfSameMessage x) od₁) :=
        evolves_abandonLoop rest hx trivial
      obtain ⟨b', hb', hl⟩ := hloop.later t b hb
      exact ⟨b', hb', hl.keeps hab⟩
    · obtain ⟨b, hb, hl⟩ := he.later t item' hget
      have hrest : t ∈ rest := (mem_cons.mp ht).resolve_left (Ne.symm hu)
      exact ih hx hrest hb (hsame.of_core hxl.core hl.core)

theorem isAbandoned_insert {messageId : OutgoingMessageId} {data : Data} {now expiresAt : Timestamp}
    {maxRetransmissions : MaxRetransmits} {lifecycleId : LifecycleId}
    (h : (insert discard messageId data now maxRetransmissions expiresAt lifecycleId s).1 = none) :
    ∃ b, (insert discard messageId data now maxRetransmissions expiresAt lifecycleId s).2.1.getItem
      s.1.nextTsn = some b ∧ b.isAbandoned := by
  simp only [insert] at h ⊢
  split_ifs at h ⊢ with hexp
  set item := Item.new messageId data now maxRetransmissions expiresAt lifecycleId
  set od := { s.1.pushBack item with
    unackedBytes := s.1.unackedBytes + s.1.getSerializedChunkSize data
    unackedItems := s.1.unackedItems + 1 }
  have hget : od.getItem s.1.nextTsn = some item := by
    show (s.1.pushBack item).getItem s.1.nextTsn = some item
    rw [getItem_pushBack, if_pos rfl]
  have hloop : ∀ od' : OutstandingData, od'.getItem s.1.nextTsn = some item →
      ∃ b, (od'.tsns.foldl (abandonIfSameMessage item) od').getItem s.1.nextTsn = some b ∧
        b.isAbandoned := by
    intro od' hget'
    have hrange := getItem_range hget'
    exact isAbandoned_abandonLoop (mem_of_getItem hget') (mem_tsns.mpr hrange) hget' ⟨rfl, rfl⟩
  simp only [abandonAllFor]
  split_ifs
  · refine hloop _ ?_
    rw [getItem_pushBack, if_neg, hget]
    have hrange := (getItem_range hget).2
    omega
  · exact hloop _ hget

structure Resends (od od' : OutstandingData) : Prop where
  header : od'.dataChunkHeaderSize = od.dataChunkHeaderSize
  last : od'.lastCumulativeTsnAck = od.lastCumulativeTsnAck
  none : ∀ t, od.getItem t = none → od'.getItem t = none
  some : ∀ t a, od.getItem t = some a → od'.getItem t = some a ∨
    a.shouldBeRetransmitted ∧ od'.getItem t = some a.markAsRetransmitted

theorem Resends.refl (od : OutstandingData) : Resends od od :=
  ⟨rfl, rfl, fun _ h => h, fun _ _ h => .inl h⟩

theorem Resends.trans (h : Resends od od') (h' : Resends od' od'') : Resends od od'' where
  header := h'.header.trans h.header
  last := h'.last.trans h.last
  none t ht := h'.none t (h.none t ht)
  some t a ha := by
    rcases h.some t a ha with hb | ⟨hr, hb⟩
    · exact h'.some t a hb
    · refine .inr ⟨hr, ?_⟩
      rcases h'.some t _ hb with hc | ⟨hr', -⟩
      · exact hc
      · simp [Item.markAsRetransmitted, Item.shouldBeRetransmitted] at hr'

theorem SameItems.resends (h : SameItems od od') : Resends od od' where
  header := h.header
  last := h.last
  none t ht := (h.getItem t).trans ht
  some t _ ha := .inl ((h.getItem t).trans ha)

theorem resends_retransmit (fast : Bool) (hget : od.getItem tsn = some item)
    (hs : item.shouldBeRetransmitted) : Resends od (od.retransmit fast tsn item) := by
  have hitem : ∀ t, (od.retransmit fast tsn item).getItem t =
      if t = tsn then .some item.markAsRetransmitted else od.getItem t := fun t =>
    getItem_setItem hget
  refine ⟨rfl, rfl, fun t ht => ?_, fun t a ha => ?_⟩
  · rw [hitem, if_neg, ht]
    rintro rfl
    rw [hget] at ht
    cases ht
  · by_cases ht : t = tsn
    · subst ht
      cases hget.symm.trans ha
      exact .inr ⟨hs, by rw [hitem, if_pos rfl]⟩
    · exact .inl (by rw [hitem, if_neg ht, ha])

theorem resends_extractLoop {fast : Bool} {l : List Int} {maxSize : Nat}
    {r : List (TSN × Data) × OutstandingData} (h : extractLoop fast l maxSize od = some r) :
    Resends od r.2 := by
  induction l generalizing od maxSize r with
  | nil =>
    cases h
    exact .refl od
  | cons tsn rest ih =>
    obtain ⟨item, hget, h⟩ := Option.bind_eq_some_iff.mp h
    obtain ⟨⟨⟩, hguard, h⟩ := Option.bind_eq_some_iff.mp h
    have hshould : item.shouldBeRetransmitted = true := by
      by_contra hn
      simp [guard, hn] at hguard
    have hresend := resends_retransmit fast hget hshould
    simp only at h
    split_ifs at h
    · cases h
      exact hresend
    · obtain ⟨r₁, h₁, h⟩ := Option.bind_eq_some_iff.mp h
      cases h
      have hrest := ih h₁
      exact hresend.trans hrest
    · cases h
      exact .refl od
    · exact ih h

end WebRtc.DcSctp.OutstandingData
