import WebRtc.Stun.Signing

/-! Which attributes of an accepted message lie before its validated integrity attribute. `Read` also
stores what follows that attribute, so a message exposes only covered attributes exactly when nothing
new follows it. -/

namespace WebRtc.Stun

open ByteBuffer Option

variable {α β : Type} {k : Nat} {r : Reader α}

/-- After `k` bytes of a buffer whose size is a multiple of four, the reader takes bytes up to such a
multiple, and looks at no others. -/
def AlignedAt (k : Nat) (r : Reader α) : Prop :=
  ∀ buf x rest, (k + buf.length) % 4 = 0 → r.run buf = some (x, rest) →
    ∃ used, (k + used.length) % 4 = 0 ∧ buf = used ++ rest ∧ Reads r used x

variable {n : Nat}

theorem alignedAt_of_fixed (h : Fixed r n) (hn : (k + n) % 4 = 0) : AlignedAt k r := by
  intro buf x rest _ hrun
  obtain ⟨used, hlen, hbuf, hreads⟩ := h buf x rest hrun
  exact ⟨used, by rwa [hlen], hbuf, hreads⟩

theorem AlignedAt.bind {f : α → Reader β} (h : Fixed r n)
    (hf : ∀ x, AlignedAt (k + n) (f x)) : AlignedAt k (r >>= f) := by
  intro buf y rest hlen hrun
  rw [StateT.run_bind] at hrun
  obtain ⟨⟨x, mid⟩, hx, hy⟩ := bind_eq_some_iff.mp hrun
  obtain ⟨u, hu, rfl, hreads⟩ := h _ _ _ hx
  rw [List.length_append, hu, ← Nat.add_assoc] at hlen
  obtain ⟨v, hv, rfl, hreads'⟩ := hf x _ _ _ hlen hy
  refine ⟨u ++ v, ?_, (List.append_assoc ..).symm, hreads.bind hreads'⟩
  rwa [List.length_append, hu, ← Nat.add_assoc]

theorem AlignedAt.map (h : AlignedAt k r) (g : α → β) : AlignedAt k (do return g (← r)) := by
  intro buf y rest hlen hrun
  rw [StateT.run_bind] at hrun
  obtain ⟨⟨x, mid⟩, hx, hy⟩ := bind_eq_some_iff.mp hrun
  cases hy
  obtain ⟨u, hu, hbuf, hreads⟩ := h _ _ _ hlen hx
  exact ⟨u, hu, hbuf, hreads.map g⟩

theorem AlignedAt.guard_bind {p : Prop} [Decidable p] {r : Unit → Reader α}
    (h : p → AlignedAt k (r ())) : AlignedAt k (guard p >>= r) := by
  intro buf x rest hlen hrun
  obtain ⟨hp, hrun⟩ := of_run_guard_bind hrun
  obtain ⟨u, hu, hbuf, hreads⟩ := h hp buf x rest hlen hrun
  exact ⟨u, hu, hbuf, hreads.guard_bind hp⟩

theorem add_padding_mod (length : Nat) : (length + padding length) % 4 = 0 := by
  rw [padding]
  split_ifs <;> omega

theorem alignedAt_consumePadding {length : Nat} (h : k % 4 = length % 4) :
    AlignedAt k (consumePadding length) := by
  intro buf x rest hlen hrun
  have hpad := add_padding_mod length
  change (if _ then _ else _) = _ at hrun
  have hle : padding length ≤ buf.length := by
    rw [padding] at hpad ⊢
    split_ifs at hpad ⊢ <;> omega
  rw [if_pos hle] at hrun
  cases hrun
  refine ⟨buf.take (padding length), ?_, (List.take_append_drop _ buf).symm, ?_⟩
  · rw [List.length_take_of_le hle]
    omega
  · intro rest
    have htake := List.length_take_of_le hle
    have hle' : padding length ≤ (buf.take (padding length) ++ rest).length := by
      rw [List.length_append]
      omega
    show (if _ then _ else _) = _
    rw [if_pos hle', List.drop_left' htake]

theorem fixed_readAddress (length : BitVec 16) :
    Fixed (readAddress length) (1 + (1 + (2 + if length = 8 then 4 else 16))) := by
  unfold readAddress
  refine fixed_readUInt8.bind fun _ => fixed_readUInt8.bind fun family => fixed_readUInt16.bind
    fun port => ?_
  split_ifs with hfour hlength hsix hlength
  · exact Fixed.guard_bind fun _ => (fixed_readVector 4).map _
  · exact Fixed.guard_bind fun h => absurd h hlength
  · refine Fixed.guard_bind fun h => ?_
    rw [hlength] at h
    cases h
  · exact Fixed.guard_bind fun _ => (fixed_readVector 16).map _
  · exact fixed_failure _
  · exact fixed_failure _

theorem alignedAt_readAttribute (transactionId : List UInt8) (type length : BitVec 16)
    (valueType : StunAttributeValueType) :
    AlignedAt 0 (readAttribute transactionId type length valueType) := by
  have haddress : AlignedAt 0 (readAddress length) := by
    refine alignedAt_of_fixed (fixed_readAddress length) ?_
    split_ifs <;> rfl
  cases valueType with
  | unknown => exact nofun
  | address => exact haddress.map _
  | xorAddress => exact (haddress.map _).map _
  | uint32 => exact (alignedAt_of_fixed fixed_readUInt32 rfl).map _
  | uint64 => exact (alignedAt_of_fixed fixed_readUInt64 rfl).map _
  | byteString =>
    refine AlignedAt.map (AlignedAt.bind (fixed_readBytes _) fun bytes => ?_) _
    exact (alignedAt_consumePadding (by rw [Nat.zero_add])).map _
  | errorCode =>
    refine AlignedAt.map (AlignedAt.guard_bind fun hlength => ?_) _
    refine AlignedAt.bind fixed_readUInt32 fun val => ?_
    refine AlignedAt.bind (fixed_readBytes _) fun reason => ?_
    exact (alignedAt_consumePadding (by omega)).map _
  | uint16List =>
    refine AlignedAt.map (AlignedAt.guard_bind fun hlength => ?_) _
    refine AlignedAt.bind (fixed_readMany fixed_readUInt16 _) fun types => ?_
    exact (alignedAt_consumePadding (by omega)).map _

namespace StunMessage

variable {c : MessageClass} {m m' : StunMessage} {transactionId : List UInt8}
variable {hmac : List UInt8 → List UInt8 → Vector UInt8 20} {password : List UInt8}

theorem alignedAt_readNext : AlignedAt 0 (readNext c transactionId) := by
  refine AlignedAt.bind fixed_readUInt16 fun attrType => ?_
  refine AlignedAt.bind fixed_readUInt16 fun attrLength => ?_
  cases createAttribute c attrType with
  | none =>
    refine (alignedAt_of_fixed (fixed_consume _) ?_).map fun _ => none
    have hpad := add_padding_mod attrLength.toNat
    rw [BitVec.toNat_add, BitVec.toNat_ofNat]
    omega
  | some valueType =>
    intro buf x rest hlen hrun
    obtain ⟨used, hused, hbuf, hreads⟩ :=
      (alignedAt_readAttribute transactionId attrType attrLength valueType).map some buf x rest
        (by omega) hrun
    exact ⟨used, by omega, hbuf, hreads⟩

theorem four_le_of_reads {used : List UInt8} {a : Option StunAttribute}
    (h : Reads (readNext c transactionId) used a) : 4 ≤ used.length := by
  have hrun := h []
  rw [readNext, StateT.run_bind] at hrun
  obtain ⟨⟨type, mid⟩, htype, hrun⟩ := bind_eq_some_iff.mp hrun
  obtain ⟨u, hu, hused, -⟩ := fixed_readUInt16 _ _ _ htype
  rw [StateT.run_bind] at hrun
  obtain ⟨⟨length, rest⟩, hlength, -⟩ := bind_eq_some_iff.mp hrun
  obtain ⟨v, hv, rfl, -⟩ := fixed_readUInt16 _ _ _ hlength
  have hlen := congrArg List.length hused
  simp only [List.length_append, List.length_nil] at hlen
  omega

/-- The rounds of the loop of `Read` over the bytes store the attributes, whatever follows. -/
inductive Rounds (c : MessageClass) (transactionId : List UInt8) :
    List UInt8 → List StunAttribute → Prop
  | nil : Rounds c transactionId [] []
  | round {used bytes : List UInt8} {a : Option StunAttribute} {attrs : List StunAttribute}
      (hread : Reads (readNext c transactionId) used a) (h : Rounds c transactionId bytes attrs) :
      Rounds c transactionId (used ++ bytes) (a.toList ++ attrs)

theorem readAttributes_zero (buf : List UInt8) :
    (readAttributes c transactionId 0).run buf = if buf = [] then some ([], []) else none := by
  cases buf <;> rfl

theorem Rounds.readAttributes_append {bytes rest : List UInt8} {attrs all : List StunAttribute}
    (h : Rounds c transactionId bytes attrs) {buf : List UInt8}
    (hrun : (readAttributes c transactionId n).run (bytes ++ rest) = some (all, buf)) :
    ∃ k more, (readAttributes c transactionId k).run rest = some (more, buf) ∧
      all = attrs ++ more := by
  induction h generalizing n all with
  | nil => exact ⟨n, all, hrun, rfl⟩
  | @round used bytes a attrs hread _ ih =>
    rw [List.append_assoc] at hrun
    have hused := four_le_of_reads hread
    have hne : used ≠ [] := List.ne_nil_of_length_pos (by omega)
    cases n with
    | zero =>
      rw [readAttributes_zero, if_neg (by simp [hne])] at hrun
      cases hrun
    | succ n =>
      rw [readAttributes_of_reads hread hne] at hrun
      obtain ⟨⟨attrs', buf'⟩, hrest, heq⟩ := map_eq_some_iff.mp hrun
      cases heq
      obtain ⟨k, more, hmore, rfl⟩ := ih hrest
      exact ⟨k, more, hmore, by rw [List.append_assoc]⟩

variable {a : StunAttribute}

theorem exists_rounds {buf rest : List UInt8} {before after : List StunAttribute}
    (hlen : buf.length % 4 = 0)
    (hrun : (readAttributes c transactionId n).run buf = some (before ++ a :: after, rest)) :
    ∃ bytes used tail, buf = bytes ++ (used ++ tail) ∧ Rounds c transactionId bytes before ∧
      Reads (readNext c transactionId) used (some a) := by
  induction n generalizing buf rest before with
  | zero =>
    rw [readAttributes_zero] at hrun
    by_cases hempty : buf = []
    · rw [if_pos hempty] at hrun
      have hnil : before ++ a :: after = [] := congrArg Prod.fst (Option.some.inj hrun).symm
      exact absurd hnil (by simp)
    · rw [if_neg hempty] at hrun
      cases hrun
  | succ n ih =>
    by_cases hempty : buf = []
    · rw [hempty, readAttributes_nil] at hrun
      have hnil : before ++ a :: after = [] := congrArg Prod.fst (Option.some.inj hrun).symm
      exact absurd hnil (by simp)
    · cases hnext : (readNext c transactionId).run buf with
      | none =>
        rw [readAttributes, StateT.run_bind] at hrun
        change (if buf.isEmpty = true then _ else _ : Reader _).run _ = _ at hrun
        rw [if_neg (by simpa using hempty), StateT.run_bind, hnext] at hrun
        cases hrun
      | some result =>
        obtain ⟨x, mid⟩ := result
        obtain ⟨used, hused, rfl, hreads⟩ := alignedAt_readNext buf x mid (by omega) hnext
        rw [readAttributes_of_reads hreads
          (List.ne_nil_of_length_pos (by have := four_le_of_reads hreads; omega))] at hrun
        obtain ⟨⟨attrs, buf'⟩, hrest, heq⟩ := map_eq_some_iff.mp hrun
        have hattrs : x.toList ++ attrs = before ++ a :: after := congrArg Prod.fst heq
        have hmid : mid.length % 4 = 0 := by
          rw [List.length_append] at hlen
          omega
        cases x with
        | none =>
          rw [toList_none, List.nil_append] at hattrs
          rw [hattrs] at hrest
          obtain ⟨bytes, used', tail, rfl, hrounds, hreads'⟩ := ih hmid hrest
          refine ⟨used ++ bytes, used', tail, by rw [List.append_assoc], ?_, hreads'⟩
          exact .round hreads hrounds
        | some y =>
          cases before with
          | nil =>
            cases hattrs
            exact ⟨[], used, mid, rfl, .nil, hreads⟩
          | cons b before =>
            rw [toList_some, List.cons_append, List.nil_append, List.cons_append] at hattrs
            cases hattrs
            obtain ⟨bytes, used', tail, rfl, hrounds, hreads'⟩ := ih hmid hrest
            refine ⟨used ++ bytes, used', tail, by rw [List.append_assoc], ?_, hreads'⟩
            exact .round hreads hrounds

theorem reads_unique {u u' t t' : List UInt8} {x x' : α} (h : Reads r u x)
    (h' : Reads r u' x') (heq : u ++ t = u' ++ t') : u = u' ∧ x = x' ∧ t = t' := by
  have hrun := h t
  rw [heq, h' t'] at hrun
  cases hrun
  exact ⟨List.append_cancel_right heq, rfl, rfl⟩

variable {l₁ l₂ : List StunAttribute}

theorem Rounds.exists_append {b₁ b₂ t₁ t₂ : List UInt8}
    (h₁ : Rounds c transactionId b₁ l₁) (h₂ : Rounds c transactionId b₂ l₂)
    (heq : b₁ ++ t₁ = b₂ ++ t₂) (hlen : b₁.length ≤ b₂.length) :
    ∃ d l, b₂ = b₁ ++ d ∧ l₂ = l₁ ++ l ∧ Rounds c transactionId d l := by
  induction h₁ generalizing b₂ l₂ with
  | nil => exact ⟨b₂, l₂, rfl, rfl, h₂⟩
  | round hread _ ih =>
    have hused := four_le_of_reads hread
    rw [List.length_append] at hlen
    cases h₂ with
    | nil =>
      rw [List.length_nil] at hlen
      omega
    | round hread' h₂ =>
      rw [List.append_assoc, List.append_assoc] at heq
      obtain ⟨rfl, rfl, hrest⟩ := reads_unique hread hread' heq
      rw [List.length_append] at hlen
      obtain ⟨d, l, rfl, rfl, hd⟩ := ih h₂ hrest (by omega)
      exact ⟨d, l, by rw [List.append_assoc], by rw [List.append_assoc], hd⟩

theorem Rounds.mem_of_lt {b₁ b₂ u t₁ t₂ : List UInt8} (h₁ : Rounds c transactionId b₁ l₁)
    (hread : Reads (readNext c transactionId) u (some a)) (h₂ : Rounds c transactionId b₂ l₂)
    (heq : b₁ ++ (u ++ t₁) = b₂ ++ t₂) (hlen : b₁.length < b₂.length) : a ∈ l₂ := by
  obtain ⟨d, l, rfl, rfl, hd⟩ := h₁.exists_append h₂ heq hlen.le
  rw [List.append_assoc] at heq
  have hrest := List.append_cancel_left heq
  cases hd with
  | nil => simp at hlen
  | round hread' hd =>
    rw [List.append_assoc] at hrest
    obtain ⟨-, rfl, -⟩ := reads_unique hread hread' hrest
    exact List.mem_append_right _ (List.mem_append_left _ (List.mem_singleton_self a))

def exempt (type : BitVec 16) : Bool :=
  decide (type = StunAttr.fingerprint) || decide (type = StunAttr.messageIntegrity) ||
    decide (type = StunAttr.googMessageIntegrity32)

/-- The position of the integrity attribute that `ValidateMessageIntegrity` looks at. -/
def validatedPosition (m : StunMessage) : Option Nat :=
  if (m.getAttribute StunAttr.messageIntegrity).isSome then
    integrityPosition StunAttr.messageIntegrity 20 m.buffer
  else integrityPosition StunAttr.googMessageIntegrity32 4 m.buffer

/-- An attribute of the message, from the bytes `used` after `bytes`, with those stored before it. -/
structure StoredFrom (c : MessageClass) (m : StunMessage) (bytes used : List UInt8)
    (before : List StunAttribute) (a : StunAttribute) : Prop where
  buffer : ∃ tail, m.buffer.drop 20 = bytes ++ (used ++ tail)
  before : Rounds c m.transactionId bytes before
  reads : Reads (readNext c m.transactionId) used (some a)

def Covered (c : MessageClass) (m : StunMessage) (pos : Nat) : Prop :=
  ∀ type a, exempt type = false → m.getAttribute type = some a →
    ∃ bytes used before, StoredFrom c m bytes used before a ∧ (∀ b ∈ before, b.type ≠ type) ∧
      20 + (bytes.length + used.length) ≤ pos

/-- An attribute that `Read` stores from past the position is exempt or repeats the type of one
before it. -/
def NothingNew (c : MessageClass) (m : StunMessage) (pos : Nat) : Prop :=
  ∀ bytes used before a, StoredFrom c m bytes used before a →
    pos < 20 + (bytes.length + used.length) → exempt a.type = false → ∃ b ∈ before, b.type = a.type

def AgreeUpTo (pos : Nat) (data data' : List UInt8) : Prop :=
  data.take 2 = data'.take 2 ∧ (data.take pos).drop 4 = (data'.take pos).drop 4

theorem fixed_readHeader : Fixed readHeader (2 + (2 + (4 + (12 + 0)))) := by
  refine fixed_readUInt16.bind fun type => Fixed.guard_bind fun _ => fixed_readUInt16.bind
    fun length => (fixed_readBytes 4).bind fun magicCookie => (fixed_readBytes 12).bind
    fun id => ?_
  split_ifs
  · exact fixed_pure _
  · exact fixed_pure _

theorem exists_of_read {data : List UInt8} (h : read c data = some m) :
    m.buffer = data ∧ 20 ≤ data.length ∧ ∃ n rest,
      (readAttributes c m.transactionId n).run (data.drop 20) = some (m.attrs, rest) := by
  obtain ⟨⟨⟨type, length, id⟩, buf⟩, hheader, h⟩ := bind_eq_some_iff.mp h
  obtain ⟨-, -, h⟩ := bind_eq_some_iff.mp h
  obtain ⟨⟨attrs, rest⟩, hattrs, h⟩ := bind_eq_some_iff.mp h
  cases h
  obtain ⟨used, hused, rfl, -⟩ := fixed_readHeader _ _ _ hheader
  refine ⟨rfl, ?_, buf.length, rest, ?_⟩
  · rw [List.length_append]
    omega
  · rw [List.drop_left' hused]
    exact hattrs

theorem getAttribute_eq_some {type : BitVec 16} :
    m.getAttribute type = some a ↔ a.type = type ∧ ∃ before after,
      m.attrs = before ++ a :: after ∧ ∀ b ∈ before, b.type ≠ type := by
  rw [getAttribute, List.find?_eq_some_iff_append]
  simp

theorem StoredFrom.getAttribute {data bytes used : List UInt8} {before : List StunAttribute}
    (hread : read c data = some m) (h : StoredFrom c m bytes used before a)
    (hfirst : ∀ b ∈ before, b.type ≠ a.type) : m.getAttribute a.type = some a := by
  obtain ⟨rfl, -, n, rest, hrun⟩ := exists_of_read hread
  obtain ⟨tail, htail⟩ := h.buffer
  rw [htail] at hrun
  obtain ⟨k, more, hmore, hattrs⟩ := h.before.readAttributes_append hrun
  have hone : Rounds c m.transactionId (used ++ []) ((some a).toList ++ []) := .round h.reads .nil
  rw [List.append_nil] at hone
  obtain ⟨-, more', -, rfl⟩ := hone.readAttributes_append hmore
  exact getAttribute_eq_some.mpr ⟨rfl, before, more', hattrs, hfirst⟩

theorem covered_iff_nothingNew {data : List UInt8} (hread : read c data = some m)
    (hlen : data.length % 4 = 0) (pos : Nat) : Covered c m pos ↔ NothingNew c m pos := by
  constructor
  · intro hcovered bytes used before a hstored hpast hexempt
    by_contra hnone
    have hfirst : ∀ b ∈ before, b.type ≠ a.type := fun b hb heq => hnone ⟨b, hb, heq⟩
    obtain ⟨bytes', used', before', hstored', hfirst', hend⟩ :=
      hcovered a.type a hexempt (hstored.getAttribute hread hfirst)
    obtain ⟨tail, htail⟩ := hstored.buffer
    obtain ⟨tail', htail'⟩ := hstored'.buffer
    have heq : bytes ++ (used ++ tail) = bytes' ++ (used' ++ tail') := htail.symm.trans htail'
    rcases lt_trichotomy bytes.length bytes'.length with hlt | hsame | hgt
    · exact hfirst' a (hstored.before.mem_of_lt hstored.reads hstored'.before heq hlt) rfl
    · obtain ⟨-, hrest⟩ := List.append_inj heq hsame
      obtain ⟨rfl, -, -⟩ := reads_unique hstored.reads hstored'.reads hrest
      omega
    · exact hfirst a (hstored'.before.mem_of_lt hstored'.reads hstored.before heq.symm hgt) rfl
  · intro hnew type a hexempt hget
    obtain ⟨rfl, before, after, hattrs, hfirst⟩ := getAttribute_eq_some.mp hget
    obtain ⟨hbuffer, hheader, n, rest, hrun⟩ := exists_of_read hread
    rw [hattrs] at hrun
    obtain ⟨bytes, used, tail, htail, hrounds, hreads⟩ := exists_rounds (by
      rw [List.length_drop]
      omega) hrun
    have hstored : StoredFrom c m bytes used before a :=
      ⟨⟨tail, by rw [hbuffer, htail]⟩, hrounds, hreads⟩
    refine ⟨bytes, used, before, hstored, hfirst, ?_⟩
    by_contra hpast
    obtain ⟨b, hb, htype⟩ := hnew bytes used before a hstored (by omega) hexempt
    exact hfirst b hb htype

variable {miType : BitVec 16}

theorem le_of_findIntegrity {miSize n start pos : Nat} {data : List UInt8}
    (h : findIntegrity miType miSize data n start = some pos) : start ≤ pos ∧ pos ≤ data.length := by
  induction n generalizing start with
  | zero => cases h
  | succ n ih =>
    rw [findIntegrity] at h
    dsimp only at h
    split_ifs at h with hfits htype hbad
    · cases h
      exact ⟨le_rfl, by omega⟩
    · obtain ⟨hle, hlen⟩ := ih h
      exact ⟨by omega, hlen⟩

theorem of_integrityPosition {miSize pos : Nat} {data : List UInt8}
    (h : integrityPosition miType miSize data = some pos) :
    data.length % 4 = 0 ∧ 20 ≤ pos ∧ pos ≤ data.length := by
  rw [integrityPosition] at h
  split_ifs at h with hsize hlength
  exact ⟨by omega, le_of_findIntegrity h⟩

theorem exists_position_of_valid {miSize : Nat} {data : List UInt8}
    (h : integrityStatus (validateMessageIntegrityOfType hmac miType miSize data password) =
      .integrityOk) : ∃ pos, integrityPosition miType miSize data = some pos := by
  cases hpos : integrityPosition miType miSize data with
  | none =>
    rw [validateMessageIntegrityOfType, hpos] at h
    cases h
  | some pos => exact ⟨pos, rfl⟩

theorem exists_validatedPosition (h : m.validateMessageIntegrity hmac password = some m')
    (hok : m'.integrity = .integrityOk) :
    ∃ pos, m.validatedPosition = some pos ∧ m.buffer.length % 4 = 0 ∧ 20 ≤ pos ∧
      pos ≤ m.buffer.length := by
  obtain ⟨-, -, h⟩ := bind_eq_some_iff.mp h
  have hpos : ∃ pos, m.validatedPosition = some pos := by
    unfold validatedPosition
    split_ifs at h ⊢ with hmi hmi32
    · cases h
      exact exists_position_of_valid hok
    · cases h
      exact exists_position_of_valid hok
    · cases h
      cases hok
  obtain ⟨pos, hpos⟩ := hpos
  refine ⟨pos, hpos, ?_⟩
  unfold validatedPosition at hpos
  split_ifs at hpos
  · exact of_integrityPosition hpos
  · exact of_integrityPosition hpos

theorem transactionId_of_read {data : List UInt8} (h : read c data = some m) :
    m.transactionId = if load32 ((data.take 20).drop 4) 0 ≠ stunMagicCookie then
      (data.take 20).drop 4 else (data.take 20).drop 8 := by
  obtain ⟨⟨⟨type, length, id⟩, buf⟩, hheader, h⟩ := bind_eq_some_iff.mp h
  obtain ⟨-, -, h⟩ := bind_eq_some_iff.mp h
  obtain ⟨⟨attrs, rest⟩, -, h⟩ := bind_eq_some_iff.mp h
  cases h
  rw [readHeader, StateT.run_bind] at hheader
  obtain ⟨⟨type', b₁⟩, htype, hheader₁⟩ := bind_eq_some_iff.mp hheader
  clear hheader
  obtain ⟨u₁, hu₁, rfl, -⟩ := fixed_readUInt16 _ _ _ htype
  obtain ⟨-, hheader₁⟩ := of_run_guard_bind hheader₁
  rw [StateT.run_bind] at hheader₁
  obtain ⟨⟨length', b₂⟩, hlength, hheader₂⟩ := bind_eq_some_iff.mp hheader₁
  clear hheader₁
  obtain ⟨u₂, hu₂, rfl, -⟩ := fixed_readUInt16 _ _ _ hlength
  rw [StateT.run_bind] at hheader₂
  obtain ⟨⟨cookie, b₃⟩, hcookie, hheader₃⟩ := bind_eq_some_iff.mp hheader₂
  clear hheader₂
  obtain ⟨u₃, hu₃, rfl, hreads₃⟩ := fixed_readBytes 4 _ _ _ hcookie
  rw [StateT.run_bind] at hheader₃
  obtain ⟨⟨id', b₄⟩, hid, hheader₄⟩ := bind_eq_some_iff.mp hheader₃
  clear hheader₃
  obtain ⟨u₄, hu₄, rfl, hreads₄⟩ := fixed_readBytes 12 _ _ _ hid
  obtain ⟨-, rfl, -⟩ := reads_unique hreads₃ (reads_readBytes u₃ hu₃) (rfl : u₃ ++ [] = u₃ ++ [])
  obtain ⟨-, rfl, -⟩ := reads_unique hreads₄ (reads_readBytes u₄ hu₄) (rfl : u₄ ++ [] = u₄ ++ [])
  have htake : (u₁ ++ (u₂ ++ (cookie ++ (id' ++ b₄)))).take 20 = u₁ ++ (u₂ ++ (cookie ++ id')) := by
    rw [← List.append_assoc cookie, ← List.append_assoc u₂, ← List.append_assoc u₁]
    rw [List.take_left' (by simp only [List.length_append]; omega)]
  have hcookieId : (u₁ ++ (u₂ ++ (cookie ++ id'))).drop 4 = cookie ++ id' := by
    rw [← List.append_assoc, List.drop_left' (by rw [List.length_append]; omega)]
  have hidOnly : (u₁ ++ (u₂ ++ (cookie ++ id'))).drop 8 = id' := by
    rw [← List.append_assoc, ← List.append_assoc,
      List.drop_left' (by simp only [List.length_append]; omega)]
  have hload : load32 (cookie ++ id') 0 = load32 cookie 0 := by
    rw [load32, load32, load16_append _ (by omega), load16_append _ (by omega)]
  show id = _
  rw [htake, hcookieId, hidOnly, hload]
  split_ifs at hheader₄ ⊢
  · cases hheader₄
    rfl
  · cases hheader₄
    rfl

theorem Covered.getAttribute_eq {data data₂ : List UInt8} {m₂ : StunMessage} {pos : Nat}
    (hread : read c data = some m) (hread₂ : read c data₂ = some m₂) (hagree : AgreeUpTo pos data data₂)
    (hpos : 20 ≤ pos) (hcovered : Covered c m pos) {type : BitVec 16}
    (hexempt : exempt type = false) (hget : m.getAttribute type = some a) :
    m₂.getAttribute type = some a := by
  obtain ⟨rfl, -⟩ := getAttribute_eq_some.mp hget
  obtain ⟨bytes, used, before, hstored, hfirst, hend⟩ := hcovered a.type a hexempt hget
  obtain ⟨tail, htail⟩ := hstored.buffer
  obtain ⟨hbuffer, hlen, -⟩ := exists_of_read hread
  obtain ⟨hbuffer₂, hlen₂, -⟩ := exists_of_read hread₂
  rw [hbuffer] at htail
  have hdrop : ∀ n, 4 ≤ n → (data.take pos).drop n = (data₂.take pos).drop n := by
    intro n hn
    rw [← Nat.add_sub_cancel' hn, ← List.drop_drop, ← List.drop_drop, hagree.2]
  have hid : m₂.transactionId = m.transactionId := by
    have htake : ∀ n, 4 ≤ n → (data.take 20).drop n = (data₂.take 20).drop n := by
      intro n hn
      have hcut := congrArg (List.take (20 - n)) (hdrop n hn)
      rwa [← List.drop_take, ← List.drop_take, List.take_take, List.take_take,
        Nat.min_eq_left hpos] at hcut
    rw [transactionId_of_read hread, transactionId_of_read hread₂, htake 4 le_rfl,
      htake 8 (by decide)]
  -- The bytes of the attribute are a common start of both messages.
  have hstart : (bytes ++ used) <+: data₂.drop 20 := by
    have hcovered : (bytes ++ used) <+: (data.drop 20).take (pos - 20) := by
      rw [htail, ← List.append_assoc]
      refine List.prefix_take_iff.mpr ⟨List.prefix_append _ _, ?_⟩
      rw [List.length_append]
      omega
    rw [← List.drop_take, hdrop 20 (by decide), List.drop_take] at hcovered
    exact hcovered.trans (List.take_prefix _ _)
  obtain ⟨tail₂, htail₂⟩ := hstart
  have hstored₂ : StoredFrom c m₂ bytes used before a := by
    refine ⟨⟨tail₂, ?_⟩, ?_, ?_⟩
    · rw [hbuffer₂, ← htail₂, List.append_assoc]
    · rw [hid]
      exact hstored.before
    · rw [hid]
      exact hstored.reads
  exact hstored₂.getAttribute hread₂ hfirst

end StunMessage

open StunMessage

def signedRequest (length : UInt8) : List UInt8 :=
  [0x00, 0x01, 0x00, length, 0x21, 0x12, 0xA4, 0x42] ++ List.replicate 12 7 ++
    [0x00, 0x08, 0x00, 0x14] ++ List.replicate 20 0

end WebRtc.Stun
