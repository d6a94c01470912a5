import WebRtc.DcSctp.RetransmissionTimeout
import WebRtc.Lib.Checked

/-! Timers (`timer/timer.cc`). A timeout that was armed before the timer was stopped or started
again may still fire; its generation tells it apart. -/

namespace WebRtc.DcSctp

open Option BitVec

inductive TimerBackoffAlgorithm where
  | fixed
  | exponential
  deriving DecidableEq

structure TimerOptions where
  duration : Int
  backoffAlgorithm : TimerBackoffAlgorithm
  maxRestarts : Option Int
  maxBackoffDuration : Option Int

def maxTimerDuration : Int := 24 * 3600 * 1000000

def backoffLoop (maxBackoffDuration : Option Int) : Nat → Int → Int
  | 0, duration => min duration maxTimerDuration
  | count + 1, duration =>
    if duration < maxTimerDuration then
      match maxBackoffDuration with
      | none => backoffLoop none count (duration * 2)
      | some limit =>
        if limit < duration * 2 then limit else backoffLoop (some limit) count (duration * 2)
    else min duration maxTimerDuration

def getBackoffDuration (options : TimerOptions) (baseDuration expirationCount : Int) : Int :=
  match options.backoffAlgorithm with
  | .fixed => baseDuration
  | .exponential => backoffLoop options.maxBackoffDuration expirationCount.toNat baseDuration

def makeTimeoutId (timerId generation : BitVec 32) : BitVec 64 :=
  timerId.setWidth 64 <<< 32 ||| generation.setWidth 64

inductive TimeoutCall where
  | start (delay : Int) (timeoutId : BitVec 64)
  | restart (delay : Int) (timeoutId : BitVec 64)
  | stop
  deriving DecidableEq

def TimeoutCall.armed : TimeoutCall → Option (BitVec 64)
  | .start _ timeoutId => some timeoutId
  | .restart _ timeoutId => some timeoutId
  | .stop => none

/-- `calls` are the calls of the timeout and `expired` the ids for which `on_expired_` was run, both
with the latest first; `sinceStart` counts the expirations since the last start. -/
structure Timer where
  id : BitVec 32
  options : TimerOptions
  duration : Int
  generation : BitVec 32
  isRunning : Bool
  expirationCount : Int
  calls : List TimeoutCall
  expired : List (BitVec 64)
  sinceStart : Nat

namespace Timer

def initial (id : BitVec 32) (options : TimerOptions) : Timer :=
  ⟨id, options, options.duration, 0, false, 0, [], [], 0⟩

def armedIds (t : Timer) : List (BitVec 64) := t.calls.filterMap TimeoutCall.armed

def start (t : Timer) : Timer :=
  let generation := t.generation + 1
  let timeoutId := makeTimeoutId t.id generation
  { t with
    expirationCount := 0
    isRunning := true
    generation := generation
    calls := (if t.isRunning then .restart (toMillis t.duration) timeoutId
      else .start (toMillis t.duration) timeoutId) :: t.calls
    sinceStart := 0 }

def stop (t : Timer) : Timer :=
  if t.isRunning then
    { t with expirationCount := 0, isRunning := false, calls := .stop :: t.calls }
  else t

def setDuration (t : Timer) (duration : Int) : Timer :=
  { t with duration := min duration maxTimerDuration }

def rearm (t : Timer) : Timer :=
  let generation := t.generation + 1
  { t with
    isRunning := true
    generation := generation
    calls := .start (toMillis (getBackoffDuration t.options t.duration t.expirationCount))
      (makeTimeoutId t.id generation) :: t.calls }

/-- `Trigger` up to the call of `on_expired_`. -/
def expire (t : Timer) (timeoutId : BitVec 64) : Timer :=
  let t := { t with
    expirationCount := t.expirationCount + 1
    isRunning := false
    expired := timeoutId :: t.expired
    sinceStart := t.sinceStart + 1 }
  match t.options.maxRestarts with
  | none => t.rearm
  | some maxRestarts => if t.expirationCount ≤ maxRestarts then t.rearm else t

/-- `Trigger` after the call of `on_expired_`. -/
def afterExpired (t : Timer) (newDuration : Int) : Timer :=
  if 0 < newDuration ∧ newDuration ≠ t.duration then
    let t := { t with duration := newDuration }
    if t.isRunning then rearm { t with calls := .stop :: t.calls } else t
  else t

end Timer

inductive TimerCall where
  | start
  | stop
  | setDuration (duration : Int)

def Timer.call (t : Timer) : TimerCall → Timer
  | .start => t.start
  | .stop => t.stop
  | .setDuration duration => t.setDuration duration

structure TimerManager where
  timers : BitVec 32 → Option Timer
  nextId : BitVec 32

structure Expiration where
  calls : List (BitVec 32 × TimerCall)
  newDuration : Int

namespace TimerManager

def initial : TimerManager := ⟨fun _ => none, 0⟩

def set (m : TimerManager) (k : BitVec 32) (t : Timer) : TimerManager :=
  { m with timers := Function.update m.timers k (some t) }

def call (m : TimerManager) (c : BitVec 32 × TimerCall) : TimerManager :=
  match m.timers c.1 with
  | none => m
  | some t => m.set c.1 (t.call c.2)

def afterExpired (m : TimerManager) (timerId : BitVec 32) (newDuration : Int) : TimerManager :=
  match m.timers timerId with
  | none => m
  | some t => m.set timerId (t.afterExpired newDuration)

def handleTimeout (m : TimerManager) (timeoutId : BitVec 64) (onExpired : Expiration) :
    TimerManager :=
  let timerId := (timeoutId >>> 32).setWidth 32
  let generation := timeoutId.setWidth 32
  match m.timers timerId with
  | none => m
  | some t =>
    if t.isRunning ∧ generation = t.generation then
      (onExpired.calls.foldl call (m.set timerId (t.expire timeoutId))).afterExpired timerId
        onExpired.newDuration
    else m

def createTimer (m : TimerManager) (options : TimerOptions) : Option TimerManager := do
  let id := m.nextId + 1
  guard (id ≠ BitVec.allOnes 32)
  return { m.set id (Timer.initial id options) with nextId := id }

def destroyTimer (m : TimerManager) (timerId : BitVec 32) : TimerManager :=
  { m with timers := Function.update m.timers timerId none }

end TimerManager

open Timer TimerManager

inductive TimerOp where
  | createTimer (options : TimerOptions)
  | destroyTimer (timerId : BitVec 32)
  | call (timerId : BitVec 32) (call : TimerCall)
  | handleTimeout (timeoutId : BitVec 64) (onExpired : Expiration)

def TimerManager.step (m : TimerManager) : TimerOp → Option TimerManager
  | .createTimer options => m.createTimer options
  | .destroyTimer timerId => some (m.destroyTimer timerId)
  | .call timerId call => some (m.call (timerId, call))
  | .handleTimeout timeoutId onExpired => some (m.handleTimeout timeoutId onExpired)

def timerMachine : Machine TimerManager TimerOp where
  initial m := m = .initial
  enabled _ _ := True
  step := TimerManager.step

theorem toNat_makeTimeoutId (timerId generation : BitVec 32) :
    (makeTimeoutId timerId generation).toNat = timerId.toNat * 2 ^ 32 + generation.toNat := by
  have hi := timerId.isLt
  have hg := generation.isLt
  have hs : timerId.toNat <<< 32 % 2 ^ 64 = timerId.toNat <<< 32 := by
    rw [Nat.shiftLeft_eq]
    omega
  rw [makeTimeoutId, toNat_or, toNat_shiftLeft, toNat_setWidth,
    toNat_setWidth, Nat.mod_eq_of_lt (by omega : timerId.toNat < 2 ^ 64),
    Nat.mod_eq_of_lt (by omega : generation.toNat < 2 ^ 64), hs,
    ← Nat.shiftLeft_add_eq_or_of_lt hg, Nat.shiftLeft_eq]

theorem makeTimeoutId_parts (timeoutId : BitVec 64) :
    makeTimeoutId ((timeoutId >>> 32).setWidth 32) (timeoutId.setWidth 32) = timeoutId := by
  apply eq_of_toNat_eq
  have h := timeoutId.isLt
  rw [toNat_makeTimeoutId, toNat_setWidth, toNat_setWidth, toNat_ushiftRight,
    Nat.shiftRight_eq_div_pow]
  omega

theorem makeTimeoutId_inj {i i' g g' : BitVec 32} (h : makeTimeoutId i g = makeTimeoutId i' g') :
    i = i' ∧ g = g' := by
  have hn := congrArg BitVec.toNat h
  rw [toNat_makeTimeoutId, toNat_makeTimeoutId] at hn
  exact ⟨eq_of_toNat_eq (by omega), eq_of_toNat_eq (by omega)⟩

def firstIds (timerId : BitVec 32) : Nat → List (BitVec 64)
  | 0 => []
  | n + 1 => makeTimeoutId timerId (BitVec.ofNat 32 (n + 1)) :: firstIds timerId n

theorem mem_firstIds {timerId : BitVec 32} {n g : Nat} (h : 0 < g) (hn : g ≤ n) :
    makeTimeoutId timerId (BitVec.ofNat 32 g) ∈ firstIds timerId n := by
  induction n with
  | zero => omega
  | succ n ih =>
    by_cases he : g = n + 1
    · rw [he]
      exact List.mem_cons_self
    · exact List.mem_cons_of_mem _ (ih (by omega))

namespace Timer

structure Tracked (t : Timer) (armed : Nat) (gens : List Nat) : Prop where
  ids : t.armedIds = firstIds t.id armed
  generation : t.generation = BitVec.ofNat 32 armed
  expired : t.expired = gens.map fun g => makeTimeoutId t.id (BitVec.ofNat 32 g)
  decreasing : gens.Pairwise (· > ·)
  past : ∀ g ∈ gens, 0 < g ∧ g ≤ armed
  pending : t.isRunning = true → 0 < armed ∧ ∀ g ∈ gens, g < armed
  count : t.isRunning = true → t.expirationCount = t.sinceStart
  restarts : ∀ m, t.options.maxRestarts = some m → (t.sinceStart : Int) ≤ max m 0 + 1
  restartable : ∀ m, t.options.maxRestarts = some m → t.isRunning = true →
    (t.sinceStart : Int) ≤ max m 0

def Consistent (t : Timer) : Prop := ∃ armed gens, t.Tracked armed gens

variable {t : Timer} {armed : Nat} {gens : List Nat}

theorem ofNat_succ_generation (h : t.Tracked armed gens) :
    t.generation + 1 = BitVec.ofNat 32 (armed + 1) := by
  rw [h.generation, ofNat_add]
  rfl

theorem Consistent.initial (id : BitVec 32) (options : TimerOptions) :
    (Timer.initial id options).Consistent :=
  ⟨0, [], rfl, rfl, rfl, .nil, by simp, by simp [Timer.initial], by simp [Timer.initial],
    fun m _ => by simp only [Timer.initial]; omega, by simp [Timer.initial]⟩

section

variable (h : t.Tracked armed gens)
include h

theorem Tracked.start : t.start.Tracked (armed + 1) gens where
  ids := by
    have ha : t.start.armedIds = makeTimeoutId t.id (t.generation + 1) :: t.armedIds := by
      cases hr : t.isRunning <;> simp [Timer.start, armedIds, TimeoutCall.armed, hr]
    rw [ha, h.ids, ofNat_succ_generation h]
    rfl
  generation := ofNat_succ_generation h
  expired := h.expired
  decreasing := h.decreasing
  past g hg := ⟨(h.past g hg).1, (h.past g hg).2.trans (Nat.le_succ _)⟩
  pending _ := ⟨Nat.succ_pos _, fun g hg => Nat.lt_succ_of_le (h.past g hg).2⟩
  count _ := rfl
  restarts m _ := by simp only [Timer.start]; omega
  restartable m _ _ := by simp only [Timer.start]; omega

theorem Tracked.stop : t.stop.Tracked armed gens := by
  rw [Timer.stop]
  split
  · exact ⟨h.ids, h.generation, h.expired,
      h.decreasing, h.past, by simp, by simp, h.restarts, by simp⟩
  · exact h

theorem Tracked.setDuration (duration : Int) : (t.setDuration duration).Tracked armed gens :=
  ⟨h.ids, h.generation, h.expired, h.decreasing, h.past, h.pending, h.count, h.restarts,
    h.restartable⟩

theorem Tracked.rearm (hc : t.expirationCount = t.sinceStart)
    (hm : ∀ m, t.options.maxRestarts = some m → (t.sinceStart : Int) ≤ max m 0) :
    t.rearm.Tracked (armed + 1) gens where
  ids := by
    have ha : t.rearm.armedIds = makeTimeoutId t.id (t.generation + 1) :: t.armedIds := by
      simp [Timer.rearm, armedIds, TimeoutCall.armed]
    rw [ha, h.ids, ofNat_succ_generation h]
    rfl
  generation := ofNat_succ_generation h
  expired := h.expired
  decreasing := h.decreasing
  past g hg := ⟨(h.past g hg).1, (h.past g hg).2.trans (Nat.le_succ _)⟩
  pending _ := ⟨Nat.succ_pos _, fun g hg => Nat.lt_succ_of_le (h.past g hg).2⟩
  count _ := hc
  restarts m hs := (hm m hs).trans (by omega)
  restartable m hs _ := hm m hs

end

/-- The timer as `Trigger` leaves it before it decides on a restart. -/
def countExpiration (t : Timer) (timeoutId : BitVec 64) : Timer :=
  { t with
    expirationCount := t.expirationCount + 1
    isRunning := false
    expired := timeoutId :: t.expired
    sinceStart := t.sinceStart + 1 }

theorem Tracked.countExpiration (h : t.Tracked armed gens) (hr : t.isRunning = true) :
    (t.countExpiration (makeTimeoutId t.id t.generation)).Tracked armed (armed :: gens) where
  ids := h.ids
  generation := h.generation
  expired := by
    simp only [Timer.countExpiration, List.map_cons, h.expired, h.generation]
  decreasing := List.pairwise_cons.mpr ⟨(h.pending hr).2, h.decreasing⟩
  past g hg := by
    rcases List.mem_cons.mp hg with rfl | hg
    · exact ⟨(h.pending hr).1, le_rfl⟩
    · exact h.past g hg
  pending := by simp [Timer.countExpiration]
  count := by simp [Timer.countExpiration]
  restarts m hm := by
    have := h.restartable m hm hr
    simp only [Timer.countExpiration]
    omega
  restartable := by simp [Timer.countExpiration]

theorem Tracked.expire (h : t.Tracked armed gens) (hr : t.isRunning = true) :
    (t.expire (makeTimeoutId t.id t.generation)).Consistent := by
  have he := h.countExpiration hr
  have hc : (t.countExpiration (makeTimeoutId t.id t.generation)).expirationCount =
      (t.countExpiration (makeTimeoutId t.id t.generation)).sinceStart := by
    simp [Timer.countExpiration, h.count hr]
  cases hm : t.options.maxRestarts with
  | none =>
    have hx : t.expire (makeTimeoutId t.id t.generation) =
        (t.countExpiration (makeTimeoutId t.id t.generation)).rearm := by
      simp [Timer.expire, Timer.countExpiration, hm]
    rw [hx]
    exact ⟨_, _, he.rearm hc fun m hs => by simp [Timer.countExpiration, hm] at hs⟩
  | some m =>
    by_cases hle : t.expirationCount + 1 ≤ m
    · have hx : t.expire (makeTimeoutId t.id t.generation) =
          (t.countExpiration (makeTimeoutId t.id t.generation)).rearm := by
        simp [Timer.expire, Timer.countExpiration, hm, hle]
      rw [hx]
      refine ⟨_, _, he.rearm hc fun m' hs => ?_⟩
      obtain rfl : m = m' := by simpa [Timer.countExpiration, hm] using hs
      have := h.count hr
      simp only [Timer.countExpiration]
      omega
    · have hx : t.expire (makeTimeoutId t.id t.generation) =
          t.countExpiration (makeTimeoutId t.id t.generation) := by
        simp [Timer.expire, Timer.countExpiration, hm, hle]
      rw [hx]
      exact ⟨_, _, he⟩

theorem Consistent.call (h : t.Consistent) (c : TimerCall) : (t.call c).Consistent := by
  obtain ⟨armed, gens, h⟩ := h
  cases c with
  | start => exact ⟨_, _, h.start⟩
  | stop => exact ⟨_, _, h.stop⟩
  | setDuration duration => exact ⟨_, _, h.setDuration duration⟩

theorem Consistent.afterExpired (h : t.Consistent) (newDuration : Int) :
    (t.afterExpired newDuration).Consistent := by
  obtain ⟨armed, gens, h⟩ := h
  rw [Timer.afterExpired]
  split
  · have hd : Tracked { t with duration := newDuration } armed gens :=
      ⟨h.ids, h.generation, h.expired, h.decreasing, h.past, h.pending, h.count, h.restarts,
        h.restartable⟩
    dsimp only
    split
    · next hr =>
      have hs : Tracked { t with duration := newDuration, calls := .stop :: t.calls } armed gens :=
        ⟨h.ids, h.generation, h.expired,
          h.decreasing, h.past, h.pending, h.count, h.restarts, h.restartable⟩
      exact ⟨_, _, hs.rearm (h.count hr) fun m hm => h.restartable m hm hr⟩
    · exact ⟨_, _, hd⟩
  · exact ⟨_, _, h⟩

end Timer

namespace TimerManager

def Consistent (m : TimerManager) : Prop :=
  ∀ k t, m.timers k = some t → t.id = k ∧ t.Consistent

variable {m : TimerManager}

theorem set_self (m : TimerManager) (k : BitVec 32) (t : Timer) :
    (m.set k t).timers k = some t := by
  rw [set]
  exact Function.update_self ..

theorem set_ne (m : TimerManager) {k k' : BitVec 32} (t : Timer) (h : k' ≠ k) :
    (m.set k t).timers k' = m.timers k' := by
  rw [set]
  exact Function.update_of_ne h ..

theorem Consistent.set (h : m.Consistent) {k : BitVec 32} {t : Timer} (hk : t.id = k)
    (ht : t.Consistent) : (m.set k t).Consistent := by
  intro k' t' h'
  by_cases he : k' = k
  · subst he
    rw [set_self] at h'
    cases h'
    exact ⟨hk, ht⟩
  · rw [set_ne m t he] at h'
    exact h k' t' h'

theorem call_keeps (t : Timer) (c : TimerCall) :
    (t.call c).id = t.id ∧ (t.call c).expired = t.expired := by
  cases c with
  | start => exact ⟨rfl, rfl⟩
  | stop =>
    simp only [Timer.call, Timer.stop]
    split <;> exact ⟨rfl, rfl⟩
  | setDuration _ => exact ⟨rfl, rfl⟩

theorem expire_keeps (t : Timer) (timeoutId : BitVec 64) :
    (t.expire timeoutId).id = t.id ∧ (t.expire timeoutId).expired = timeoutId :: t.expired := by
  simp only [expire]
  split
  · exact ⟨rfl, rfl⟩
  · split <;> exact ⟨rfl, rfl⟩

theorem afterExpired_keeps (t : Timer) (newDuration : Int) :
    (t.afterExpired newDuration).id = t.id ∧ (t.afterExpired newDuration).expired = t.expired := by
  simp only [Timer.afterExpired]
  split
  · split <;> exact ⟨rfl, rfl⟩
  · exact ⟨rfl, rfl⟩

section

variable (h : m.Consistent)
include h

theorem Consistent.call (c : BitVec 32 × TimerCall) : (m.call c).Consistent := by
  rw [TimerManager.call]
  split
  · exact h
  · next t ht =>
    obtain ⟨hk, hc⟩ := h _ _ ht
    exact h.set ((call_keeps t c.2).1.trans hk) (hc.call c.2)

theorem Consistent.calls (cs : List (BitVec 32 × TimerCall)) :
    (cs.foldl TimerManager.call m).Consistent := by
  induction cs generalizing m with
  | nil => exact h
  | cons c cs ih => exact ih (h.call c)

theorem Consistent.afterExpired (k : BitVec 32) (newDuration : Int) :
    (m.afterExpired k newDuration).Consistent := by
  rw [TimerManager.afterExpired]
  split
  · exact h
  · next t ht =>
    obtain ⟨hk, hc⟩ := h _ _ ht
    exact h.set ((afterExpired_keeps t newDuration).1.trans hk) (hc.afterExpired newDuration)

theorem Consistent.handleTimeout (timeoutId : BitVec 64)
    (onExpired : Expiration) : (m.handleTimeout timeoutId onExpired).Consistent := by
  rw [TimerManager.handleTimeout]
  split
  · exact h
  · next t ht =>
    split
    · next hr =>
      obtain ⟨hk, armed, gens, hc⟩ := h _ _ ht
      have he : timeoutId = makeTimeoutId t.id t.generation := by
        rw [hk, ← hr.2, makeTimeoutId_parts]
      have hx := hc.expire hr.1
      rw [← he] at hx
      exact ((h.set ((expire_keeps t timeoutId).1.trans hk) hx).calls _).afterExpired _ _
    · exact h

theorem Consistent.step {m' : TimerManager} {op : TimerOp}
    (hs : m.step op = some m') : m'.Consistent := by
  cases op with
  | createTimer options =>
    simp only [TimerManager.step, createTimer] at hs
    obtain ⟨_, _, hs⟩ := bind_eq_some_iff.mp hs
    cases hs
    exact h.set rfl (Timer.Consistent.initial _ _)
  | destroyTimer k =>
    cases hs
    intro k' t h'
    by_cases he : k' = k
    · simp [destroyTimer, he] at h'
    · simp only [destroyTimer, Function.update_of_ne he] at h'
      exact h k' t h'
  | call k c =>
    cases hs
    exact h.call (k, c)
  | handleTimeout timeoutId onExpired =>
    cases hs
    exact h.handleTimeout timeoutId onExpired

end

theorem consistent_of_reachable (h : timerMachine.Reachable m) : m.Consistent := by
  refine h.preserved (I := Consistent) (fun m hm => ?_) fun m op m' hi _ hs => hi.step hs
  cases hm
  intro k t ht
  cases ht

def expiredIds (m : TimerManager) (k : BitVec 32) : Option (List (BitVec 64)) :=
  (m.timers k).map Timer.expired

theorem expiredIds_set {k : BitVec 32} {t t' : Timer} (ht : m.timers k = some t)
    (he : t'.expired = t.expired) (k' : BitVec 32) :
    (m.set k t').expiredIds k' = m.expiredIds k' := by
  by_cases hk : k' = k
  · rw [hk, expiredIds, expiredIds, set_self, ht, map_some, map_some, he]
  · rw [expiredIds, expiredIds, set_ne m t' hk]

theorem expiredIds_call (m : TimerManager) (c : BitVec 32 × TimerCall) (k : BitVec 32) :
    (m.call c).expiredIds k = m.expiredIds k := by
  rw [call]
  split
  · rfl
  · next t ht => exact expiredIds_set ht (call_keeps t c.2).2 k

theorem expiredIds_calls (m : TimerManager) (cs : List (BitVec 32 × TimerCall)) (k : BitVec 32) :
    (cs.foldl call m).expiredIds k = m.expiredIds k := by
  induction cs generalizing m with
  | nil => rfl
  | cons c cs ih => rw [List.foldl_cons, ih, expiredIds_call]

theorem expiredIds_afterExpired (m : TimerManager) (k' : BitVec 32) (newDuration : Int)
    (k : BitVec 32) : (m.afterExpired k' newDuration).expiredIds k = m.expiredIds k := by
  rw [afterExpired]
  split
  · rfl
  · next t ht => exact expiredIds_set ht (afterExpired_keeps t newDuration).2 k

end TimerManager

theorem Timer.Tracked.head_armedIds {t : Timer} {armed : Nat} {gens : List Nat}
    (h : t.Tracked armed gens) (hr : t.isRunning = true) :
    t.armedIds.head? = some (makeTimeoutId t.id t.generation) := by
  obtain ⟨n, rfl⟩ := Nat.exists_eq_succ_of_ne_zero (h.pending hr).1.ne'
  rw [h.ids, h.generation]
  rfl

theorem TimerManager.Consistent.expiredIds_handleTimeout {m : TimerManager} (h : m.Consistent)
    {k : BitVec 32} {t : Timer} (ht : m.timers k = some t) (timeoutId : BitVec 64)
    (onExpired : Expiration) : (m.handleTimeout timeoutId onExpired).expiredIds k =
      some (if t.isRunning = true ∧ t.armedIds.head? = some timeoutId then timeoutId :: t.expired
        else t.expired) := by
  obtain ⟨hk, armed, gens, hc⟩ := h k t ht
  have hid : m.expiredIds k = some t.expired := by rw [expiredIds, ht, map_some]
  rw [TimerManager.handleTimeout]
  by_cases hi : (timeoutId >>> 32).setWidth 32 = k
  · rw [hi, ht]
    dsimp only
    by_cases hr : t.isRunning = true ∧ timeoutId.setWidth 32 = t.generation
    · have he : makeTimeoutId t.id t.generation = timeoutId := by
        rw [hk, ← hi, ← hr.2, makeTimeoutId_parts]
      rw [if_pos hr, if_pos ⟨hr.1, (hc.head_armedIds hr.1).trans (congrArg some he)⟩,
        expiredIds_afterExpired, expiredIds_calls, expiredIds, set_self, map_some,
        (expire_keeps t timeoutId).2]
    · rw [if_neg hr, if_neg, hid]
      rintro ⟨hrun, hhead⟩
      rw [hc.head_armedIds hrun, some_inj, ← makeTimeoutId_parts timeoutId] at hhead
      exact hr ⟨hrun, (makeTimeoutId_inj hhead).2.symm⟩
  · have hno : ¬ (t.isRunning = true ∧ t.armedIds.head? = some timeoutId) := by
      rintro ⟨hrun, hhead⟩
      rw [hc.head_armedIds hrun, some_inj, ← makeTimeoutId_parts timeoutId] at hhead
      exact hi ((makeTimeoutId_inj hhead).1.symm.trans hk)
    rw [if_neg hno, ← hid]
    split
    · rfl
    · split
      · rw [expiredIds_afterExpired, expiredIds_calls, expiredIds, set_ne m _ (Ne.symm hi),
          expiredIds]
      · rfl

theorem backoffLoop_eq (limit : Option Int) (count : Nat) (duration : Int) :
    (∃ n ≤ count, (n = count ∨ maxTimerDuration ≤ duration * 2 ^ n) ∧
      backoffLoop limit count duration = min (duration * 2 ^ n) maxTimerDuration) ∨
    ∃ l n, limit = some l ∧ n ≤ count ∧ l < duration * 2 ^ n ∧
      backoffLoop limit count duration = l := by
  induction count generalizing duration with
  | zero => exact .inl ⟨0, le_rfl, .inl rfl, by simp [backoffLoop]⟩
  | succ count ih =>
    have hp : ∀ n, duration * 2 * 2 ^ n = duration * 2 ^ (n + 1) := fun n => by ring
    by_cases hd : duration < maxTimerDuration
    · by_cases hl : ∃ l, limit = some l ∧ l < duration * 2
      · obtain ⟨l, rfl, hl⟩ := hl
        exact .inr ⟨l, 1, rfl, by omega, by simpa using hl, by simp [backoffLoop, hd, hl]⟩
      · have hs : backoffLoop limit (count + 1) duration =
            backoffLoop limit count (duration * 2) := by
          cases limit with
          | none => simp [backoffLoop, hd]
          | some l =>
            have : ¬ l < duration * 2 := fun h => hl ⟨l, rfl, h⟩
            simp [backoffLoop, hd, this]
        rw [hs]
        rcases ih (duration * 2) with ⟨n, hn, hc, he⟩ | ⟨l, n, rfl, hn, hc, he⟩
        · refine .inl ⟨n + 1, by omega, ?_, by rw [he, hp]⟩
          rw [← hp]
          exact hc.imp (by omega) id
        · exact .inr ⟨l, n + 1, rfl, by omega, by rwa [← hp], he⟩
    · refine .inl ⟨0, by omega, .inr (by simpa using hd), ?_⟩
      simp [backoffLoop, hd]

theorem Timer.Tracked.nodup_expired {t : Timer} {armed : Nat} {gens : List Nat}
    (h : t.Tracked armed gens) (hn : armed < 2 ^ 32) : t.expired.Nodup := by
  rw [h.expired]
  refine List.Nodup.map_on ?_ (h.decreasing.imp fun hlt => hlt.ne')
  intro g hg g' hg' he
  have hb := (h.past g hg).2
  have hb' := (h.past g' hg').2
  have ht := congrArg BitVec.toNat (makeTimeoutId_inj he).2
  rwa [toNat_ofNat, toNat_ofNat, Nat.mod_eq_of_lt (by omega),
    Nat.mod_eq_of_lt (by omega)] at ht

theorem length_firstIds (timerId : BitVec 32) (n : Nat) : (firstIds timerId n).length = n := by
  induction n with
  | zero => rfl
  | succ n ih => rw [firstIds, List.length_cons, ih]

theorem Timer.calls_expire (t : Timer) (timeoutId : BitVec 64) : (t.expire timeoutId).calls =
      (if t.options.maxRestarts.all (fun m => decide (t.expirationCount + 1 ≤ m)) then
        [.start (toMillis (getBackoffDuration t.options t.duration (t.expirationCount + 1)))
          (makeTimeoutId t.id (t.generation + 1))] else []) ++ t.calls := by
  simp only [expire]
  cases hm : t.options.maxRestarts with
  | none => rfl
  | some m =>
    dsimp only
    by_cases hle : t.expirationCount + 1 ≤ m
    · rw [if_pos hle, if_pos (by simpa using hle)]
      rfl
    · rw [if_neg hle, if_neg (by simpa using hle)]
      rfl

theorem Timer.calls_afterExpired (t : Timer) (newDuration : Int) :
    (t.afterExpired newDuration).calls =
      (if (0 < newDuration ∧ newDuration ≠ t.duration) ∧ t.isRunning = true then
        [.start (toMillis (getBackoffDuration t.options newDuration t.expirationCount))
          (makeTimeoutId t.id (t.generation + 1)), .stop] else []) ++ t.calls := by
  simp only [afterExpired]
  by_cases hd : 0 < newDuration ∧ newDuration ≠ t.duration
  · by_cases hr : t.isRunning = true
    · simp [hd, hr, rearm]
    · simp [hd, hr]
  · rw [if_neg hd, if_neg fun h => hd h.1]
    rfl

/-- In every run: a timeout runs the callback exactly if the timer is running and armed its id
last, no id runs it twice, a start allows one expiration and the restarts after it, and the timer is
armed again with the backoff of its expirations, before the callback and after it. -/
theorem timer_sound {m : TimerManager} (h : timerMachine.Reachable m) {k : BitVec 32} {t : Timer}
    (ht : m.timers k = some t) (hn : t.armedIds.length < 2 ^ 32) :
    (∀ timeoutId onExpired, (m.handleTimeout timeoutId onExpired).expiredIds k =
      some (if t.isRunning = true ∧ t.armedIds.head? = some timeoutId then timeoutId :: t.expired
        else t.expired)) ∧ t.expired.Nodup ∧ (∀ timeoutId ∈ t.expired, timeoutId ∈ t.armedIds) ∧
    (∀ maxRestarts, t.options.maxRestarts = some maxRestarts →
      (t.sinceStart : Int) ≤ max maxRestarts 0 + 1 ∧
      ((t.sinceStart : Int) = max maxRestarts 0 + 1 → t.isRunning = false)) ∧
    (∀ timeoutId, (t.expire timeoutId).calls =
      (if t.options.maxRestarts.all (fun m => decide (t.expirationCount + 1 ≤ m)) then
        [.start (toMillis (getBackoffDuration t.options t.duration (t.expirationCount + 1)))
          (makeTimeoutId t.id (t.generation + 1))] else []) ++ t.calls) ∧
    (∀ newDuration, (t.afterExpired newDuration).calls =
      (if (0 < newDuration ∧ newDuration ≠ t.duration) ∧ t.isRunning = true then
        [.start (toMillis (getBackoffDuration t.options newDuration t.expirationCount))
          (makeTimeoutId t.id (t.generation + 1)), .stop] else []) ++ t.calls) ∧
    ∀ limit count duration, (∃ n ≤ count, (n = count ∨ maxTimerDuration ≤ duration * 2 ^ n) ∧
        backoffLoop limit count duration = min (duration * 2 ^ n) maxTimerDuration) ∨
      ∃ l n, limit = some l ∧ n ≤ count ∧ l < duration * 2 ^ n ∧
        backoffLoop limit count duration = l := by
  have hm := consistent_of_reachable h
  obtain ⟨-, armed, gens, hc⟩ := hm k t ht
  rw [hc.ids, length_firstIds] at hn
  refine ⟨hm.expiredIds_handleTimeout ht, hc.nodup_expired hn, ?_, ?_, t.calls_expire,
    t.calls_afterExpired, backoffLoop_eq⟩
  · intro timeoutId hmem
    rw [hc.expired] at hmem
    obtain ⟨g, hg, rfl⟩ := List.mem_map.mp hmem
    rw [hc.ids]
    exact mem_firstIds (hc.past g hg).1 (hc.past g hg).2
  · intro maxRestarts hr
    refine ⟨hc.restarts maxRestarts hr, fun he => ?_⟩
    by_contra hrun
    have := hc.restartable maxRestarts hr (by simpa using hrun)
    omega

instance (m : TimerManager) (op : TimerOp) : Decidable (timerMachine.enabled m op) :=
  inferInstanceAs (Decidable True)

def expireOnce (maxRestarts : Int) : List TimerOp :=
  [.createTimer ⟨1000, .exponential, some maxRestarts, none⟩, .call 1 .start,
    .handleTimeout (makeTimeoutId 1 1) ⟨[], 0⟩]

theorem timer_sound_once : ∃ m t, timerMachine.Reachable m ∧ m.timers 1 = some t ∧
    t.isRunning = true ∧ t.expired = [makeTimeoutId 1 1] ∧ t.expired.Nodup := by
  have hrun : (timerMachine.run .initial (expireOnce 1)).any (fun m => (m.timers 1).any fun t =>
      decide (t.isRunning = true ∧ t.expired = [makeTimeoutId 1 1] ∧
        t.armedIds.length < 2 ^ 32)) = true := by decide
  obtain ⟨m, hr, hm⟩ := any_eq_true .. |>.mp hrun
  obtain ⟨t, ht, hd⟩ := any_eq_true .. |>.mp hm
  obtain ⟨hi, he, hn⟩ := of_decide_eq_true hd
  have hreach := Machine.Reachable.run (.initial rfl) hr
  exact ⟨m, t, hreach, ht, hi, he, (timer_sound hreach ht hn).2.1⟩

/-- A negative number of restarts still leaves the one expiration. -/
theorem negative_restarts_expire : ∃ m t, timerMachine.Reachable m ∧ m.timers 1 = some t ∧
    t.options.maxRestarts = some (-1) ∧ ¬ (t.sinceStart : Int) ≤ -1 + 1 := by
  have hrun : (timerMachine.run .initial (expireOnce (-1))).any (fun m => (m.timers 1).any fun t =>
      decide (t.options.maxRestarts = some (-1) ∧ ¬ (t.sinceStart : Int) ≤ -1 + 1)) = true := by
    decide
  obtain ⟨m, hr, hm⟩ := any_eq_true .. |>.mp hrun
  obtain ⟨t, ht, hd⟩ := any_eq_true .. |>.mp hm
  exact ⟨m, t, .run (.initial rfl) hr, ht, of_decide_eq_true hd⟩

end WebRtc.DcSctp
